/-
  Boot/Exit.lean --- leaving bootloader mode.

  A write of CSR.EXIT makes a one-cycle pulse.  `p_enable_disable_bootloader` turns
  it into `go_passive`, which is honoured when the VME core is idle, and which
  the end of an erase pulse overrides: an erase pulse that was started before the
  exit enables the bootloader again after it.  And a VME cycle that begins in the
  very cycle of the pulse is answered before the core is idle again.  The theorem
  says that these are the only ways around an exit.
-/
import Svec.Boot.Activation

set_option autoImplicit false

namespace Svec.Boot.Exit

open Svec.Data Svec.Sync Svec.Hdl Svec.Hdl.SfpgaTop
open Svec.Hdl.BootTrigger (triggerSequence)

/-! ## The exit pulse in the register block -/

/-- Without an access of the bus no register is written. -/
theorem csrExitInt_of_step {r : XloaderWb.Regs} {rstN : Bool} {wb : WbMasterOut}
    {f : XloaderWb.FifoFlags} {regsI : XloaderWb.RegsIn} (hstb : wb.stb = false)
    (h : (XloaderWb.step r rstN wb f regsI).csrExitInt = true) :
    r.csrExitInt = true ∧ (XloaderWb.step r rstN wb f regsI).csrExitDly0 = true := by
  unfold XloaderWb.step at h ⊢
  cases rstN with
  | false => simp [XloaderWb.Regs.reset] at h
  | true =>
    simp only [Bool.not_true, Bool.false_eq_true, if_false, XloaderWb.pRegisterBank, hstb,
      Bool.and_false] at h ⊢
    have hint : r.csrExitInt = true := by
      revert h
      (repeat' split) <;> simp
    exact ⟨hint, hint⟩

/-- The pulse is the rising edge of the register. -/
theorem csrExit_step {r : XloaderWb.Regs} {rstN : Bool} {wb : WbMasterOut}
    {f : XloaderWb.FifoFlags} {regsI : XloaderWb.RegsIn} :
    (XloaderWb.step r rstN wb f regsI).csrExit = (rstN && (r.csrExitInt && !r.csrExitDly0)) := by
  cases rstN <;> rfl

theorem csrExitDly0_of_csrExit {r : XloaderWb.Regs} {rstN : Bool} {wb : WbMasterOut}
    {f : XloaderWb.FifoFlags} {regsI : XloaderWb.RegsIn}
    (h : (XloaderWb.step r rstN wb f regsI).csrExit = true) :
    (XloaderWb.step r rstN wb f regsI).csrExitDly0 = true := by
  cases rstN with
  | false => simp [XloaderWb.step, XloaderWb.Regs.reset] at h
  | true =>
    rw [csrExit_step, Bool.true_and, Bool.and_eq_true] at h
    exact h.1

/-! ## The VME core on its way to `IDLE` -/

/-- No access is decoded or started: the core is answering one, or waits in `IDLE` and the
latches do not hold the next one. -/
def Settled (r : MiniVme.Regs) : Prop :=
  r.fsm.masterO.stb = false ∧
    (r.fsm.state = .waitAck ∨ r.fsm.state = .dtack ∨
      (r.fsm.state = .idle ∧ (r.addr.valid && r.data.valid) = false))

/-- The core finishes a VME cycle, or has just finished it, or reports `idle_o`. -/
def Leaving (r : MiniVme.Regs) : Prop :=
  r.fsm.masterO.stb = false ∧
    (r.fsm.state = .waitAck ∨ r.fsm.state = .dtack ∨
      (r.fsm.state = .idle ∧ (r.data.valid = false ∨ r.fsm.idleO = true)))

theorem Leaving.not_decode {r : MiniVme.Regs} (h : Leaving r) : r.fsm.state ≠ .decodeAddr := by
  obtain ⟨-, h | h | ⟨h, -⟩⟩ := h <;> rw [h] <;> decide

theorem Leaving.settled {r : MiniVme.Regs} (h : Leaving r) (hbusy : r.fsm.idleO = false) :
    Settled r := by
  obtain ⟨hstb, hs | hs | ⟨hs, hdv | hio⟩⟩ := h
  · exact ⟨hstb, Or.inl hs⟩
  · exact ⟨hstb, Or.inr (Or.inl hs)⟩
  · exact ⟨hstb, Or.inr (Or.inr ⟨hs, by rw [hdv, Bool.and_false]⟩)⟩
  · rw [hbusy] at hio
    exact absurd hio (by decide)

section Core

variable {g : MiniVme.Generics} {r : MiniVme.Regs} {i : MiniVme.In}

/-- The data latch is empty in the cycle after DS was seen released. -/
theorem data_released (hds : i.dsP1 = true → i.dsSynced = false) (hs : i.dsSynced = true) :
    (MiniVme.step g r i).data.valid = false := by
  have hp : i.dsP1 = false := by
    cases hp : i.dsP1 with
    | false => rfl
    | true => exact absurd hs (by rw [hds hp]; decide)
  rw [MiniVme.step_data_valid, hs, hp]
  simp

/-- The strobe is taken back in `WAIT_ACK`, and DS is released when the core gives up. -/
theorem leaving_of_waitAck (hr : i.rstN = true) (hds : i.dsP1 = true → i.dsSynced = false)
    (hstall : i.masterI.stall = false) (hs : r.fsm.state = .waitAck) :
    Leaving (MiniVme.step g r i) := by
  have hstb : (MiniVme.pFsm g r i).masterO.stb = false := by
    unfold MiniVme.pFsm
    simp only [hr, hs, hstall, Bool.not_true, Bool.false_eq_true, if_false]
    (repeat' split) <;> rfl
  have hmove := MiniVme.moves_of_step (g := g) (r := r) hr
  refine ⟨hstb, ?_⟩
  show (MiniVme.pFsm g r i).state = .waitAck ∨ (MiniVme.pFsm g r i).state = .dtack ∨
    ((MiniVme.pFsm g r i).state = .idle ∧ ((MiniVme.step g r i).data.valid = false ∨ _))
  rw [hs] at hmove
  generalize (MiniVme.pFsm g r i).state = st at hmove ⊢
  cases hmove with
  | answer _ => exact Or.inr (Or.inl rfl)
  | abandon _ hd => exact Or.inr (Or.inr ⟨rfl, Or.inl (data_released hds hd)⟩)
  | await _ _ => exact Or.inl rfl

/-- DS is released when the core gives up or ends a VME cycle, so the data latch is empty in
the first cycle in `IDLE`, and `idle_o` is high in the next one. -/
theorem leaving_step (hr : i.rstN = true) (hds : i.dsP1 = true → i.dsSynced = false)
    (hstall : i.masterI.stall = false) (h : Settled r) : Leaving (MiniVme.step g r i) := by
  obtain ⟨hstb, hs | hs | ⟨hs, hpair⟩⟩ := h
  · exact leaving_of_waitAck hr hds hstall hs
  · have hmove := MiniVme.moves_of_step (g := g) (r := r) hr
    have hstb' : (MiniVme.pFsm g r i).masterO.stb = false := by
      unfold MiniVme.pFsm
      simp only [hr, hs, Bool.not_true, Bool.false_eq_true, if_false]
      exact hstb
    refine ⟨hstb', ?_⟩
    show (MiniVme.pFsm g r i).state = .waitAck ∨ (MiniVme.pFsm g r i).state = .dtack ∨
      ((MiniVme.pFsm g r i).state = .idle ∧ ((MiniVme.step g r i).data.valid = false ∨ _))
    rw [hs] at hmove
    generalize (MiniVme.pFsm g r i).state = st at hmove ⊢
    cases hmove with
    | release hd _ => exact Or.inr (Or.inr ⟨rfl, Or.inl (data_released hds hd)⟩)
    | hold _ => exact Or.inr (Or.inl rfl)
  · refine ⟨?_, Or.inr (Or.inr ?_)⟩
    · show (MiniVme.pFsm g r i).masterO.stb = false
      unfold MiniVme.pFsm
      simp [hr, hs, hpair, hstb]
    · show (MiniVme.pFsm g r i).state = .idle ∧ (_ ∨ (MiniVme.pFsm g r i).idleO = true)
      unfold MiniVme.pFsm
      simp [hr, hs, hpair]

end Core

/-! ## From the pulse to the passive card -/

section Run

variable {P : Parts} {s : Regs P} {inp : ℕ → In}

/-- No erase pulse is running, ending or about to start. -/
def NoErase (r : Regs P) (i : In) : Prop :=
  bootTrigP1 r = false ∧ eraseAfpgaN r i = false ∧ r.eraseAfpgaND0 = false

/-- No erase pulse is running, and none has just ended. -/
def PulseOver (r : Regs P) : Prop :=
  P.extend.remaining r.extend = 0 ∧ r.eraseAfpgaND0 = false

theorem PulseOver.eraseAfpgaN {r : Regs P} (h : PulseOver r) (i : In) :
    eraseAfpgaN r i = false := by
  rw [eraseAfpgaN_eq, h.1]
  simp

theorem pulseOver_step {r : Regs P} {i : In} (h : NoErase r i) : PulseOver (step r i) := by
  obtain ⟨htrig, herase, hd0⟩ := h
  rw [eraseAfpgaN_eq] at herase
  cases hr : i.rstN with
  | false =>
    constructor
    · rw [step_remaining, hr]
      rfl
    · rw [step_eraseAfpgaND0, pEnableDisableBootloader, hr]
      exact hd0
  | true =>
    rw [hr, Bool.true_and, decide_eq_false_iff_not] at herase
    constructor
    · rw [step_remaining, hr, htrig]
      simp only [Bool.not_true, Bool.false_eq_true, if_false]
      omega
    · rw [eraseAfpgaND0_step hr, eraseAfpgaN_eq]
      simp only [hr, Bool.true_and, decide_eq_false_iff_not]
      exact herase

theorem PulseOver.noErase {r : Regs P} {i : In} (h : PulseOver r) (htrig : bootTrigP1 r = false) :
    NoErase r i := ⟨htrig, h.eraseAfpgaN i, h.2⟩

/-- Without the end of an erase pulse a low `boot_en` stays low. -/
theorem bootEn_low {r : Regs P} {i : In} (h : NoErase r i) (hen : r.bootEn = false) :
    (step r i).bootEn = false :=
  bootEn_stays hen fun _ => by rw [h.2.2, Bool.and_false]

/-- The exit is pending, and the core is on its way to `IDLE`. -/
structure Pending (r : Regs P) : Prop where
  passive : r.goPassive = true
  leaving : Leaving r.vme
  exitP1 : r.boot.wb.csrExit = false
  exitInt : r.boot.wb.csrExitInt = true → r.boot.wb.csrExitDly0 = true

/-- In cycle `x` CSR.EXIT takes effect on an enabled bootloader. -/
def Exits (s : Regs P) (inp : ℕ → In) (x : ℕ) : Prop :=
  0 < x ∧ bootExitP1 (core s inp x) = true ∧ (core s inp x).bootEn = true

/-- The exit pulse makes the exit pending. -/
theorem pending_of_exit {r : Regs P} {i : In} (hr : i.rstN = true)
    (hds : i.dsP1 = true → i.dsSynced = false) (hexit : bootExitP1 r = true)
    (hdly : r.boot.wb.csrExitDly0 = true) (herase : NoErase r i) (hset : Settled r.vme) :
    Pending (step r i) := by
  have hstb : (Bootloader.wbIn P.boot (bootIn r i)).stb = false :=
    (P.boot.adapter.masterO_stb _).trans hset.1
  refine ⟨?_, leaving_step hr hds rfl hset, ?_, fun h => (csrExitInt_of_step hstb h).2⟩
  · rw [step_goPassive, pEnableDisableBootloader, hr, herase.2.1, herase.2.2, hexit]
    rfl
  · show (XloaderWb.step r.boot.wb i.rstN _ _ _).csrExit = false
    rw [csrExit_step, hdly, Bool.not_true, Bool.and_false, Bool.and_false]

/-- A pending exit is honoured as soon as the core reports `idle_o`, and stays pending until
then. -/
theorem pending_step {r : Regs P} {i : In} (hr : i.rstN = true)
    (hds : i.dsP1 = true → i.dsSynced = false) (herase : NoErase r i) (h : Pending r) :
    (step r i).bootEn = false ∨ Pending (step r i) := by
  have hnoexit : bootExitP1 r = false := h.exitP1
  cases hidle : r.vme.fsm.idleO with
  | true =>
    left
    rw [step_bootEn, pEnableDisableBootloader, hr, herase.2.1, herase.2.2, hnoexit, h.passive,
      vmeIdle, hidle]
    rfl
  | false =>
    right
    have hset := h.leaving.settled hidle
    have hstb : (Bootloader.wbIn P.boot (bootIn r i)).stb = false :=
      (P.boot.adapter.masterO_stb _).trans hset.1
    refine ⟨?_, leaving_step hr hds rfl hset, ?_, fun h => (csrExitInt_of_step hstb h).2⟩
    · rw [step_goPassive, pEnableDisableBootloader, hr, herase.2.1, herase.2.2, hnoexit, vmeIdle,
        hidle, Bool.and_false]
      simpa using h.passive
    · show (XloaderWb.step r.boot.wb i.rstN _ _ _).csrExit = false
      rw [csrExit_step]
      cases hint : r.boot.wb.csrExitInt with
      | false => rw [Bool.false_and, Bool.and_false]
      | true => rw [h.exitInt hint, Bool.not_true, Bool.and_false, Bool.and_false]

/-- Since the exit in cycle `x` there was no trigger before cycle `t`. -/
def Untriggered (s : Regs P) (inp : ℕ → In) (x t : ℕ) : Prop :=
  ∀ k, x < k → k < t → bootTrigP1 (core s inp k) = false

/-- After the exit the bootloader is disabled, or the exit is pending. -/
theorem exit_run (hds : ∀ t, (inp t).dsP1 = true → (inp t).dsSynced = false) {x : ℕ}
    (hexit : Exits s inp x) (herase : NoErase (core s inp x) (inp x))
    (hset : Settled (core s inp x).vme) {t : ℕ} (hxt : x < t) (hno : Untriggered s inp x t) :
    PulseOver (core s inp t) ∧ ((core s inp t).bootEn = false ∨ Pending (core s inp t)) := by
  refine invariant_since
    (I := fun _ (r : Regs P) => PulseOver r ∧ (r.bootEn = false ∨ Pending r)) ?_ hxt ?_
  · refine ⟨pulseOver_step (r := core s inp x) herase, ?_⟩
    cases hr : (inp x).rstN with
    | false => exact Or.inl (bootEn_reset hr)
    | true =>
      obtain ⟨hx, hpulse, -⟩ := hexit
      obtain ⟨w, rfl⟩ : ∃ w, x = w + 1 := ⟨x - 1, by omega⟩
      exact Or.inr (pending_of_exit (r := core s inp (w + 1)) hr (hds _) hpulse
        (csrExitDly0_of_csrExit hpulse) herase hset)
  · rintro k hxk hkt ⟨hover, hstate⟩
    have hnone := hover.noErase (i := inp k) (hno k hxk hkt)
    refine ⟨pulseOver_step (r := core s inp k) hnone, ?_⟩
    rcases hstate with hen | hpend
    · exact Or.inl (bootEn_low (r := core s inp k) hnone hen)
    · cases hr : (inp k).rstN with
      | false => exact Or.inl (bootEn_reset hr)
      | true => exact pending_step (r := core s inp k) hr (hds k) hnone hpend

/-- The bootloader drives DTACK or the data bus. -/
def Drives (r : Regs P) : Prop :=
  (vmeOut r).dtackOe = some true ∨ (vmeOut r).data ≠ none

theorem bootEn_of_drives {r : Regs P} (h : Drives r) : r.bootEn = true := by
  cases hen : r.bootEn with
  | true => rfl
  | false => simp [Drives, vmeOut, hen] at h

/-- The exit in cycle `x` is final: until the next trigger no VME cycle is decoded with
`boot_en` high, `boot_en` does not come back, and only the VME cycle of the exit itself is
answered. -/
def Final (s : Regs P) (inp : ℕ → In) (x : ℕ) : Prop :=
  ∀ t, x < t → Untriggered s inp x t →
    ((core s inp t).vme.fsm.state = .decodeAddr → (core s inp t).bootEn = false) ∧
    (∀ k, x < k → k ≤ t → (core s inp k).bootEn = false → (core s inp t).bootEn = false) ∧
    (Drives (core s inp t) → ∀ k, x < k → k ≤ t → (core s inp k).vme.fsm.state ≠ .decodeAddr)

/-- Once low, `boot_en` stays low until the next trigger. -/
theorem bootEn_low_run (hds : ∀ t, (inp t).dsP1 = true → (inp t).dsSynced = false) {x : ℕ}
    (hexit : Exits s inp x) (herase : NoErase (core s inp x) (inp x))
    (hset : Settled (core s inp x).vme) {k t : ℕ} (hxk : x < k) (hkt : k ≤ t)
    (hno : Untriggered s inp x t) (hen : (core s inp k).bootEn = false) :
    (core s inp t).bootEn = false := by
  induction hkt with
  | refl => exact hen
  | @step t hkt ih =>
    have hxt : x < t := Nat.lt_of_lt_of_le hxk hkt
    have hno' : Untriggered s inp x t := fun k hxk hkt => hno k hxk (Nat.lt_succ_of_lt hkt)
    have hover := (exit_run hds hexit herase hset hxt hno').1
    exact bootEn_low (r := core s inp t)
      (hover.noErase (hno t hxt (Nat.lt_succ_self t))) (ih hno')

end Run

/-! ## Accesses on the bus -/

/-- A write access to a register of a card in slot 1, in the cycle `p` of the access; twelve
cycles are one access. -/
def writeAccess (reg : BitVec 31) (data : Word) (p : ℕ) : In :=
  { In.idle true with
    asSynced := decide (9 ≤ p), asP1 := decide (p = 0)
    dsSynced := decide (9 ≤ p), dsP1 := decide (p = 0)
    writeN := false, vmeLwordN := false, vmeDsN := 0#2, vmeGa := 0x3e#6, vmeAm := 0x2f#6
    vmeAddr := 0x78000#31 + 2#31 * reg, vmeData := data }

/-- A card with a blank flash, reset in cycle 0; from cycle `c` on the host makes the given
accesses one after another. -/
def hostWrites (c : ℕ) (ws : List (BitVec 31 × Word)) (t : ℕ) : In :=
  match (if c ≤ t then ws[(t - c) / 12]? else none) with
  | some (reg, data) => writeAccess reg data ((t - c) % 12)
  | none => In.idle (!(t = 0))

theorem hostWrites_dsP1 (c : ℕ) (ws : List (BitVec 31 × Word)) (t : ℕ)
    (h : (hostWrites c ws t).dsP1 = true) : (hostWrites c ws t).dsSynced = false := by
  revert h
  unfold hostWrites
  split
  · intro h
    have hp : (t - c) % 12 = 0 := of_decide_eq_true h
    show decide (9 ≤ (t - c) % 12) = false
    rw [hp]
    rfl
  · intro h
    exact absurd h (by simp [In.idle])

/-- The trigger sequence, and then the exit. -/
def triggerThenExit : List (BitVec 31 × Word) :=
  triggerSequence.map (fun b => (1#31, b.setWidth 32)) ++ [(0#31, 0x40#32)]

/-- The host writes the trigger sequence once more to the enabled bootloader and leaves it
before the erase pulse is over: the end of the pulse enables the bootloader again. -/
theorem exit_undone :
    ¬ ∀ (P : Parts) (s : Regs P) (inp : ℕ → In) (x : ℕ),
      (∀ t, (inp t).dsP1 = true → (inp t).dsSynced = false) → Exits s inp x → Final s inp x := by
  intro hall
  obtain ⟨hexit, hno, hlow, hback⟩ :
      (bootExitP1 (core (powerUp fun _ => 0xff#8) (hostWrites 240 triggerThenExit) 342) = true ∧
        (core (powerUp fun _ => 0xff#8) (hostWrites 240 triggerThenExit) 342).bootEn = true) ∧
      (∀ k, k < 433 → 342 < k →
        bootTrigP1 (core (powerUp fun _ => 0xff#8) (hostWrites 240 triggerThenExit) k) = false) ∧
      (core (powerUp fun _ => 0xff#8) (hostWrites 240 triggerThenExit) 348).bootEn = false ∧
      (core (powerUp fun _ => 0xff#8) (hostWrites 240 triggerThenExit) 433).bootEn = true := by
    decide +kernel
  have hfinal := hall (standIns fun _ => 0xff#8) _ _ 342 (hostWrites_dsP1 240 triggerThenExit) ⟨by decide, hexit⟩
    433 (by decide) fun k hk hk' => hno k hk' hk
  rw [hfinal.2.1 348 (by decide) (by decide) hlow] at hback
  exact absurd hback (by decide)

/-- An exit is final when it takes effect away from erase pulses and while no further access
is being decoded. -/
theorem exit_final {P : Parts} (s : Regs P) (inp : ℕ → In) (x : ℕ)
    (hds : ∀ t, (inp t).dsP1 = true → (inp t).dsSynced = false) (hexit : Exits s inp x)
    (herase : NoErase (core s inp x) (inp x)) (hset : Settled (core s inp x).vme) :
    Final s inp x := by
  have hdecode : ∀ t, x < t → Untriggered s inp x t →
      (core s inp t).vme.fsm.state = .decodeAddr → (core s inp t).bootEn = false := by
    intro t hxt hno hs
    rcases (exit_run hds hexit herase hset hxt hno).2 with hen | hpend
    · exact hen
    · exact absurd hs hpend.leaving.not_decode
  intro t hxt hno
  refine ⟨hdecode t hxt hno,
    fun k hxk hkt => bootEn_low_run hds hexit herase hset hxk hkt hno, fun hdrives k hxk hkt hs => ?_⟩
  have hlow := bootEn_low_run hds hexit herase hset hxk hkt hno
    (hdecode k hxk (fun j hxj hjk => hno j hxj (Nat.lt_of_lt_of_le hjk hkt)) hs)
  rw [bootEn_of_drives hdrives] at hlow
  exact absurd hlow (by decide)

/-- One write of CSR.EXIT to a bootloader that was enabled by a blank flash. -/
theorem exit_final_once :
    Final (powerUp fun _ => 0xff#8) (hostWrites 240 [(0#31, 0x40#32)]) 246 :=
  exit_final _ _ 246 (hostWrites_dsP1 240 [(0#31, 0x40#32)])
    ⟨by decide, by decide +kernel, by decide +kernel⟩
    ⟨by decide +kernel, by decide +kernel, by decide +kernel⟩
    ⟨by decide +kernel, Or.inl (by decide +kernel)⟩

end Svec.Boot.Exit
