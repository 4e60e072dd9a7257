/-
  Boot/CsrAddress.lean --- which writes reach the CSR.

  An address passes four stages on its way to a register: the range check of
  `DECODE_ADDR`, whose end is part of the range, the subtraction of its start, the
  adapter, which turns bytes into words, and the three address bits of the
  register block.  The range holds nine words and the block eight, so the ninth
  comes out at the CSR again.

  What the block does is attributed to the write that `EXEC_CYCLE` put on the bus
  last: the strobe may stay on after a reset, and be taken more than once.
-/
import Svec.Boot.Exit
import Svec.Boot.Isolation
import Svec.Vme.Ownership

set_option autoImplicit false

namespace Svec.Boot.CsrAddress

open Svec.Data Svec.Sync Svec.Hdl Svec.Hdl.SfpgaTop Svec.Boot.Isolation

/-! ## The register block -/

section Block

variable {P : Bootloader.Parts}

/-- The register block takes a strobe. -/
structure Taken (r : Bootloader.Regs P) (i : Bootloader.In) : Prop where
  rstN : i.rstN = true
  free : r.wb.ackInProgress = false
  strobe : (i.wb.cyc && i.wb.stb) = true

/-- It is a write of the CSR. -/
structure CsrWrite (r : Bootloader.Regs P) (i : Bootloader.In) : Prop extends Taken r i where
  we : i.wb.we = true
  adr : regAdr (Bootloader.wbIn P i) = 0#3

/-- The fields of the CSR that the host writes. -/
structure Csr where
  start : Bool
  swrst : Bool
  exit : Bool
  msbf : Bool
  clkdiv : BitVec 6
  deriving DecidableEq

def csr (w : XloaderWb.Regs) : Csr :=
  ⟨w.csrStartInt, w.csrSwrstInt, w.csrExitInt, w.csrMsbfInt, w.csrClkdivInt⟩

/-- The fields as a written word has them. -/
def csrOf (w : Word) : Csr :=
  ⟨w.getLsbD 0, w.getLsbD 5, w.getLsbD 6, w.getLsbD 4, w.extractLsb' 8 6⟩

/-- Nothing is set in it that was not set before, and the settings stay. -/
def Csr.Kept (c c' : Csr) : Prop :=
  (c'.start = true → c.start = true) ∧ (c'.swrst = true → c.swrst = true) ∧
    (c'.exit = true → c.exit = true) ∧ c'.msbf = c.msbf ∧ c'.clkdiv = c.clkdiv

theorem Csr.Kept.of_eq {c c' : Csr} (h : c' = c) : c.Kept c' := h ▸ ⟨id, id, id, rfl, rfl⟩

theorem csr_writeReg (w : XloaderWb.Regs) (a : BitVec 3) (d : Word) :
    csr (XloaderWb.writeReg w a d) = if a = 0#3 then csrOf d else csr w := by
  unfold XloaderWb.writeReg
  (repeat' split) <;> rfl

/-- A write that is taken. -/
theorem csr_pRegisterBank {w : XloaderWb.Regs} {bus : WbMasterOut} {f : XloaderWb.FifoFlags}
    {regsI : XloaderWb.RegsIn} (hfree : w.ackInProgress = false) (hstrobe : (bus.cyc && bus.stb) = true)
    (hwe : bus.we = true) : csr (XloaderWb.pRegisterBank w bus f regsI) =
      if regAdr bus = 0#3 then csrOf bus.dat else csr w := by
  unfold XloaderWb.pRegisterBank
  simp only
  rw [if_neg (hfree ▸ Bool.false_ne_true), if_pos hstrobe, if_pos hwe]
  exact csr_writeReg _ _ _

/-- Everything else that the block does with the bus. -/
theorem kept_pRegisterBank {w : XloaderWb.Regs} {bus : WbMasterOut} {f : XloaderWb.FifoFlags}
    {regsI : XloaderWb.RegsIn}
    (h : w.ackInProgress = true ∨ (bus.cyc && bus.stb) = false ∨ bus.we = false) :
    (csr w).Kept (csr (XloaderWb.pRegisterBank w bus f regsI)) := by
  unfold XloaderWb.pRegisterBank
  simp only
  split
  · split <;> simp [csr, Csr.Kept]
  · rename_i hfree
    split
    · rename_i hstrobe
      rcases h with h | h | h
      · exact absurd h hfree
      · exact absurd (h.symm.trans hstrobe) Bool.false_ne_true
      · rw [if_neg (h ▸ Bool.false_ne_true)]
        exact Csr.Kept.of_eq rfl
    · exact Csr.Kept.of_eq rfl

variable {r : Bootloader.Regs P} {i j : Bootloader.In}

theorem csr_step (hr : i.rstN = true) : csr (Bootloader.step r i).wb =
    csr (XloaderWb.pRegisterBank r.wb (Bootloader.wbIn P i) (Bootloader.fifoFlags r)
      (Bootloader.regsOut r i)) := by
  rw [Bootloader.step_wb, XloaderWb.step, hr]
  rfl

theorem csr_of_write (h : CsrWrite r i) : csr (Bootloader.step r i).wb = csrOf i.wb.dat := by
  rw [csr_step h.rstN, csr_pRegisterBank h.free (by simpa [Bootloader.wbIn] using h.strobe)
    (by simpa [Bootloader.wbIn] using h.we), if_pos h.adr]
  simp [Bootloader.wbIn]

/-- In every other cycle the CSR is kept. -/
theorem csr_kept (hr : i.rstN = true) (h : ¬ CsrWrite r i) :
    (csr r.wb).Kept (csr (Bootloader.step r i).wb) := by
  rw [csr_step hr]
  cases hfree : r.wb.ackInProgress with
  | true => exact kept_pRegisterBank (Or.inl hfree)
  | false =>
    cases hstrobe : (i.wb.cyc && i.wb.stb) with
    | false => exact kept_pRegisterBank (Or.inr (Or.inl (by simpa [Bootloader.wbIn] using hstrobe)))
    | true =>
      cases hwe : i.wb.we with
      | false => exact kept_pRegisterBank (Or.inr (Or.inr (by simpa [Bootloader.wbIn] using hwe)))
      | true =>
        have hadr : regAdr (Bootloader.wbIn P i) ≠ 0#3 := fun hadr =>
          h ⟨⟨hr, hfree, hstrobe⟩, hwe, hadr⟩
        rw [csr_pRegisterBank hfree (by simpa [Bootloader.wbIn] using hstrobe)
          (by simpa [Bootloader.wbIn] using hwe), if_neg hadr]
        exact Csr.Kept.of_eq rfl

/-- What a cycle does with the CSR: it brings about a pulse, which comes out two cycles later, or
changes a setting. -/
def Effect (w w' w'' : XloaderWb.Regs) (rstN : Bool) : Prop :=
  (w''.csrStart = true ∨ w''.csrSwrst = true ∨ w''.csrExit = true) ∨
    rstN = true ∧ (w'.csrMsbfInt ≠ w.csrMsbfInt ∨ w'.csrClkdivInt ≠ w.csrClkdivInt)

/-- A pulse comes of a bit that was not set in the cycle before. -/
theorem set_of_pulse
    (h : (Bootloader.step (Bootloader.step r i) j).wb.csrStart = true ∨
      (Bootloader.step (Bootloader.step r i) j).wb.csrSwrst = true ∨
      (Bootloader.step (Bootloader.step r i) j).wb.csrExit = true) :
    i.rstN = true ∧ ¬ (csr r.wb).Kept (csr (Bootloader.step r i).wb) := by
  rw [Bootloader.step_wb (Bootloader.step r i) j, XloaderWb.step] at h
  cases hq : j.rstN with
  | false => simp [hq, XloaderWb.Regs.reset] at h
  | true =>
    simp only [hq, Bool.not_true, Bool.false_eq_true, if_false, XloaderWb.pMonostable] at h
    cases hr : i.rstN with
    | false =>
      rw [Bootloader.step_wb, XloaderWb.step, hr] at h
      simp [XloaderWb.Regs.reset] at h
    | true =>
      have hdly : (Bootloader.step r i).wb.csrStartDly0 = r.wb.csrStartInt ∧
          (Bootloader.step r i).wb.csrSwrstDly0 = r.wb.csrSwrstInt ∧
          (Bootloader.step r i).wb.csrExitDly0 = r.wb.csrExitInt := by
        rw [Bootloader.step_wb, XloaderWb.step, hr]
        exact ⟨rfl, rfl, rfl⟩
      rw [hdly.1, hdly.2.1, hdly.2.2] at h
      refine ⟨rfl, ?_⟩
      rintro ⟨hstart, hswrst, hexit, -, -⟩
      simp only [Bool.and_eq_true, Bool.not_eq_true'] at h
      rcases h with ⟨hset, hold⟩ | ⟨hset, hold⟩ | ⟨hset, hold⟩
      · exact absurd (hold.symm.trans (hstart hset)) Bool.false_ne_true
      · exact absurd (hold.symm.trans (hswrst hset)) Bool.false_ne_true
      · exact absurd (hold.symm.trans (hexit hset)) Bool.false_ne_true

theorem write_of_effect
    (h : Effect r.wb (Bootloader.step r i).wb (Bootloader.step (Bootloader.step r i) j).wb i.rstN) :
    CsrWrite r i := by
  by_contra hno
  rcases h with hpulse | ⟨hr, hset⟩
  · obtain ⟨hr, hnot⟩ := set_of_pulse hpulse
    exact hnot (csr_kept hr hno)
  · obtain ⟨-, -, -, hmsbf, hclkdiv⟩ := csr_kept hr hno
    rcases hset with h | h
    · exact h hmsbf
    · exact h hclkdiv

end Block

/-! ## The four stages of an address -/

/-- The offset in the card's CR/CSR space that the address lines show. -/
def busOffset (i : In) : BitVec 21 :=
  (⟨i.vmeAddr, i.vmeAm, i.vmeGa, i.vmeLwordN⟩ : MiniVme.AddrPhase).offset

/-- What `EXEC_CYCLE` makes of an offset. -/
def busAdr (o : BitVec 21) : BitVec 32 := 0#11 ++ (o - vmeGenerics.gUserCsrStart)

/-- Of the offsets in the range the first and the last come out at register 0. -/
theorem csr_offset {a : MiniVme.AddrPhase} (hin : vmeGenerics.inRange a = true)
    (h : (busAdr a.offset >>> 2).extractLsb' 0 3 = 0#3) :
    a.offset = 0x70000#21 ∨ a.offset = 0x70020#21 := by
  rw [MiniVme.Generics.inRange, Bool.and_eq_true] at hin
  have hlo : 0x70000#21 ≤ a.offset := of_decide_eq_true hin.1
  have hhi : a.offset ≤ 0x70020#21 := of_decide_eq_true hin.2
  have hfour : a.offset.toNat % 4 = 0 := by
    rw [MiniVme.AddrPhase.offset, BitVec.toNat_append, Nat.shiftLeft_eq]
    simp
  have hbase : (a.offset - 0x70000#21).toNat = a.offset.toNat - 0x70000 := BitVec.toNat_sub_of_le hlo
  have hreg : (a.offset - 0x70000#21).toNat / 4 % 8 = 0 := by
    have hnat := congrArg BitVec.toNat h
    rw [busAdr, show vmeGenerics.gUserCsrStart = 0x70000#21 from rfl] at hnat
    generalize a.offset - 0x70000#21 = o at hnat ⊢
    have hzero : (0#11 ++ o : BitVec 32).toNat = o.toNat := by
      rw [BitVec.toNat_append]
      simp
    simpa [BitVec.extractLsb'_toNat, Nat.shiftRight_eq_div_pow, hzero] using hnat
  have hlo' : 0x70000 ≤ a.offset.toNat := BitVec.le_def.mp hlo
  have hhi' : a.offset.toNat ≤ 0x70020 := BitVec.le_def.mp hhi
  have hends : a.offset.toNat = 0x70000 ∨ a.offset.toNat = 0x70020 := by omega
  exact hends.imp (fun he => BitVec.eq_of_toNat_eq he) fun he => BitVec.eq_of_toNat_eq he

/-! ## Runs -/

section Run

variable {P : Parts}

/-- The core executes a VME cycle: the latched address and data go to the bus. -/
def Executes (r : Regs P) (i : In) : Prop := i.rstN = true ∧ r.vme.fsm.state = .execCycle

/-- In cycle `e` a VME write cycle is executed whose AS fell in cycle `a`. -/
structure Writes (s : Regs P) (inp : ℕ → In) (a e : ℕ) : Prop where
  began : (inp a).asP1 = true
  before : a < e
  current : ∀ k, a < k → k < e → (inp k).asP1 = false
  exec : Executes (core s inp e) (inp e)
  write : (core s inp e).vme.fsm.isWrite = true

/-- What happens on the bus in cycle `t` is due to the VME cycle that was executed in cycle `e`:
it was the last one. -/
structure Due (s : Regs P) (inp : ℕ → In) (e t : ℕ) : Prop where
  exec : Executes (core s inp e) (inp e)
  before : e < t
  last : ∀ k, e < k → k < t → ¬ Executes (core s inp k) (inp k)

/-- What cycle `t` does with the CSR. -/
def EffectAt (s : Regs P) (inp : ℕ → In) (t : ℕ) : Prop :=
  Effect (core s inp t).boot.wb (core s inp (t + 1)).boot.wb (core s inp (t + 2)).boot.wb (inp t).rstN

variable {s : Regs P} {inp : ℕ → In}

theorem write_of_effectAt {t : ℕ} (h : EffectAt s inp t) :
    CsrWrite (core s inp t).boot (bootIn (core s inp t) (inp t)) :=
  write_of_effect (j := bootIn (core s inp (t + 1)) (inp (t + 1))) h

/-! ## Which VME cycle the bus shows -/

/-- The bus after `EXEC_CYCLE`. -/
theorem masterO_exec {t : ℕ} (h : Executes (core s inp t) (inp t)) :
    (core s inp (t + 1)).vme.fsm.masterO =
      { adr := busAdr (core s inp t).vme.addr.latched.offset
        dat := (core s inp t).vme.data.latched.data
        cyc := true, sel := 0xf#4, stb := true, we := (core s inp t).vme.fsm.isWrite } := by
  obtain ⟨hr, hs⟩ := h
  rw [core_succ, step_vme]
  show (MiniVme.pFsm vmeGenerics _ _).masterO = _
  rw [MiniVme.pFsm, show (vmeIn (core s inp t) (inp t)).rstN = true from hr]
  simp only [Bool.not_true, Bool.false_eq_true, if_false, hs]
  rfl

/-- In every other cycle the bus keeps what it shows, but for the strobe, which may end. -/
theorem masterO_hold {t : ℕ} (h : ¬ Executes (core s inp t) (inp t)) :
    (core s inp (t + 1)).vme.fsm.masterO.adr = (core s inp t).vme.fsm.masterO.adr ∧
      (core s inp (t + 1)).vme.fsm.masterO.we = (core s inp t).vme.fsm.masterO.we ∧
      (core s inp (t + 1)).vme.fsm.masterO.dat = (core s inp t).vme.fsm.masterO.dat ∧
      ((core s inp (t + 1)).vme.fsm.masterO.stb = true → (core s inp t).vme.fsm.masterO.stb = true) := by
  have hfsm : (core s inp (t + 1)).vme.fsm =
      MiniVme.pFsm vmeGenerics (core s inp t).vme (vmeIn (core s inp t) (inp t)) := rfl
  rw [hfsm, MiniVme.pFsm]
  cases hr : (inp t).rstN with
  | false => simp [vmeIn, hr]
  | true =>
    rw [show (vmeIn (core s inp t) (inp t)).rstN = true from hr]
    simp only [Bool.not_true, Bool.false_eq_true, if_false]
    cases hs : (core s inp t).vme.fsm.state
    case execCycle => exact absurd ⟨hr, hs⟩ h
    all_goals
      simp only
      (repeat' split) <;> simp

/-- The bus shows the VME cycle it is due to. -/
theorem Due.masterO {e t : ℕ} (h : Due s inp e t) :
    (core s inp t).vme.fsm.masterO.adr = busAdr (core s inp e).vme.addr.latched.offset ∧
      (core s inp t).vme.fsm.masterO.we = (core s inp e).vme.fsm.isWrite ∧
      (core s inp t).vme.fsm.masterO.dat = (core s inp e).vme.data.latched.data := by
  obtain ⟨hexec, het, hlast⟩ := h
  refine invariant_since (I := fun _ (r : Regs P) =>
    r.vme.fsm.masterO.adr = busAdr (core s inp e).vme.addr.latched.offset ∧
      r.vme.fsm.masterO.we = (core s inp e).vme.fsm.isWrite ∧
      r.vme.fsm.masterO.dat = (core s inp e).vme.data.latched.data) ?_ het
    fun k hek hkt ⟨hadr, hwe, hdat⟩ => ?_
  · have hbus := masterO_exec hexec
    rw [core_succ] at hbus
    exact hbus ▸ ⟨rfl, rfl, rfl⟩
  · obtain ⟨hadr', hwe', hdat', -⟩ := masterO_hold (hlast k hek hkt)
    exact ⟨hadr'.trans hadr, hwe'.trans hwe, hdat'.trans hdat⟩

/-- A strobe is due to some VME cycle. -/
theorem due_of_stb (hvme : s.vme = default) {t : ℕ} (h : (core s inp t).vme.fsm.masterO.stb = true) :
    ∃ e, Due s inp e t := by
  induction t with
  | zero =>
    rw [show core s inp 0 = s from rfl, hvme] at h
    exact absurd h Bool.false_ne_true
  | succ t ih =>
    by_cases hexec : Executes (core s inp t) (inp t)
    · exact ⟨t, hexec, Nat.lt_succ_self t, fun k hk hk' => by omega⟩
    · obtain ⟨e, he, het, hlast⟩ := ih ((masterO_hold hexec).2.2.2 h)
      refine ⟨e, he, Nat.lt_succ_of_lt het, fun k hk hk' => ?_⟩
      rcases Nat.lt_succ_iff_lt_or_eq.mp hk' with hlt | rfl
      · exact hlast k hk hlt
      · exact hexec

theorem Due.unique {e e' t : ℕ} (h : Due s inp e t) (h' : Due s inp e' t) : e = e' := by
  rcases Nat.lt_trichotomy e e' with hlt | heq | hgt
  · exact absurd h'.exec (h.last e' hlt h'.before)
  · exact heq
  · exact absurd h.exec (h'.last e hgt h.before)

/-! ## The address of a VME cycle -/

/-- What the core reads in the run. -/
def vmeInputs (s : Regs P) (inp : ℕ → In) (t : ℕ) : MiniVme.In := vmeIn (core s inp t) (inp t)

theorem vme_run (hvme : s.vme = default) (t : ℕ) :
    (core s inp t).vme = Vme.Ownership.core vmeGenerics (vmeInputs s inp) t := by
  induction t with
  | zero => exact hvme
  | succ t ih =>
    rw [core_succ, step_vme, Vme.Ownership.core_succ, ← ih]
    rfl

/-- What is latched is what the address lines showed when AS fell last. -/
theorem fell_of_valid (hvme : s.vme = default) {t : ℕ} (h : (core s inp t).vme.addr.valid = true) :
    ∃ a, (inp a).asP1 = true ∧ a < t ∧ (∀ k, a < k → k < t → (inp k).asP1 = false) ∧
      (core s inp t).vme.addr.latched.offset = busOffset (inp a) := by
  induction t with
  | zero =>
    rw [show core s inp 0 = s from rfl, hvme] at h
    exact absurd h Bool.false_ne_true
  | succ t ih =>
    have hvalid := h
    rw [core_succ, step_vme, MiniVme.step_addr_valid, Bool.and_eq_true] at hvalid
    obtain ⟨hr, hwhy⟩ := hvalid
    have hlatch : (core s inp (t + 1)).vme.addr =
        MiniVme.pLatchAddr (core s inp t).vme.addr (vmeIn (core s inp t) (inp t)) := rfl
    cases hp : (inp t).asP1 with
    | true =>
      refine ⟨t, hp, Nat.lt_succ_self t, fun k hk hk' => by omega, ?_⟩
      rw [hlatch, MiniVme.pLatchAddr, hr, show (vmeIn (core s inp t) (inp t)).asP1 = true from hp]
      rfl
    | false =>
      rw [show (vmeIn (core s inp t) (inp t)).asP1 = false from hp, Bool.false_or, Bool.and_eq_true] at hwhy
      obtain ⟨a, hfell, hat, hnone, hoff⟩ := ih hwhy.2
      refine ⟨a, hfell, Nat.lt_succ_of_lt hat, fun k hk hk' => ?_, ?_⟩
      · rcases Nat.lt_succ_iff_lt_or_eq.mp hk' with hlt | rfl
        · exact hnone k hk hlt
        · exact hp
      · rw [← hoff, vme_run hvme, vme_run hvme, Vme.Ownership.addr_latched_hold hp]

/-- A VME cycle that is executed is in the range, and its AS fell last. -/
theorem fell_of_executes (hvme : s.vme = default)
    (has : Vme.Ownership.FallingPulse (fun t => (inp t).asSynced) fun t => (inp t).asP1) {e : ℕ}
    (h : Executes (core s inp e) (inp e)) :
    vmeGenerics.inRange (core s inp e).vme.addr.latched = true ∧
      ∃ a, (inp a).asP1 = true ∧ a < e ∧ (∀ k, a < k → k < e → (inp k).asP1 = false) ∧
        (core s inp e).vme.addr.latched.offset = busOffset (inp a) := by
  obtain ⟨v, rfl⟩ : ∃ v, e = v + 1 := by
    cases e with
    | zero =>
      have hs := h.2
      rw [show core s inp 0 = s from rfl, hvme] at hs
      cases hs
    | succ v => exact ⟨v, rfl⟩
  obtain ⟨-, -, hvalid, -, hin⟩ := MiniVme.execCycle_entry (r := (core s inp v).vme)
    (i := vmeIn (core s inp v) (inp v)) h.2
  have hpulse : Vme.Ownership.FallingPulse (fun t => (vmeInputs s inp t).asSynced)
      fun t => (vmeInputs s inp t).asP1 := has
  have hp : (inp v).asP1 = false :=
    Vme.Ownership.no_asP1_of_valid hpulse (vme_run hvme v ▸ hvalid)
  have hhold : (core s inp (v + 1)).vme.addr.latched = (core s inp v).vme.addr.latched := by
    rw [vme_run hvme, vme_run hvme, Vme.Ownership.addr_latched_hold hp]
  obtain ⟨a, hfell, hav, hnone, hoff⟩ := fell_of_valid hvme hvalid
  refine ⟨hhold ▸ hin, a, hfell, Nat.lt_succ_of_lt hav, fun k hk hk' => ?_, hhold ▸ hoff⟩
  rcases Nat.lt_succ_iff_lt_or_eq.mp hk' with hlt | rfl
  · exact hnone k hk hlt
  · exact hp

theorem Writes.offset (hvme : s.vme = default)
    (has : Vme.Ownership.FallingPulse (fun t => (inp t).asSynced) fun t => (inp t).asP1) {a e : ℕ}
    (h : Writes s inp a e) : (core s inp e).vme.addr.latched.offset = busOffset (inp a) := by
  obtain ⟨-, a', hfell, hae, hnone, hoff⟩ := fell_of_executes hvme has h.exec
  rcases Nat.lt_trichotomy a a' with hlt | rfl | hgt
  · exact absurd ((h.current a' hlt hae).symm.trans hfell) Bool.false_ne_true
  · exact hoff
  · exact absurd ((hnone a hgt h.before).symm.trans h.began) Bool.false_ne_true

/-- A write of the CSR comes from a VME write cycle at one of the two ends of the range. -/
theorem writes_of_csrWrite (hvme : s.vme = default)
    (has : Vme.Ownership.FallingPulse (fun t => (inp t).asSynced) fun t => (inp t).asP1) {t : ℕ}
    (h : CsrWrite (core s inp t).boot (bootIn (core s inp t) (inp t))) :
    ∃ a e, Writes s inp a e ∧ Due s inp e t ∧
      (busOffset (inp a) = 0x70000#21 ∨ busOffset (inp a) = 0x70020#21) := by
  obtain ⟨⟨-, -, hstrobe⟩, hwe, hadr⟩ := h
  obtain ⟨e, hdue⟩ := due_of_stb hvme (Bool.and_eq_true _ _ ▸ hstrobe).2
  obtain ⟨hadr', hwe', -⟩ := hdue.masterO
  obtain ⟨hin, a, hfell, hae, hnone, hoff⟩ := fell_of_executes hvme has hdue.exec
  refine ⟨a, e, ⟨hfell, hae, hnone, hdue.exec, hwe' ▸ hwe⟩, hdue, hoff ▸ csr_offset hin ?_⟩
  rw [← hadr', ← P.boot.adapter.masterO_adr]
  exact hadr

end Run

/-- One access by the host to a card that was enabled by a blank flash. -/
theorem hostWrites_as (w : BitVec 31 × Word) :
    Vme.Ownership.FallingPulse (fun t => (Exit.hostWrites 240 [w] t).asSynced)
      fun t => (Exit.hostWrites 240 [w] t).asP1 := by
  have hidle : ∀ t, t < 240 ∨ 252 ≤ t → Exit.hostWrites 240 [w] t = In.idle (!(t = 0)) := by
    intro t ht
    unfold Exit.hostWrites
    rcases ht with hlt | hge
    · rw [if_neg (by omega)]
    · rw [if_pos (by omega), List.getElem?_eq_none (by simp; omega)]
  have hbusy : ∀ p, p < 12 → Exit.hostWrites 240 [w] (240 + p) = Exit.writeAccess w.1 w.2 p := by
    intro p hp
    unfold Exit.hostWrites
    rw [if_pos (by omega), show (240 + p - 240) / 12 = 0 by omega,
      show (240 + p - 240) % 12 = p by omega]
    rfl
  intro t ht
  simp only at ht ⊢
  by_cases hin : t < 240 ∨ 252 ≤ t
  · rw [hidle t hin] at ht
    exact absurd ht Bool.false_ne_true
  · obtain ⟨p, rfl⟩ : ∃ p, t = 240 + p := ⟨t - 240, by omega⟩
    rw [hbusy p (by omega)] at ht
    obtain rfl : p = 0 := of_decide_eq_true ht
    refine ⟨by rw [hbusy 0 (by omega)]; rfl, fun u hu => ?_⟩
    rw [hidle u (by omega)]
    rfl

/-- A write of the word after the register block leaves the loader. -/
theorem ninth_word_exits :
    ¬ ∀ (P : Parts) (s : Regs P) (inp : ℕ → In), s.vme = default →
      Vme.Ownership.FallingPulse (fun t => (inp t).asSynced) (fun t => (inp t).asP1) →
      ∀ a e t, Writes s inp a e → Due s inp e t → (core s inp e).bootEn = true →
        busOffset (inp a) ≠ 0x70000#21 → ¬ EffectAt s inp t := by
  intro hall
  have hexec : Executes (core (powerUp fun _ => 0xff#8) (Exit.hostWrites 240 [(8#31, 0x40#32)]) 243)
      (Exit.hostWrites 240 [(8#31, 0x40#32)] 243) := ⟨by decide +kernel, by decide +kernel⟩
  have hsame : ∀ k, k < 243 → 240 < k → (Exit.hostWrites 240 [(8#31, 0x40#32)] k).asP1 = false := by
    decide +kernel
  have hquiet := hall (standIns fun _ => 0xff#8) (powerUp fun _ => 0xff#8)
    (Exit.hostWrites 240 [(8#31, 0x40#32)]) rfl (hostWrites_as _) 240 243 244
    ⟨by decide +kernel, by decide, fun k hk hk' => hsame k hk' hk, hexec, by decide +kernel⟩
    ⟨hexec, by decide, fun k hk hk' => by omega⟩ (by decide +kernel) (by decide +kernel)
  exact hquiet (Or.inl (Or.inr (Or.inr (by decide +kernel))))

/-- The CSR is written by the VME write cycles at its own offset and at the end of the range, and
by no others; at the end of the range the data go to the CSR as they do at its own offset. -/
theorem only_ends_reach_csr {P : Parts} (s : Regs P) (inp : ℕ → In) (hvme : s.vme = default)
    (has : Vme.Ownership.FallingPulse (fun t => (inp t).asSynced) fun t => (inp t).asP1) :
    (∀ a e t, Writes s inp a e → Due s inp e t → busOffset (inp a) ≠ 0x70000#21 →
      busOffset (inp a) ≠ 0x70020#21 → ¬ EffectAt s inp t) ∧
    (∀ t, EffectAt s inp t → ∃ a e, Writes s inp a e ∧ Due s inp e t ∧
      (busOffset (inp a) = 0x70000#21 ∨ busOffset (inp a) = 0x70020#21)) ∧
    (∀ a e t, Writes s inp a e → Due s inp e t → busOffset (inp a) = 0x70020#21 →
      Taken (core s inp t).boot (bootIn (core s inp t) (inp t)) →
      csr (core s inp (t + 1)).boot.wb = csrOf (core s inp e).vme.data.latched.data) := by
  refine ⟨fun a e t hw hdue hfirst hlast heffect => ?_,
    fun t heffect => writes_of_csrWrite hvme has (write_of_effectAt heffect),
    fun a e t hw hdue hend htaken => ?_⟩
  · obtain ⟨a', e', hw', hdue', hends⟩ := writes_of_csrWrite hvme has (write_of_effectAt heffect)
    obtain rfl := hdue.unique hdue'
    rw [← hw'.offset hvme has, hw.offset hvme has] at hends
    rcases hends with h | h
    · exact hfirst h
    · exact hlast h
  · obtain ⟨hadr, hwe, hdat⟩ := hdue.masterO
    have hreg : regAdr (Bootloader.wbIn P.boot (bootIn (core s inp t) (inp t))) = 0#3 := by
      rw [regAdr, Bootloader.wbIn, P.boot.adapter.masterO_adr]
      show ((core s inp t).vme.fsm.masterO.adr >>> 2).extractLsb' 0 3 = 0#3
      rw [hadr, hw.offset hvme has, hend]
      rfl
    have hwrite : CsrWrite (core s inp t).boot (bootIn (core s inp t) (inp t)) :=
      ⟨htaken, hwe.trans hw.write, hreg⟩
    rw [core_succ, step_boot, csr_of_write hwrite, ← hdat]
    rfl

/-- A write of the trigger register leaves the CSR alone. -/
theorem only_ends_reach_csr_trigger :
    ¬ EffectAt (powerUp fun _ => 0xff#8) (Exit.hostWrites 240 [(1#31, 0x40#32)]) 244 := by
  have hexec : Executes (core (powerUp fun _ => 0xff#8) (Exit.hostWrites 240 [(1#31, 0x40#32)]) 243)
      (Exit.hostWrites 240 [(1#31, 0x40#32)] 243) := ⟨by decide +kernel, by decide +kernel⟩
  have hsame : ∀ k, k < 243 → 240 < k → (Exit.hostWrites 240 [(1#31, 0x40#32)] k).asP1 = false := by
    decide +kernel
  exact (only_ends_reach_csr (powerUp fun _ => 0xff#8) (Exit.hostWrites 240 [(1#31, 0x40#32)]) rfl
    (hostWrites_as _)).1 240 243 244
    ⟨by decide +kernel, by decide, fun k hk hk' => hsame k hk' hk, hexec, by decide +kernel⟩
    ⟨hexec, by decide, fun k hk hk' => by omega⟩ (by decide +kernel) (by decide +kernel)

end Svec.Boot.CsrAddress
