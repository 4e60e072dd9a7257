/-
  Boot/Verdict.lean --- how a boot from the flash ends.

  `flash_boot` takes the loader's done flag for a success when the loader reads the
  byte on offer, and never looks at the error flag.  A loader that has given up
  waiting for INIT_B is back in `IDLE`, where it reads whatever is offered, with
  both flags set: the boot counts as a success.  Without that timeout the verdict
  is sound: the other ways to the done flag go through a DONE that was sampled
  high, and a byte from the flash is never marked as the last one, so the timeout
  of `WAIT_DONE` cannot come.
-/
import Svec.Loader.Flags
import Svec.Loader.Handshake
import Svec.Boot.FlashStream

set_option autoImplicit false

namespace Svec.Boot.Verdict

open Svec.Data Svec.Sync Svec.Hdl Svec.Hdl.Bootloader Svec.Loader Svec.Boot.FlashStream
open Svec.Hdl.XilinxLoader (cInitTimeout cMinProgDelay)

variable {P : Parts} {s : Regs P} {inp : ℕ → In}

/-! ## The loader in the core -/

/-- What the loader reads in each cycle. -/
def ldrIn (s : Regs P) (inp : ℕ → In) (t : ℕ) : XilinxLoader.In := xldrIn (core s inp t) (inp t)

/-- The loader of the core is a run of the loader. -/
theorem xldr_run (s : Regs P) (inp : ℕ → In) (t : ℕ) :
    (core s inp t).xldr = loader s.xldr (ldrIn s inp) t := by
  induction t with
  | zero => rfl
  | succ t ih => rw [core_succ, step_xldr, loader_succ, ← ih, ldrIn]

/-- The flash gets the loader by a reset, or it had it before. -/
theorem flash_or_reset {r : Regs P} {i : In} (h : (step r i).bootSource = .flash) :
    i.rstN = false ∨ (i.rstN = true ∧ r.bootSource = .flash) := by
  rw [step_bootSource, pSelectBootMode] at h
  cases hr : i.rstN with
  | false => exact .inl rfl
  | true =>
    rw [hr] at h
    simp only [Bool.not_true, Bool.false_eq_true, if_false] at h
    split at h
    · exact absurd h (by decide)
    · exact .inr ⟨rfl, h⟩

/-- Without a reset it had it all the time. -/
theorem flash_before {p t : ℕ} (hpt : p ≤ t) (hrun : ∀ k, p ≤ k → k < t → (inp k).rstN = true)
    (h : (core s inp t).bootSource = .flash) : (core s inp p).bootSource = .flash := by
  induction hpt with
  | refl => exact h
  | @step t hpt ih =>
    rcases flash_or_reset h with hr | ⟨-, hsrc⟩
    · exact absurd (hr.symm.trans (hrun t hpt (Nat.lt_succ_self t))) (by decide)
    · exact ih (fun k hk hkt => hrun k hk (Nat.lt_succ_of_lt hkt)) hsrc

/-! ## No byte is the last one -/

/-- With the flash as the boot source no entry carries the last flag. -/
structure Unmarked (r : Regs P) : Prop where
  offered : r.flash.xldrEmpty = false → r.flash.xldrDlast = false
  latching : r.xldr.state = .readFifo2 → r.flash.xldrDlast = false
  latched : r.xldr.state = .outputBit ∨ r.xldr.state = .clockEdge → r.xldr.dLast = false
  goesOn : r.xldr.state ≠ .waitDone

/-- The engine clears the last flag with every byte it offers, and touches it nowhere else. -/
theorem dlast_step (f : FlashBoot.Regs) (fi : FlashBoot.In) :
    (FlashBoot.step f fi).xldrDlast = false ∨
      ((FlashBoot.step f fi).xldrDlast = f.xldrDlast ∧
        ((FlashBoot.step f fi).xldrEmpty = false → f.xldrEmpty = false)) := by
  show (FlashBoot.pMain f fi).xldrDlast = false ∨ ((FlashBoot.pMain f fi).xldrDlast = f.xldrDlast ∧
    ((FlashBoot.pMain f fi).xldrEmpty = false → f.xldrEmpty = false))
  unfold FlashBoot.pMain
  split
  · exact .inr ⟨rfl, fun h => nomatch h⟩
  · cases f.state <;> simp only [FlashBoot.fCheckSignature] <;> (repeat' split) <;> simp

/-- `READ_FIFO2` latches the last flag. -/
theorem dLast_latch {r : XilinxLoader.Regs} {i : XilinxLoader.In} (hrun : i.Running)
    (hs : r.state = .readFifo2) : (XilinxLoader.step r i).dLast = i.csrDlast := by
  rw [XilinxLoader.step_dLast]
  unfold XilinxLoader.pMainFsm
  rw [hrun.guard, hs]
  simp only [Bool.false_eq_true, if_false]
  split <;> rfl

/-- No other state touches it. -/
theorem dLast_keep {r : XilinxLoader.Regs} {i : XilinxLoader.In} (hs : r.state ≠ .readFifo2) :
    (XilinxLoader.step r i).dLast = r.dLast := by
  rw [XilinxLoader.step_dLast]
  unfold XilinxLoader.pMainFsm
  split
  · rfl
  · cases hst : r.state <;> simp only <;> (repeat' split) <;> first | rfl | exact absurd hst hs

section Step

variable {r : Regs P} {i : In}

theorem ldr_dlast (h : r.bootSource = .flash) : (xldrIn r i).csrDlast = r.flash.xldrDlast := by
  simp [xldrIn, toXilinxBoot, fromFlashLdr, h]

theorem ldr_empty (h : r.bootSource = .flash) : (xldrIn r i).csrEmpty = r.flash.xldrEmpty := by
  simp [xldrIn, toXilinxBoot, fromFlashLdr, h]

/-- A flag that is clear stays clear until the next byte is offered. -/
theorem dlast_clear (h : r.flash.xldrDlast = false) : (step r i).flash.xldrDlast = false := by
  rw [step_flash]
  rcases dlast_step r.flash (flashIn r i) with hclear | ⟨hkeep, -⟩
  · exact hclear
  · exact hkeep.trans h

theorem unmarked_step (h : Unmarked r) (hsrc : r.bootSource = .flash) : Unmarked (step r i) where
  offered hoff := by
    rcases dlast_step r.flash (flashIn r i) with hclear | ⟨hkeep, hwas⟩
    · exact hclear
    · exact hkeep.trans (h.offered (hwas hoff))
  latching hs := by
    obtain ⟨-, ⟨-, he⟩ | ⟨hs', -⟩⟩ := readFifo2_entry hs
    · exact dlast_clear (h.offered ((ldr_empty hsrc).symm.trans he))
    · exact dlast_clear (h.latching hs')
  latched hs := by
    rw [step_xldr] at hs ⊢
    cases moves r.xldr (xldrIn r i) with
    | hold _ hst _ _ out =>
      rw [out.state] at hs
      rw [dLast_keep (by rcases hs with hs | hs <;> simp [hs])]
      exact h.latched hs
    | entry hrun hst _ _ => rw [dLast_latch hrun hst, ldr_dlast hsrc, h.latching hst]
    | bit _ hst _ _ _ => rw [dLast_keep (by simp [hst]), h.latched (.inl hst)]
    | edge _ hst _ _ _ _ => rw [dLast_keep (by simp [hst]), h.latched (.inr hst)]
    | startupHigh _ _ _ _ out =>
      rw [out.state] at hs
      split at hs <;> simp at hs
    | reset _ out | start _ _ _ _ out | rest _ _ _ out | extend _ _ _ _ out | extended _ _ _ _ out
    | initWait _ _ _ _ _ out | initTimeout _ _ _ _ out | initLow _ _ _ _ out | initLate _ _ _ _ out
    | init2Wait _ _ _ out | initHigh _ _ _ out | fifoEmpty _ _ _ out | fifoRead _ _ _ out
    | gotDone _ _ _ _ out | doneWait _ _ _ _ out | doneSeen _ _ _ _ out | doneTimeout _ _ _ out
    | exitWait _ _ _ out | exit _ _ _ _ out | startupLow _ _ _ _ out =>
      rw [out.state] at hs
      simp at hs
  goesOn := by
    rw [step_xldr]
    cases moves r.xldr (xldrIn r i) with
    | edge _ hst _ _ hlast out =>
      intro hw
      have hl := hlast (out.state.symm.trans hw)
      rw [h.latched (.inr hst)] at hl
      exact absurd hl (by decide)
    | hold _ _ _ _ out =>
      rw [out.state]
      exact h.goesOn
    | doneWait _ hst _ _ _ => exact absurd hst h.goesOn
    | startupHigh _ _ _ _ out =>
      rw [out.state]
      split <;> decide
    | reset _ out | start _ _ _ _ out | rest _ _ _ out | extend _ _ _ _ out | extended _ _ _ _ out
    | initWait _ _ _ _ _ out | initTimeout _ _ _ _ out | initLow _ _ _ _ out | initLate _ _ _ _ out
    | init2Wait _ _ _ out | initHigh _ _ _ out | fifoEmpty _ _ _ out | fifoRead _ _ _ out
    | entry _ _ _ out | bit _ _ _ _ out | gotDone _ _ _ _ out | doneSeen _ _ _ _ out
    | doneTimeout _ _ _ out | exitWait _ _ _ out | exit _ _ _ _ out | startupLow _ _ _ _ out =>
      rw [out.state]
      decide

end Step

/-! ## No error without the timeout of INIT_B -/

/-- In a boot from the flash the timeout of `WAIT_INIT` expires. -/
def InitTimeout (r : Regs P) (i : In) : Prop :=
  r.bootSource = .flash ∧ (xldrIn r i).Running ∧ r.xldr.state = .waitInit ∧
    r.xldr.timeoutCounter = 0#21

/-- What a boot from the flash is like as long as the timeout does not come. -/
structure Sound (r : Regs P) : Prop where
  unmarked : Unmarked r
  noError : r.xldr.csrError = false

section Step

variable {r : Regs P} {i : In}

theorem noError_step (h : Sound r) (hsrc : r.bootSource = .flash) (hno : ¬ InitTimeout r i) :
    (step r i).xldr.csrError = false := by
  rw [step_xldr]
  cases moves r.xldr (xldrIn r i) with
  | initTimeout hrun hs hz _ _ => exact absurd ⟨hsrc, hrun, hs, hz⟩ hno
  | initLate hrun hs hz _ _ => exact absurd ⟨hsrc, hrun, hs, hz⟩ hno
  | doneTimeout _ hs _ _ => exact absurd hs h.unmarked.goesOn
  | reset _ out | start _ _ _ _ out | doneSeen _ _ _ _ out | exitWait _ _ _ out | exit _ _ _ _ out =>
    exact out.error
  | rest _ _ _ out | extend _ _ _ _ out | extended _ _ _ _ out | initWait _ _ _ _ _ out
  | initLow _ _ _ _ out | init2Wait _ _ _ out | initHigh _ _ _ out | fifoEmpty _ _ _ out
  | fifoRead _ _ _ out | hold _ _ _ _ out | entry _ _ _ out | bit _ _ _ _ out | gotDone _ _ _ _ out
  | edge _ _ _ _ _ out | doneWait _ _ _ _ out | startupLow _ _ _ _ out | startupHigh _ _ _ _ out =>
    exact out.error.trans h.noError

theorem sound_reset (hr : i.rstN = false) : Sound (step r i) where
  unmarked :=
    { offered := fun h => absurd h (by simp [FlashBoot.step, FlashBoot.pMain, flashIn, hr])
      latching := fun h => absurd h (by simp [XilinxLoader.pMainFsm, xldrIn, hr])
      latched := fun h => absurd h (by simp [XilinxLoader.pMainFsm, xldrIn, hr])
      goesOn := by simp [XilinxLoader.pMainFsm, xldrIn, hr] }
  noError := by simp [XilinxLoader.pMainFsm, xldrIn, hr]

end Step

theorem sound_run (h0 : (inp 0).rstN = false) (hno : ∀ t, ¬ InitTimeout (core s inp t) (inp t)) {t : ℕ}
    (ht : 0 < t) (hsrc : (core s inp t).bootSource = .flash) : Sound (core s inp t) := by
  induction ht with
  | refl => exact sound_reset (r := s) h0
  | @step t ht ih =>
    rcases flash_or_reset hsrc with hr | ⟨-, hsrc'⟩
    · exact sound_reset (r := core s inp t) hr
    · have h := ih hsrc'
      exact ⟨unmarked_step h.unmarked hsrc', noError_step h hsrc' (hno t)⟩

/-! ## How a boot ends -/

/-- In cycle `t` the engine declares the boot a success. -/
def Succeeds (s : Regs P) (inp : ℕ → In) (t : ℕ) : Prop :=
  (core s inp t).flash.state ≠ .bootDone ∧ (core s inp (t + 1)).flash.state = .bootDone

/-- In cycle `t` the loader ends a boot from the flash with an error. -/
def Fails (s : Regs P) (inp : ℕ → In) (t : ℕ) : Prop :=
  (core s inp t).bootSource = .flash ∧ (core s inp t).xldr.state ≠ .idle ∧
    (core s inp (t + 1)).xldr.state = .idle ∧ (core s inp (t + 1)).xldr.csrError = true

/-- From cycle `t` on no reset ends the boot from the flash, and no trigger. -/
def Undisturbed (s : Regs P) (inp : ℕ → In) (t : ℕ) : Prop :=
  ∀ k, t ≤ k → (inp k).rstN = true ∧ (core s inp k).bootSource = .flash

/-- A success means that DONE was sampled high after the START pulse of the boot, and an error
leads to `NO_BITSTREAM` and its pulse. -/
structure SoundVerdict (s : Regs P) (inp : ℕ → In) : Prop where
  success : ∀ t, Succeeds s inp t → ∃ p u, p < u ∧ u ≤ t ∧ (core s inp p).bootSource = .flash ∧
    (core s inp p).flash.xldrStart = true ∧ (∀ k, p ≤ k → k ≤ t → (inp k).rstN = true) ∧
    (ldrIn s inp u).doneSynced = true
  failure : ∀ t, Fails s inp t → Undisturbed s inp t → ∃ v, t < v ∧
    (core s inp v).flash.state = .noBitstream ∧ (core s inp v).flash.noBitstreamP1 = true

/-- The engine declares a success when the loader reads a byte with its done flag set. -/
theorem succeeds_inv {t : ℕ} (h : Succeeds s inp t) : (inp t).rstN = true ∧
    (core s inp t).bootSource = .flash ∧ (core s inp t).xldr.csrDone = true := by
  obtain ⟨hne, heq⟩ := h
  rw [core_succ, step_flash] at heq
  change (FlashBoot.pMain (core s inp t).flash (flashIn (core s inp t) (inp t))).state = .bootDone at heq
  unfold FlashBoot.pMain at heq
  cases hguard : (!(inp t).rstN || !decide ((core s inp t).bootSource = .flash)) with
  | true => simp [flashIn, hguard] at heq
  | false =>
    obtain ⟨hr, hsrc⟩ : (inp t).rstN = true ∧ (core s inp t).bootSource = .flash := by
      simpa using hguard
    refine ⟨hr, hsrc, ?_⟩
    cases hs : (core s inp t).flash.state with
    | bootDone => exact absurd hs hne
    | loadBsByte =>
      cases hd : (core s inp t).xldr.csrDone with
      | true => rfl
      | false =>
        simp only [flashIn, toFlashLdr, fromXilinxBoot, hr, hsrc, hs, hd] at heq
        revert heq
        simp only [Bool.not_true, decide_true, Bool.or_false, Bool.false_eq_true, if_false]
        (repeat' split) <;> simp
    | _ =>
      exfalso
      revert heq
      simp only [flashIn, hr, hsrc, hs, FlashBoot.fCheckSignature, Bool.not_true, decide_true,
        Bool.or_false, Bool.false_eq_true, if_false]
      (repeat' split) <;> simp

/-- Back in `IDLE` with its done flag set, the loader takes the byte on offer for the verdict. -/
theorem bootDone_of_idle {r : Regs P} {i : In} (hr : i.rstN = true) (hsrc : r.bootSource = .flash)
    (hs : r.flash.state = .loadBsByte) (hoff : r.flash.xldrEmpty = false) (hidle : r.xldr.state = .idle)
    (hdone : r.xldr.csrDone = true) : (step r i).flash.state = .bootDone := by
  rw [step_flash]
  simp [FlashBoot.step, FlashBoot.pMain, flashIn, toFlashLdr, fromXilinxBoot, toXilinxBoot, fromFlashLdr,
    XilinxLoader.csrRd, hr, hsrc, hs, hoff, hidle, hdone]

/-- The timeout sends the loader to `IDLE` with its done flag set. -/
theorem idle_of_initTimeout {r : Regs P} {i : In} (h : InitTimeout r i)
    (hb : (xldrIn r i).initBSynced = true) :
    (step r i).xldr.state = .idle ∧ (step r i).xldr.csrDone = true := by
  obtain ⟨-, hrun, hs, hz⟩ := h
  rw [step_xldr]
  simp [XilinxLoader.pMainFsm, hrun.guard, hs, hz, hb]

/-- A cycle in which the loader does not clear its flags is not a reset. -/
theorem rstN_of_not_clears {r : XilinxLoader.Regs} {i : XilinxLoader.In} (h : ¬ Clears r i) :
    i.rstN = true := by
  cases hr : i.rstN with
  | true => rfl
  | false => exact absurd (Or.inl (by rw [hr]; rfl)) h

/-- Booting from the flash reports a success only for a configured FPGA, and every error, in
each run in which the timeout of INIT_B does not expire in a boot from the flash. -/
theorem verdict_without_timeout (P : Parts) (s : Regs P) (inp : ℕ → In) (h0 : (inp 0).rstN = false)
    (hno : ∀ t, ¬ InitTimeout (core s inp t) (inp t)) : SoundVerdict s inp where
  success t h := by
    obtain ⟨hr, hsrc, hdone⟩ := succeeds_inv h
    have ht : 0 < t := by
      rcases Nat.eq_zero_or_pos t with rfl | ht
      · rw [h0] at hr
        exact absurd hr (by decide)
      · exact ht
    have herr := (sound_run h0 hno ht hsrc).noError
    rw [xldr_run] at hdone herr
    -- The flags are evidence of a cycle `u` that saw DONE, and that is not in `IDLE` ...
    have hevidence : Flags.Evidence s.xldr (ldrIn s inp) t := Flags.evidence_run h0 ht
    obtain ⟨u, hut, ⟨hs, -, hhigh⟩, hclear⟩ := hevidence.success hdone herr
    have hu : 1 ≤ u := by
      rcases Nat.eq_zero_or_pos u with rfl | hu
      · have hr0 : (ldrIn s inp 0).rstN = true := rstN_of_not_clears (hclear 0 (Nat.le_refl 0) hut)
        rw [show (ldrIn s inp 0).rstN = (inp 0).rstN from rfl, h0] at hr0
        exact absurd hr0 (by decide)
      · exact hu
    -- ... so there was a START before it, and no reset since.
    have hreset : (loader s.xldr (ldrIn s inp) 1).state = .idle := idle_of_reset h0
    rcases Handshake.phase_run hreset hu with hidle | ⟨p, -, hpu, ⟨-, -, hstart⟩, -, hbusy⟩
    · rcases hs with hs | hs <;> rw [hidle] at hs <;> exact absurd hs (by decide)
    have hrun : ∀ k, p ≤ k → k ≤ t → (inp k).rstN = true := by
      intro k hpk hkt
      rcases Nat.lt_or_ge k u with hku | huk
      · cases hrk : (inp k).rstN with
        | true => rfl
        | false => exact absurd (idle_of_reset hrk) (hbusy (k + 1) (by omega) (by omega))
      · rcases Nat.lt_or_eq_of_le hkt with hkt | rfl
        · exact rstN_of_not_clears (hclear k huk hkt)
        · exact hr
    have hsrcp := flash_before (Nat.le_of_lt (Nat.lt_trans hpu hut))
      (fun k hpk hkt => hrun k hpk (Nat.le_of_lt hkt)) hsrc
    refine ⟨p, u, hpu, Nat.le_of_lt hut, hsrcp, ?_, hrun, hhigh⟩
    simpa [ldrIn, xldrIn, toXilinxBoot, fromFlashLdr, hsrcp] using hstart
  failure t h _ := by
    obtain ⟨hsrc, hbusy, -, herr⟩ := h
    rcases Nat.eq_zero_or_pos t with rfl | ht
    · have hclear := (sound_reset (r := s) h0).noError
      rw [show step s (inp 0) = core s inp 1 from rfl, herr] at hclear
      exact absurd hclear (by decide)
    · have hclear := noError_step (sound_run h0 hno ht hsrc) hsrc (hno t)
      rw [← core_succ, herr] at hclear
      exact absurd hclear (by decide)

/-! ## Two boots from a flash with a signature -/

/-- A card that is reset in cycle 0 and then left alone, with the two configuration pins of its
application FPGA. -/
def pinsIn (initB done : ℕ → Bool) (t : ℕ) : In :=
  ⟨decide (0 < t), default, initB t, done t, false, false⟩

section Pins

variable {initB done : ℕ → Bool}

theorem pins_flashRun (content : BitVec 24 → Byte) (s : Regs (standIns content)) :
    FlashRun content s (pinsIn initB done) fun t => (core s (pinsIn initB done) t).spi.link where
  reset := rfl
  running _ ht := decide_eq_true ht
  silent _ _ := rfl
  flash := SpiFlash.master_answers fun _ => rfl

variable {content : BitVec 24 → Byte} {s : Regs (standIns content)}

theorem pins_quiet {t : ℕ} (ht : 0 < t) : Quiet (core s (pinsIn initB done) t) := by
  obtain ⟨k, rfl⟩ : ∃ k, t = k + 1 := ⟨t - 1, by omega⟩
  obtain ⟨_, h, -⟩ := booting_run (pins_flashRun content s) k
  exact h.quiet

theorem pins_running {t : ℕ} (ht : 0 < t) : (ldrIn s (pinsIn initB done) t).Running := by
  have hsrc : (core s (pinsIn initB done) t).bootSource = .flash := (pins_quiet ht).source
  refine ⟨decide_eq_true ht, ?_⟩
  simp [ldrIn, xldrIn, toXilinxBoot, fromFlashLdr, hsrc]

theorem pins_offers {t : ℕ} (ht : 0 < t) (hs : (core s (pinsIn initB done) t).flash.state = .loadBsByte) :
    (core s (pinsIn initB done) t).flash.xldrEmpty = false := by
  obtain ⟨k, rfl⟩ : ∃ k, t = k + 1 := ⟨t - 1, by omega⟩
  obtain ⟨_, h, -⟩ := booting_run (pins_flashRun content s) k
  rw [h.empty, hs]
  rfl

/-- The engine has started the loader and offers a byte. -/
def Offers (f : FlashBoot.Regs) : Prop := f.state = .loadBsByte ∧ f.xldrStart = false

instance (f : FlashBoot.Regs) : Decidable (Offers f) := inferInstanceAs (Decidable (_ ∧ _))

/-- It does so for as long as the loader is busy. -/
theorem offers_step {t : ℕ} (ht : 0 < t) (hs : Offers (core s (pinsIn initB done) t).flash)
    (hidle : (core s (pinsIn initB done) t).xldr.state ≠ .idle)
    (hread : (core s (pinsIn initB done) t).xldr.state ≠ .readFifo) :
    Offers (core s (pinsIn initB done) (t + 1)).flash := by
  have hsrc : (core s (pinsIn initB done) t).bootSource = .flash := (pins_quiet ht).source
  have hr : (pinsIn initB done t).rstN = true := decide_eq_true ht
  rw [core_succ, step_flash]
  simp [Offers, FlashBoot.step, FlashBoot.pMain, flashIn, toFlashLdr, fromXilinxBoot, XilinxLoader.csrRd,
    hsrc, hr, hs.1, hs.2, hidle, hread]

/-- The loader starts in cycle 195, and the first byte waits in cycle 400. -/
structure Begins (s : Regs (standIns content)) (initB done : ℕ → Bool) : Prop where
  state : (core s (pinsIn initB done) 196).xldr.state = .extendProg
  counter : (core s (pinsIn initB done) 196).xldr.timeoutCounter = cMinProgDelay
  offers : Offers (core s (pinsIn initB done) 400).flash

theorem Begins.pulse (h : Begins s initB done) {j : ℕ} (hj : j ≤ 1000) :
    (core s (pinsIn initB done) (196 + j)).xldr.state = .extendProg ∧
      (core s (pinsIn initB done) (196 + j)).xldr.timeoutCounter = BitVec.ofNat 21 (1000 - j) :=
  XilinxLoader.extendProg_dwell (r := fun t => (core s (pinsIn initB done) t).xldr) (n := 196)
    (fun _ => rfl) (fun _ ht => pins_running (by omega)) h.state h.counter hj

/-- The end of the PROG_B pulse. -/
theorem waitInit_of_pulse {t : ℕ} (ht : 0 < t) (hs : (core s (pinsIn initB done) t).xldr.state = .extendProg)
    (hc : (core s (pinsIn initB done) t).xldr.timeoutCounter = 0#21) :
    (core s (pinsIn initB done) (t + 1)).xldr.state = .waitInit ∧
      (core s (pinsIn initB done) (t + 1)).xldr.timeoutCounter = cInitTimeout := by
  have hrun : (ldrIn s (pinsIn initB done) t).Running := pins_running ht
  rw [ldrIn] at hrun
  rw [core_succ, step_xldr]
  simp [XilinxLoader.pMainFsm, hrun.guard, hs, hc]

theorem Begins.waitInit (h : Begins s initB done) :
    (core s (pinsIn initB done) 1197).xldr.state = .waitInit ∧
      (core s (pinsIn initB done) 1197).xldr.timeoutCounter = cInitTimeout := by
  obtain ⟨hs, hc⟩ := h.pulse (Nat.le_refl 1000)
  exact waitInit_of_pulse (by decide) hs hc

/-- The byte of cycle 400 is still on offer while the loader waits for INIT_B. -/
theorem Begins.offers_until (h : Begins s initB done) {n : ℕ} (hn : 400 ≤ n)
    (hwait : ∀ k, 1197 ≤ k → k < n → (core s (pinsIn initB done) k).xldr.state = .waitInit) :
    Offers (core s (pinsIn initB done) n).flash := by
  induction hn with
  | refl => exact h.offers
  | @step k hk ih =>
    have hk400 : 400 ≤ k := hk
    have hbusy : (core s (pinsIn initB done) k).xldr.state = .extendProg ∨
        (core s (pinsIn initB done) k).xldr.state = .waitInit := by
      rcases Nat.lt_or_ge k 1197 with hlt | hge
      · obtain ⟨j, rfl⟩ : ∃ j, k = 196 + j := ⟨k - 196, by omega⟩
        exact .inl (h.pulse (by omega)).1
      · exact .inr (hwait k hge (Nat.lt_succ_self k))
    refine offers_step (by omega) (ih fun j hj hjk => hwait j hj (Nat.lt_succ_of_lt hjk)) ?_ ?_ <;>
      rcases hbusy with hb | hb <;> rw [hb] <;> decide

end Pins

/-- INIT_B is stuck high, and DONE low. -/
def stuckIn : ℕ → In := pinsIn (fun _ => true) (fun _ => false)

theorem stuck_begins : Begins (powerUp signedFlash) (fun _ => true) (fun _ => false) where
  state := by decide +kernel
  counter := by decide +kernel
  offers := by decide +kernel

theorem stuck_init_high {t : ℕ} (ht : 3 ≤ t) : (ldrIn (powerUp signedFlash) stuckIn t).initBSynced = true := by
  obtain ⟨u, rfl⟩ : ∃ u, t = u + 3 := ⟨t - 3, by omega⟩
  rfl

theorem stuck_done_low (u : ℕ) : (ldrIn (powerUp signedFlash) stuckIn u).doneSynced = false := by
  match u with
  | 0 => rfl
  | 1 => rfl
  | 2 => rfl
  | u + 3 => rfl

/-- The timeout sends the loader to `IDLE` with both flags set, and the byte on offer is read. -/
theorem stuck_succeeds : Succeeds (powerUp signedFlash) stuckIn 201198 := by
  have hwait : ∀ j, j ≤ 200000 →
      (core (powerUp signedFlash) stuckIn (1197 + j)).xldr.state = .waitInit ∧
        (core (powerUp signedFlash) stuckIn (1197 + j)).xldr.timeoutCounter =
          BitVec.ofNat 21 (200000 - j) := by
    intro j hj
    obtain ⟨hs, hc⟩ := stuck_begins.waitInit
    change (core (powerUp signedFlash) stuckIn 1197).xldr.state = _ at hs
    change (core (powerUp signedFlash) stuckIn 1197).xldr.timeoutCounter = _ at hc
    rw [xldr_run] at hs hc ⊢
    exact Flags.waitInit_dwell hs hc (fun t ht _ => ⟨pins_running (by omega), stuck_init_high (by omega)⟩) hj
  have hoffer : Offers (core (powerUp signedFlash) stuckIn 201198).flash := by
    refine stuck_begins.offers_until (by decide) fun k hk hk' => ?_
    obtain ⟨j, rfl⟩ : ∃ j, k = 1197 + j := ⟨k - 1197, by omega⟩
    exact (hwait j (by omega)).1
  obtain ⟨hs, hz⟩ := hwait 200000 (Nat.le_refl _)
  have hrun : (ldrIn (powerUp signedFlash) stuckIn 201197).Running := pins_running (by decide)
  have hhigh := stuck_init_high (t := 201197) (by decide)
  have hq : Quiet (core (powerUp signedFlash) stuckIn 201197) := pins_quiet (by decide)
  obtain ⟨hidle, hdone⟩ := idle_of_initTimeout ⟨hq.source, hrun, hs, hz⟩ hhigh
  have hboot := pins_offers (s := powerUp signedFlash) (t := 201198) (by decide) hoffer.1
  exact ⟨by rw [hoffer.1]; decide,
    bootDone_of_idle rfl (pins_quiet (by decide)).source hoffer.1 hboot hidle hdone⟩

/-- A boot without an application FPGA ends in `BOOT_DONE`. -/
theorem timeout_verdict_unsound : ¬ ∀ (P : Parts) (s : Regs P) (inp : ℕ → In), (inp 0).rstN = false →
    SoundVerdict s inp := by
  intro hall
  obtain ⟨-, u, -, -, -, -, -, hhigh⟩ :=
    (hall _ (powerUp signedFlash) stuckIn rfl).success _ stuck_succeeds
  rw [stuck_done_low] at hhigh
  exact absurd hhigh (by decide)

/-- INIT_B answers, and DONE comes with the first bit. -/
def answeredIn : ℕ → In := pinsIn (fun t => decide (1300 ≤ t)) (fun t => decide (1300 ≤ t))

theorem answered_begins : Begins (powerUp signedFlash) (fun t => decide (1300 ≤ t))
    (fun t => decide (1300 ≤ t)) where
  state := by decide +kernel
  counter := by decide +kernel
  offers := by decide +kernel

theorem answered_init_low {t : ℕ} (ht : t ≤ 1301) :
    (ldrIn (powerUp signedFlash) answeredIn t).initBSynced = false := by
  match t with
  | 0 => rfl
  | 1 => rfl
  | 2 => rfl
  | u + 3 => exact decide_eq_false (by omega)

/-- INIT_B low is answered in the first cycle of `WAIT_INIT`. -/
theorem answered_counter {t : ℕ} (ht : 0 < t) (ht' : t ≤ 1301)
    (hs : (core (powerUp signedFlash) answeredIn t).xldr.state = .waitInit) :
    (core (powerUp signedFlash) answeredIn t).xldr.timeoutCounter = cInitTimeout := by
  obtain ⟨k, rfl⟩ : ∃ k, t = k + 1 := ⟨t - 1, by omega⟩
  have hlow := answered_init_low (t := k) (by omega)
  cases moves (core (powerUp signedFlash) answeredIn k).xldr (ldrIn (powerUp signedFlash) answeredIn k) with
  | extended _ _ _ hc _ => exact hc
  | initWait _ _ _ hb _ _ =>
    rw [hlow] at hb
    exact absurd hb (by decide)
  | hold _ hst _ _ out =>
    have hst' := out.state.symm.trans hs
    rcases hst with h | h | h | h | h <;> exact absurd (h.symm.trans hst') (by decide)
  | edge _ _ _ hst _ out =>
    have hst' := out.state.symm.trans hs
    rcases hst with rfl | rfl | rfl <;> exact absurd hst' (by decide)
  | startupHigh _ _ _ _ out =>
    have hst' := out.state.symm.trans hs
    split at hst' <;> exact absurd hst' (by decide)
  | reset _ out | start _ _ _ _ out | rest _ _ _ out | extend _ _ _ _ out | initTimeout _ _ _ _ out
  | initLow _ _ _ _ out | initLate _ _ _ _ out | init2Wait _ _ _ out | initHigh _ _ _ out
  | fifoEmpty _ _ _ out | fifoRead _ _ _ out | entry _ _ _ out | bit _ _ _ _ out | gotDone _ _ _ _ out
  | doneWait _ _ _ _ out | doneSeen _ _ _ _ out | doneTimeout _ _ _ out | exitWait _ _ _ out
  | exit _ _ _ _ out | startupLow _ _ _ _ out => exact absurd (out.state.symm.trans hs) (by decide)

/-- The engine has started the loader, and the loader is past the answer. -/
structure Served (r : Regs P) : Prop where
  engine : r.flash.state = .fetchBsByte ∨ r.flash.state = .loadBsByte ∨ r.flash.state = .noBitstream ∨
    r.flash.state = .bootDone
  noStart : r.flash.xldrStart = false
  loader : r.xldr.state ≠ .extendProg ∧ r.xldr.state ≠ .waitInit

theorem served_step {r : Regs P} {i : In} (h : Served r) (hr : i.rstN = true) (hsrc : r.bootSource = .flash) :
    Served (step r i) where
  engine := by
    rw [step_flash]
    change (FlashBoot.pMain r.flash (flashIn r i)).state = _ ∨ (FlashBoot.pMain r.flash (flashIn r i)).state = _ ∨
      (FlashBoot.pMain r.flash (flashIn r i)).state = _ ∨ (FlashBoot.pMain r.flash (flashIn r i)).state = _
    unfold FlashBoot.pMain
    simp only [flashIn, hr, hsrc, Bool.not_true, decide_true, Bool.or_false, Bool.false_eq_true, if_false]
    rcases h.engine with hs | hs | hs | hs <;> simp only [hs] <;> (repeat' split) <;> simp
  noStart := by
    rw [step_flash]
    change (FlashBoot.pMain r.flash (flashIn r i)).xldrStart = false
    unfold FlashBoot.pMain
    simp only [flashIn, hr, hsrc, Bool.not_true, decide_true, Bool.or_false, Bool.false_eq_true, if_false]
    rcases h.engine with hs | hs | hs | hs <;> simp only [hs] <;> (repeat' split) <;> exact h.noStart
  loader := by
    rw [step_xldr]
    cases moves r.xldr (xldrIn r i) with
    | start _ _ hstart _ _ =>
      have hno : (xldrIn r i).csrStart = false := by
        simp [xldrIn, toXilinxBoot, fromFlashLdr, hsrc, h.noStart]
      exact absurd (hno.symm.trans hstart) (by decide)
    | extend _ hs _ _ _ => exact absurd hs h.loader.1
    | extended _ hs _ _ _ => exact absurd hs h.loader.1
    | initWait _ hs _ _ _ _ => exact absurd hs h.loader.2
    | hold _ _ _ _ out =>
      rw [out.state]
      exact h.loader
    | edge _ _ _ hst _ out =>
      rw [out.state]
      rcases hst with rfl | rfl | rfl <;> decide
    | startupHigh _ _ _ _ out =>
      rw [out.state]
      split <;> decide
    | reset _ out | rest _ _ _ out | initTimeout _ _ _ _ out | initLow _ _ _ _ out | initLate _ _ _ _ out
    | init2Wait _ _ _ out | initHigh _ _ _ out | fifoEmpty _ _ _ out | fifoRead _ _ _ out
    | entry _ _ _ out | bit _ _ _ _ out | gotDone _ _ _ _ out | doneWait _ _ _ _ out
    | doneSeen _ _ _ _ out | doneTimeout _ _ _ out | exitWait _ _ _ out | exit _ _ _ _ out
    | startupLow _ _ _ _ out =>
      rw [out.state]
      decide

theorem answered_served : Served (core (powerUp signedFlash) answeredIn 1198) := by
  have hs : (core (powerUp signedFlash) answeredIn 1197).xldr.state = .waitInit :=
    answered_begins.waitInit.1
  have hrun : (ldrIn (powerUp signedFlash) answeredIn 1197).Running := pins_running (by decide)
  have hlow := answered_init_low (t := 1197) (by decide)
  have hoffer : Offers (core (powerUp signedFlash) answeredIn 1198).flash := by
    refine answered_begins.offers_until (by decide) fun k hk hk' => ?_
    obtain rfl : k = 1197 := by omega
    exact hs
  have hstate : (core (powerUp signedFlash) answeredIn 1198).xldr.state = .waitInit2 := by
    cases moves (core (powerUp signedFlash) answeredIn 1197).xldr (ldrIn (powerUp signedFlash) answeredIn 1197) with
    | reset h _ => exact absurd h hrun.not_reset
    | initWait _ _ _ hb _ _ => exact absurd (hlow.symm.trans hb) (by decide)
    | initTimeout _ _ _ hb _ => exact absurd (hlow.symm.trans hb) (by decide)
    | initLow _ _ _ _ out => exact out.state
    | initLate _ _ _ _ out => exact out.state
    | _ _ hs' => simp [hs] at hs'
  exact ⟨.inr (.inl hoffer.1), hoffer.2, by rw [hstate]; decide⟩

theorem answered_no_timeout (t : ℕ) :
    ¬ InitTimeout (core (powerUp signedFlash) answeredIn t) (answeredIn t) := by
  rintro ⟨-, hrun, hs, hz⟩
  have ht : 0 < t := by
    rcases Nat.eq_zero_or_pos t with rfl | ht
    · exact absurd hrun.1 (by decide)
    · exact ht
  rcases Nat.lt_or_ge t 1198 with hlt | hge
  · rw [answered_counter ht (by omega) hs] at hz
    exact absurd hz (by decide)
  · suffices hserved : Served (core (powerUp signedFlash) answeredIn t) from hserved.loader.2 hs
    clear ht hrun hs hz
    induction hge with
    | refl => exact answered_served
    | @step k hk ih =>
      have hk' : 0 < k := Nat.lt_of_lt_of_le (by decide) hk
      exact served_step ih (decide_eq_true hk') (pins_quiet hk').source

/-- The verdict of a boot in which the application FPGA answers. -/
theorem verdict_without_timeout_answered : SoundVerdict (powerUp signedFlash) answeredIn :=
  verdict_without_timeout _ _ answeredIn rfl answered_no_timeout

end Svec.Boot.Verdict
