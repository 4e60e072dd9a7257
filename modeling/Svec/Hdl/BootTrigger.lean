/-
  Hdl/BootTrigger.lean --- the trigger sequence detector of `sfpga_bootloader.vhd`.

  Writing 0xde, 0xad, 0xbe, 0xef, 0xca, 0xfe, 0xba, 0xbe to BTRIGR produces a
  pulse on `boot_trig_p1_o`.  The detector sees the register block's write pulse
  `btrigr_wr_o` and the byte `btrigr_o` of the same cycle.
-/
import Svec.Sync.Machine
import Svec.Data.Bits
import Svec.Data.Matcher

set_option autoImplicit false

namespace Svec.Hdl.BootTrigger

open Svec.Data

/-- `t_bootseq_state`. -/
inductive BootseqState where
  | tword0 | tword1 | tword2 | tword3 | tword4 | tword5 | tword6 | tword7 | bootReady
  deriving DecidableEq, Repr, Inhabited

/-- The registers of `p_detect_boot_trigger`. -/
structure Regs where
  bootState : BootseqState
  bootTrigP1Int : Bool
  deriving DecidableEq, Repr, Inhabited

/-- What the detector reads in a cycle. -/
structure In where
  rstN : Bool
  btrigrWr : Bool
  btrigr : Byte
  deriving DecidableEq, Repr, Inhabited

/-- `f_bootseq_step`: advance on the expected byte, go back to the start on another one. -/
def fBootseqStep (st nstate : BootseqState) (matchVal : Byte) (i : In) : BootseqState :=
  if i.btrigrWr then (if i.btrigr = matchVal then nstate else .tword0) else st

/-- `p_detect_boot_trigger`. -/
def pDetectBootTrigger (r : Regs) (i : In) : Regs :=
  if !i.rstN then { bootTrigP1Int := false, bootState := .tword0 }
  else match r.bootState with
  | .tword0 => { bootTrigP1Int := false, bootState := fBootseqStep .tword0 .tword1 0xde#8 i }
  | .tword1 => { r with bootState := fBootseqStep .tword1 .tword2 0xad#8 i }
  | .tword2 => { r with bootState := fBootseqStep .tword2 .tword3 0xbe#8 i }
  | .tword3 => { r with bootState := fBootseqStep .tword3 .tword4 0xef#8 i }
  | .tword4 => { r with bootState := fBootseqStep .tword4 .tword5 0xca#8 i }
  | .tword5 => { r with bootState := fBootseqStep .tword5 .tword6 0xfe#8 i }
  | .tword6 => { r with bootState := fBootseqStep .tword6 .tword7 0xba#8 i }
  | .tword7 => { r with bootState := fBootseqStep .tword7 .bootReady 0xbe#8 i }
  | .bootReady => { bootTrigP1Int := true, bootState := .tword0 }

/-- `boot_trig_p1_o`. -/
def bootTrigP1 (r : Regs) (flashNoBitstreamP1 : Bool) : Bool :=
  r.bootTrigP1Int || flashNoBitstreamP1

/-- The registers after a reset. -/
def reset : Regs := ⟨.tword0, false⟩

/-- The trigger sequence. -/
def triggerSequence : List Byte :=
  [0xde#8, 0xad#8, 0xbe#8, 0xef#8, 0xca#8, 0xfe#8, 0xba#8, 0xbe#8]

/-! ## The detector as a restart matcher -/

/-- How much of the trigger sequence a state stands for. -/
def BootseqState.index : BootseqState → ℕ
  | .tword0 => 0
  | .tword1 => 1
  | .tword2 => 2
  | .tword3 => 3
  | .tword4 => 4
  | .tword5 => 5
  | .tword6 => 6
  | .tword7 => 7
  | .bootReady => 0

theorem index_fBootseqStep {st nstate : BootseqState} {matchVal : Byte} {i : In} :
    (fBootseqStep st nstate matchVal i).index =
      if i.btrigrWr then (if matchVal = i.btrigr then nstate.index else 0) else st.index := by
  unfold fBootseqStep
  by_cases hm : matchVal = i.btrigr
  · subst hm
    cases i.btrigrWr <;> simp
  · rw [if_neg hm, if_neg (Ne.symm hm)]
    cases i.btrigrWr <;> rfl

/-- Outside `BOOT_READY` a write advances the detector as it advances the matcher, and
any other cycle leaves it where it is. -/
theorem index_step {r : Regs} {i : In} (hrst : i.rstN = true) (hs : r.bootState ≠ .bootReady) :
    (pDetectBootTrigger r i).bootState.index =
      if i.btrigrWr then Matcher.advance triggerSequence r.bootState.index i.btrigr
      else r.bootState.index := by
  obtain ⟨st, trig⟩ := r
  cases st
  case bootReady => exact absurd rfl hs
  all_goals
    simp only [pDetectBootTrigger, hrst, index_fBootseqStep, Bool.not_true, Bool.false_eq_true, if_false]
    simp [Matcher.advance, triggerSequence, BootseqState.index]

/-- The detector reaches `BOOT_READY` by the last byte of the sequence only. -/
theorem bootReady_step {r : Regs} {i : In} :
    (pDetectBootTrigger r i).bootState = .bootReady ↔
      i.rstN = true ∧ i.btrigrWr = true ∧ r.bootState = .tword7 ∧ i.btrigr = 0xbe#8 := by
  obtain ⟨st, trig⟩ := r
  cases hr : i.rstN with
  | false => simp [pDetectBootTrigger, hr]
  | true =>
    cases hw : i.btrigrWr with
    | false => cases st <;> simp [pDetectBootTrigger, fBootseqStep, hr, hw]
    | true =>
      cases st <;> simp only [pDetectBootTrigger, fBootseqStep, hr, hw, Bool.not_true,
        Bool.false_eq_true, if_true, if_false] <;> first | (split <;> simp_all) | simp

/-- The pulse is one cycle long: it is high only in the cycle after `BOOT_READY`. -/
theorem trig_step {r : Regs} {i : In} (h : r.bootTrigP1Int = true → r.bootState = .tword0) :
    (pDetectBootTrigger r i).bootTrigP1Int = true ↔
      i.rstN = true ∧ r.bootState = .bootReady := by
  obtain ⟨st, trig⟩ := r
  cases hr : i.rstN with
  | false => simp [pDetectBootTrigger, hr]
  | true => cases st <;> simp_all [pDetectBootTrigger]

/-- While the pulse is high the detector is back at the start. -/
theorem tword0_of_trig {r : Regs} {i : In} (h : r.bootTrigP1Int = true → r.bootState = .tword0)
    (ht : (pDetectBootTrigger r i).bootTrigP1Int = true) :
    (pDetectBootTrigger r i).bootState = .tword0 := by
  obtain ⟨hr, hs⟩ := (trig_step h).mp ht
  simp [pDetectBootTrigger, hr, hs]

end Svec.Hdl.BootTrigger
