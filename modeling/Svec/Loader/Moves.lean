/-
  Loader/Moves.lean --- what one cycle of the loader does to its outputs.

  `xilinx_loader` assigns its flags, PROG_B and CCLK in eleven states and in some of
  them twice.  `Moves` lists what can happen in a cycle, one constructor for each
  way through the process, with the registers that the other parties see
  afterwards; every invariant of the loader is a case analysis of it.
-/
import Svec.Sync.Machine
import Svec.Hdl.XilinxLoader

set_option autoImplicit false

namespace Svec.Loader

open Svec.Data Svec.Sync Svec.Hdl
open Svec.Hdl.XilinxLoader (Regs In State pMainFsm cMinProgDelay cInitTimeout cDoneTimeout
  cStartupCycles)

/-- The state and the registered outputs after a cycle. -/
structure Drives (r' : Regs) (st : State) (done error programB cclk : Bool) : Prop where
  state : r'.state = st
  done : r'.csrDone = done
  error : r'.csrError = error
  programB : r'.xlxProgramB = programB
  cclk : r'.xlxCclk = cclk

/-- One cycle of the loader. -/
inductive Moves (r : Regs) (i : In) (r' : Regs) : Prop where
  | reset (h : (!i.rstN || i.csrSwrst) = true) (out : Drives r' .idle false false true false)
  | start (hrun : i.Running) (hs : r.state = .idle) (h : i.csrStart = true)
      (hc : r'.timeoutCounter = cMinProgDelay)
      (out : Drives r' .extendProg false false false r.xlxCclk)
  | rest (hrun : i.Running) (hs : r.state = .idle) (h : i.csrStart = false)
      (out : Drives r' .idle r.csrDone r.csrError true false)
  | extend (hrun : i.Running) (hs : r.state = .extendProg) (h : r.timeoutCounter ≠ 0#21)
      (hc : r'.timeoutCounter = r.timeoutCounter - 1#21)
      (out : Drives r' .extendProg r.csrDone r.csrError r.xlxProgramB r.xlxCclk)
  | extended (hrun : i.Running) (hs : r.state = .extendProg) (h : r.timeoutCounter = 0#21)
      (hc : r'.timeoutCounter = cInitTimeout)
      (out : Drives r' .waitInit r.csrDone r.csrError r.xlxProgramB r.xlxCclk)
  | initWait (hrun : i.Running) (hs : r.state = .waitInit) (h : r.timeoutCounter ≠ 0#21)
      (hb : i.initBSynced = true) (hc : r'.timeoutCounter = r.timeoutCounter - 1#21)
      (out : Drives r' .waitInit r.csrDone r.csrError r.xlxProgramB r.xlxCclk)
  | initTimeout (hrun : i.Running) (hs : r.state = .waitInit) (h : r.timeoutCounter = 0#21)
      (hb : i.initBSynced = true) (out : Drives r' .idle true true r.xlxProgramB r.xlxCclk)
  | initLow (hrun : i.Running) (hs : r.state = .waitInit) (h : r.timeoutCounter ≠ 0#21)
      (hb : i.initBSynced = false) (out : Drives r' .waitInit2 r.csrDone r.csrError true r.xlxCclk)
  /-- The timeout expires in the very cycle of the answer: the flags are set, and the
  loader goes on. -/
  | initLate (hrun : i.Running) (hs : r.state = .waitInit) (h : r.timeoutCounter = 0#21)
      (hb : i.initBSynced = false) (out : Drives r' .waitInit2 true true true r.xlxCclk)
  | init2Wait (hrun : i.Running) (hs : r.state = .waitInit2) (hb : i.initBSynced = false)
      (out : Drives r' .waitInit2 r.csrDone r.csrError r.xlxProgramB r.xlxCclk)
  | initHigh (hrun : i.Running) (hs : r.state = .waitInit2) (hb : i.initBSynced = true)
      (out : Drives r' .readFifo r.csrDone r.csrError r.xlxProgramB r.xlxCclk)
  | fifoEmpty (hrun : i.Running) (hs : r.state = .readFifo) (h : i.csrEmpty = true)
      (out : Drives r' .readFifo r.csrDone r.csrError r.xlxProgramB false)
  | fifoRead (hrun : i.Running) (hs : r.state = .readFifo) (h : i.csrEmpty = false)
      (out : Drives r' .readFifo2 r.csrDone r.csrError r.xlxProgramB false)
  /-- The states that wait for a tick. -/
  | hold (hrun : i.Running) (hs : r.state = .readFifo2 ∨ r.state = .outputBit ∨
        r.state = .clockEdge ∨ r.state = .startupCclk0 ∨ r.state = .startupCclk1)
      (ht : r.tick = false) (hn : r'.startupCount = r.startupCount)
      (out : Drives r' r.state r.csrDone r.csrError r.xlxProgramB r.xlxCclk)
  | entry (hrun : i.Running) (hs : r.state = .readFifo2) (ht : r.tick = true)
      (out : Drives r' .outputBit r.csrDone r.csrError r.xlxProgramB r.xlxCclk)
  | bit (hrun : i.Running) (hs : r.state = .outputBit) (ht : r.tick = true)
      (hd : i.doneSynced = false)
      (out : Drives r' .clockEdge r.csrDone r.csrError r.xlxProgramB false)
  | gotDone (hrun : i.Running) (hs : r.state = .outputBit) (ht : r.tick = true)
      (hd : i.doneSynced = true)
      (out : Drives r' .gotDone r.csrDone r.csrError r.xlxProgramB false)
  | edge (hrun : i.Running) (hs : r.state = .clockEdge) (ht : r.tick = true) {st : State}
      (hst : st = .waitDone ∨ st = .readFifo ∨ st = .outputBit)
      (hlast : st = .waitDone → r.dLast = true)
      (out : Drives r' st r.csrDone r.csrError r.xlxProgramB true)
  | doneWait (hrun : i.Running) (hs : r.state = .waitDone) (h : r.timeoutCounter ≠ 0#21)
      (hd : i.doneSynced = false)
      (out : Drives r' .waitDone r.csrDone r.csrError r.xlxProgramB r.xlxCclk)
  | doneSeen (hrun : i.Running) (hs : r.state = .waitDone) (h : r.timeoutCounter ≠ 0#21)
      (hd : i.doneSynced = true) (out : Drives r' .idle true false r.xlxProgramB r.xlxCclk)
  | doneTimeout (hrun : i.Running) (hs : r.state = .waitDone) (h : r.timeoutCounter = 0#21)
      (out : Drives r' .idle true true r.xlxProgramB r.xlxCclk)
  | exitWait (hrun : i.Running) (hs : r.state = .gotDone) (h : i.csrStartup = false)
      (out : Drives r' .gotDone true false r.xlxProgramB r.xlxCclk)
  | exit (hrun : i.Running) (hs : r.state = .gotDone) (h : i.csrStartup = true)
      (hn : r'.startupCount = 0#21)
      (out : Drives r' .startupCclk0 true false r.xlxProgramB r.xlxCclk)
  | startupLow (hrun : i.Running) (hs : r.state = .startupCclk0) (ht : r.tick = true)
      (hn : r'.startupCount = r.startupCount)
      (out : Drives r' .startupCclk1 r.csrDone r.csrError r.xlxProgramB false)
  | startupHigh (hrun : i.Running) (hs : r.state = .startupCclk1) (ht : r.tick = true)
      (hn : r'.startupCount = r.startupCount + 1#21)
      (out : Drives r' (if r.startupCount = cStartupCycles then .idle else .startupCclk0)
        r.csrDone r.csrError r.xlxProgramB true)

/-- Every cycle is one of the moves. -/
theorem moves (r : Regs) (i : In) : Moves r i (XilinxLoader.step r i) := by
  cases hr : (!i.rstN || i.csrSwrst) with
  | true =>
    have hstep : pMainFsm r i = _ := if_pos hr
    exact .reset hr ⟨by simp [hstep], by simp [hstep], by simp [hstep], by simp [hstep], by simp [hstep]⟩
  | false =>
    have hrun : i.Running := by simpa [XilinxLoader.In.Running] using hr
    unfold XilinxLoader.step pMainFsm
    rw [hr]
    cases hs : r.state with
    | idle =>
      cases h : i.csrStart with
      | true => exact .start hrun hs h rfl ⟨rfl, rfl, rfl, rfl, rfl⟩
      | false => exact .rest hrun hs h ⟨rfl, rfl, rfl, rfl, rfl⟩
    | extendProg =>
      by_cases h : r.timeoutCounter = 0#21
      · simp only [if_pos h]
        exact .extended hrun hs h rfl ⟨rfl, rfl, rfl, rfl, rfl⟩
      · simp only [if_neg h]
        exact .extend hrun hs h rfl ⟨rfl, rfl, rfl, rfl, rfl⟩
    | waitInit =>
      by_cases h : r.timeoutCounter = 0#21 <;> cases hb : i.initBSynced <;> simp only [h]
      · exact .initLate hrun hs h hb ⟨rfl, rfl, rfl, rfl, rfl⟩
      · exact .initTimeout hrun hs h hb ⟨rfl, rfl, rfl, rfl, rfl⟩
      · exact .initLow hrun hs h hb ⟨rfl, rfl, rfl, rfl, rfl⟩
      · exact .initWait hrun hs h hb rfl ⟨rfl, rfl, rfl, rfl, rfl⟩
    | waitInit2 =>
      cases hb : i.initBSynced with
      | true => exact .initHigh hrun hs hb ⟨rfl, rfl, rfl, rfl, rfl⟩
      | false => exact .init2Wait hrun hs hb ⟨hs, rfl, rfl, rfl, rfl⟩
    | readFifo =>
      cases h : i.csrEmpty with
      | true => exact .fifoEmpty hrun hs h ⟨rfl, rfl, rfl, rfl, rfl⟩
      | false => exact .fifoRead hrun hs h ⟨rfl, rfl, rfl, rfl, rfl⟩
    | readFifo2 =>
      cases ht : r.tick with
      | true => exact .entry hrun hs ht ⟨rfl, rfl, rfl, rfl, rfl⟩
      | false => exact .hold hrun (.inl hs) ht rfl ⟨hs.symm, rfl, rfl, rfl, rfl⟩
    | outputBit =>
      cases ht : r.tick with
      | false => exact .hold hrun (.inr (.inl hs)) ht rfl ⟨rfl, rfl, rfl, rfl, rfl⟩
      | true =>
        cases hd : i.doneSynced with
        | true => exact .gotDone hrun hs ht hd ⟨rfl, rfl, rfl, rfl, rfl⟩
        | false => exact .bit hrun hs ht hd ⟨rfl, rfl, rfl, rfl, rfl⟩
    | clockEdge =>
      cases ht : r.tick with
      | false => exact .hold hrun (.inr (.inr (.inl hs))) ht rfl ⟨rfl, rfl, rfl, rfl, rfl⟩
      | true =>
        by_cases hb : r.bitCounter = 0#5
        swap
        · simp only [if_neg hb]
          exact .edge hrun hs ht (.inr (.inr rfl)) (fun h => nomatch h) ⟨rfl, rfl, rfl, rfl, rfl⟩
        simp only [if_pos hb]
        cases hl : r.dLast with
        | true => exact .edge hrun hs ht (.inl rfl) (fun _ => hl) ⟨rfl, rfl, rfl, rfl, rfl⟩
        | false =>
          exact .edge hrun hs ht (.inr (.inl rfl)) (fun h => nomatch h) ⟨rfl, rfl, rfl, rfl, rfl⟩
    | waitDone =>
      by_cases h : r.timeoutCounter = 0#21
      · simp only [if_pos h]
        exact .doneTimeout hrun hs h (by cases i.doneSynced <;> exact ⟨rfl, rfl, rfl, rfl, rfl⟩)
      simp only [if_neg h]
      cases hd : i.doneSynced with
      | true => exact .doneSeen hrun hs h hd ⟨rfl, rfl, rfl, rfl, rfl⟩
      | false => exact .doneWait hrun hs h hd ⟨hs, rfl, rfl, rfl, rfl⟩
    | gotDone =>
      cases h : i.csrStartup with
      | true => exact .exit hrun hs h rfl ⟨rfl, rfl, rfl, rfl, rfl⟩
      | false => exact .exitWait hrun hs h ⟨rfl, rfl, rfl, rfl, rfl⟩
    | startupCclk0 =>
      cases ht : r.tick with
      | true => exact .startupLow hrun hs ht rfl ⟨rfl, rfl, rfl, rfl, rfl⟩
      | false =>
        exact .hold hrun (.inr (.inr (.inr (.inl hs)))) ht rfl ⟨hs.symm, rfl, rfl, rfl, rfl⟩
    | startupCclk1 =>
      cases ht : r.tick with
      | true => exact .startupHigh hrun hs ht rfl ⟨rfl, rfl, rfl, rfl, rfl⟩
      | false =>
        exact .hold hrun (.inr (.inr (.inr (.inr hs)))) ht rfl ⟨rfl, rfl, rfl, rfl, rfl⟩

/-! ## What the moves tell -/

section Moves

variable {r : Regs} {i : In}

/-- A cycle with the reset asserted. -/
theorem reset_drives (h : i.rstN = false) :
    Drives (XilinxLoader.step r i) .idle false false true false := by
  cases moves r i with
  | reset _ out => exact out
  | _ hrun => exact absurd (hrun.1.symm.trans h) (by decide)

/-- `READ_FIFO2` is entered from `READ_FIFO` by a FIFO read, and left by the next tick. -/
theorem readFifo2_entry (h : (XilinxLoader.step r i).state = .readFifo2) :
    i.Running ∧ ((r.state = .readFifo ∧ i.csrEmpty = false) ∨
      (r.state = .readFifo2 ∧ r.tick = false)) := by
  rcases moves r i
  case fifoRead hrun hs he _ => exact ⟨hrun, .inl ⟨hs, he⟩⟩
  case hold hrun _ ht _ out => exact ⟨hrun, .inr ⟨out.state.symm.trans h, ht⟩⟩
  case edge hst _ out =>
    rw [out.state] at h
    rcases hst with rfl | rfl | rfl <;> exact absurd h (by decide)
  case startupHigh out =>
    rw [out.state] at h
    split at h <;> exact absurd h (by decide)
  all_goals
    rename_i out
    exact absurd (out.state.symm.trans h) (by decide)

/-- CCLK rises only where the source drives it high. -/
theorem cclk_rises_only (h0 : r.xlxCclk = false) (h1 : (XilinxLoader.step r i).xlxCclk = true) :
    i.Running ∧ r.tick = true ∧ (r.state = .clockEdge ∨ r.state = .startupCclk1) := by
  rcases moves r i
  case edge hrun hs ht _ _ _ _ => exact ⟨hrun, ht, .inl hs⟩
  case startupHigh hrun hs ht _ _ => exact ⟨hrun, ht, .inr hs⟩
  -- Everywhere else CCLK is driven low or stays as it is.
  all_goals
    rename_i out
    rw [out.cclk] at h1
    simp [h0] at h1

end Moves

/-! ## Runs -/

/-- The loader at every cycle, from the registers `s`. -/
def loader (s : Regs) (inp : ℕ → In) : ℕ → Regs := run XilinxLoader.step s inp

theorem loader_succ (s : Regs) (inp : ℕ → In) (t : ℕ) :
    loader s inp (t + 1) = XilinxLoader.step (loader s inp t) (inp t) := rfl

theorem moves_run (s : Regs) (inp : ℕ → In) (t : ℕ) :
    Moves (loader s inp t) (inp t) (loader s inp (t + 1)) := moves _ _

theorem idle_of_reset {s : Regs} {inp : ℕ → In} {t : ℕ} (h : (inp t).rstN = false) :
    (loader s inp (t + 1)).state = .idle := (reset_drives h).state

/-- A cycle that ends what the flags tell about: a reset, SWRST, or a START in `IDLE`. -/
def Clears (r : Regs) (i : In) : Prop :=
  (!i.rstN || i.csrSwrst) = true ∨ (r.state = .idle ∧ i.csrStart = true)

theorem not_clears {r : Regs} {i : In} (hrun : i.Running) (h : r.state ≠ .idle) : ¬ Clears r i := by
  rintro (hr | ⟨hs, -⟩)
  · exact hrun.not_reset hr
  · exact h hs

/-- Something happened in a cycle before `t`, and nothing was cleared since. -/
def Since (s : Regs) (inp : ℕ → In) (E : ℕ → Prop) (t : ℕ) : Prop :=
  ∃ u, u < t ∧ E u ∧ ∀ k, u ≤ k → k < t → ¬ Clears (loader s inp k) (inp k)

section Since

variable {s : Regs} {inp : ℕ → In} {E : ℕ → Prop} {t : ℕ}

theorem Since.now (h : E t) (hc : ¬ Clears (loader s inp t) (inp t)) : Since s inp E (t + 1) := by
  refine ⟨t, Nat.lt_succ_self t, h, fun k hk hk' => ?_⟩
  obtain rfl : k = t := by omega
  exact hc

theorem Since.later (h : Since s inp E t) (hc : ¬ Clears (loader s inp t) (inp t)) :
    Since s inp E (t + 1) := by
  obtain ⟨u, hut, hE, hno⟩ := h
  refine ⟨u, Nat.lt_succ_of_lt hut, hE, fun k hk hk' => ?_⟩
  rcases Nat.lt_succ_iff_lt_or_eq.mp hk' with hk' | rfl
  · exact hno k hk hk'
  · exact hc

end Since

/-! ## Edges of CCLK -/

/-- CCLK rises from one cycle to the next. -/
def Rises (r r' : Regs) : Prop := r.xlxCclk = false ∧ r'.xlxCclk = true

instance (r r' : Regs) : Decidable (Rises r r') := inferInstanceAs (Decidable (_ ∧ _))

theorem not_rises_of_low {r r' : Regs} (h : r'.xlxCclk = false) : ¬ Rises r r' := by
  rintro ⟨-, h'⟩
  rw [h] at h'
  exact absurd h' (by decide)

theorem not_rises_of_same {r r' : Regs} (h : r'.xlxCclk = r.xlxCclk) : ¬ Rises r r' := by
  rintro ⟨h0, h'⟩
  rw [h, h0] at h'
  exact absurd h' (by decide)

/-- The number of rising edges in `n` cycles from cycle `t` on. -/
def risingEdges (s : Regs) (inp : ℕ → In) (t : ℕ) : ℕ → ℕ
  | 0 => 0
  | n + 1 => risingEdges s inp t n +
      if Rises (loader s inp (t + n)) (loader s inp (t + n + 1)) then 1 else 0

theorem risingEdges_mono (s : Regs) (inp : ℕ → In) (t : ℕ) {m n : ℕ} (h : m ≤ n) :
    risingEdges s inp t m ≤ risingEdges s inp t n := by
  induction h with
  | refl => exact Nat.le_refl _
  | step _ ih => exact Nat.le_trans ih (Nat.le_add_right _ _)

/-! ## A short load -/

/-- A load with a tick in every cycle and a word of one byte ready at any time, marked as the
last one or not.  INIT_B answers the pulse on PROG_B at once, and DONE is high from cycle `n`
on. -/
def shortLoad (last : Bool) (n t : ℕ) : In :=
  { (default : In) with
    rstN := decide (0 < t), csrStart := decide (t = 1), csrMsbf := true, csrDlast := last
    initBSynced := decide (t ≠ 1003), doneSynced := decide (n ≤ t) }

end Svec.Loader
