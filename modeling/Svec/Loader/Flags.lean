/-
  Loader/Flags.lean --- what CSR.DONE and CSR.ERROR tell the host.

  Success is reported only after DONE, and an error only after a timeout.  A report
  while the configuration is still under way is possible in one case: INIT_B
  answers in the very cycle in which its timeout expires, `WAIT_INIT` assigns the
  flags and the next state by two independent statements, and the loader goes on
  with both flags set.
-/
import Svec.Loader.Moves

set_option autoImplicit false

namespace Svec.Loader.Flags

open Svec.Data Svec.Sync Svec.Hdl Svec.Loader
open Svec.Hdl.XilinxLoader (Regs In State pMainFsm cMinProgDelay cInitTimeout)

variable {s : Regs} {inp : ℕ → In}

/-! ## Success and error -/

/-- In cycle `u` the loader leaves `OUTPUT_BIT` or `WAIT_DONE`, with DONE sampled high. -/
def LeavesOnDone (s : Regs) (inp : ℕ → In) (u : ℕ) : Prop :=
  ((loader s inp u).state = .outputBit ∨ (loader s inp u).state = .waitDone) ∧
    (loader s inp (u + 1)).state ≠ (loader s inp u).state ∧ (inp u).doneSynced = true

/-- In cycle `u` the timeout of `WAIT_INIT` or of `WAIT_DONE` expires. -/
def TimeoutExpires (s : Regs) (inp : ℕ → In) (u : ℕ) : Prop :=
  ((loader s inp u).state = .waitInit ∨ (loader s inp u).state = .waitDone) ∧
    (loader s inp u).timeoutCounter = 0#21

/-- What the flags and the state are evidence of. -/
structure Evidence (s : Regs) (inp : ℕ → In) (t : ℕ) : Prop where
  success : (loader s inp t).csrDone = true → (loader s inp t).csrError = false →
    Since s inp (LeavesOnDone s inp) t
  failure : (loader s inp t).csrError = true → Since s inp (TimeoutExpires s inp) t
  done : (loader s inp t).state = .gotDone ∨ (loader s inp t).state = .startupCclk0 ∨
    (loader s inp t).state = .startupCclk1 → Since s inp (LeavesOnDone s inp) t

/-- A cycle that clears nothing and leaves the flags alone. -/
theorem Evidence.keep {t : ℕ} (h : Evidence s inp t) (hc : ¬ Clears (loader s inp t) (inp t))
    {st : State} {p c : Bool}
    (out : Drives (loader s inp (t + 1)) st (loader s inp t).csrDone (loader s inp t).csrError p c)
    (hst : st = .gotDone ∨ st = .startupCclk0 ∨ st = .startupCclk1 → Since s inp (LeavesOnDone s inp) t) :
    Evidence s inp (t + 1) where
  success hd he := (h.success (out.done ▸ hd) (out.error ▸ he)).later hc
  failure he := (h.failure (out.error ▸ he)).later hc
  done hs := (hst (out.state ▸ hs)).later hc

/-- A cycle that clears both flags. -/
theorem Evidence.cleared {t : ℕ} {st : State} {p c : Bool}
    (out : Drives (loader s inp (t + 1)) st false false p c)
    (hst : st = .idle ∨ st = .extendProg) : Evidence s inp (t + 1) where
  success hd := absurd hd (by rw [out.done]; decide)
  failure he := absurd he (by rw [out.error]; decide)
  done hs := by
    rw [out.state] at hs
    rcases hst with rfl | rfl <;> rcases hs with hs | hs | hs <;> cases hs

/-- A cycle in which a timeout sets both flags. -/
theorem Evidence.expired {t : ℕ} (hc : ¬ Clears (loader s inp t) (inp t))
    (hexp : TimeoutExpires s inp t) {st : State} {p c : Bool}
    (out : Drives (loader s inp (t + 1)) st true true p c)
    (hst : st = .idle ∨ st = .waitInit2) : Evidence s inp (t + 1) where
  success _ he := absurd he (by rw [out.error]; decide)
  failure _ := .now hexp hc
  done hs := by
    rw [out.state] at hs
    rcases hst with rfl | rfl <;> rcases hs with hs | hs | hs <;> cases hs

/-- A cycle that reports a success. -/
theorem Evidence.reported {t : ℕ} {st : State} {p c : Bool}
    (out : Drives (loader s inp (t + 1)) st true false p c)
    (h : Since s inp (LeavesOnDone s inp) (t + 1)) : Evidence s inp (t + 1) where
  success _ _ := h
  failure he := absurd he (by rw [out.error]; decide)
  done _ := h

theorem evidence_step {t : ℕ} (h : Evidence s inp t) : Evidence s inp (t + 1) := by
  cases moves_run s inp t with
  | reset _ out => exact .cleared out (.inl rfl)
  | start _ _ _ _ out => exact .cleared out (.inr rfl)
  | rest hrun hs hstart out =>
    have hc : ¬ Clears (loader s inp t) (inp t) := by
      rintro (hr | ⟨-, hstart'⟩)
      · exact hrun.not_reset hr
      · rw [hstart] at hstart'
        exact absurd hstart' (by decide)
    exact h.keep hc out (by simp)
  | extend hrun hs _ _ out => exact h.keep (not_clears hrun (by simp [hs])) out (by simp)
  | extended hrun hs _ _ out => exact h.keep (not_clears hrun (by simp [hs])) out (by simp)
  | initWait hrun hs _ _ _ out => exact h.keep (not_clears hrun (by simp [hs])) out (by simp)
  | initTimeout hrun hs hz _ out =>
    exact .expired (not_clears hrun (by simp [hs])) ⟨.inl hs, hz⟩ out (.inl rfl)
  | initLow hrun hs _ _ out => exact h.keep (not_clears hrun (by simp [hs])) out (by simp)
  | initLate hrun hs hz _ out =>
    exact .expired (not_clears hrun (by simp [hs])) ⟨.inl hs, hz⟩ out (.inr rfl)
  | init2Wait hrun hs _ out => exact h.keep (not_clears hrun (by simp [hs])) out (by simp)
  | initHigh hrun hs _ out => exact h.keep (not_clears hrun (by simp [hs])) out (by simp)
  | fifoEmpty hrun hs _ out => exact h.keep (not_clears hrun (by simp [hs])) out (by simp)
  | fifoRead hrun hs _ out => exact h.keep (not_clears hrun (by simp [hs])) out (by simp)
  | hold hrun hs _ _ out =>
    exact h.keep (not_clears hrun (by rcases hs with hs | hs | hs | hs | hs <;> simp [hs])) out h.done
  | entry hrun hs _ out => exact h.keep (not_clears hrun (by simp [hs])) out (by simp)
  | bit hrun hs _ _ out => exact h.keep (not_clears hrun (by simp [hs])) out (by simp)
  | gotDone hrun hs _ hd out =>
    -- The evidence itself: `OUTPUT_BIT` is left with DONE high.
    have hc := not_clears hrun (r := loader s inp t) (by simp [hs])
    have hnow : Since s inp (LeavesOnDone s inp) (t + 1) :=
      .now ⟨.inl hs, by rw [out.state, hs]; decide, hd⟩ hc
    exact ⟨fun _ _ => hnow, fun he => (h.failure (out.error ▸ he)).later hc, fun _ => hnow⟩
  | edge hrun hs _ hst _ out =>
    refine h.keep (not_clears hrun (by simp [hs])) out fun hst' => ?_
    rcases hst with rfl | rfl | rfl <;> simp at hst'
  | doneWait hrun hs _ _ out => exact h.keep (not_clears hrun (by simp [hs])) out (by simp)
  | doneSeen hrun hs _ hd out =>
    exact .reported out (.now ⟨.inr hs, by rw [out.state, hs]; decide, hd⟩
      (not_clears hrun (by simp [hs])))
  | doneTimeout hrun hs hz out =>
    exact .expired (not_clears hrun (by simp [hs])) ⟨.inr hs, hz⟩ out (.inl rfl)
  | exitWait hrun hs _ out =>
    exact .reported out ((h.done (.inl hs)).later (not_clears hrun (by simp [hs])))
  | exit hrun hs _ _ out =>
    exact .reported out ((h.done (.inl hs)).later (not_clears hrun (by simp [hs])))
  | startupLow hrun hs _ _ out =>
    exact h.keep (not_clears hrun (by simp [hs])) out fun _ => h.done (.inr (.inl hs))
  | startupHigh hrun hs _ _ out =>
    exact h.keep (not_clears hrun (by simp [hs])) out fun _ => h.done (.inr (.inr hs))

theorem evidence_run (h0 : (inp 0).rstN = false) {t : ℕ} (ht : 0 < t) : Evidence s inp t := by
  induction ht with
  | refl => exact .cleared (reset_drives h0) (.inl rfl)
  | step _ ih => exact evidence_step ih

/-- A reported success is due to DONE, and a reported error to a timeout, since the last
reset, SWRST or accepted START. -/
theorem reports_are_founded (s : Regs) (inp : ℕ → In) (h0 : (inp 0).rstN = false) (t : ℕ) (ht : 0 < t) :
    ((loader s inp t).csrDone = true → (loader s inp t).csrError = false →
      Since s inp (LeavesOnDone s inp) t) ∧
    ((loader s inp t).csrError = true → Since s inp (TimeoutExpires s inp) t) :=
  ⟨(evidence_run h0 ht).success, (evidence_run h0 ht).failure⟩

/-- The report of a load of which DONE comes before the first bit. -/
theorem reports_are_founded_short :
    Since default (shortLoad false 0) (LeavesOnDone default (shortLoad false 0)) 1009 :=
  (reports_are_founded default (shortLoad false 0) rfl 1009 (by decide)).1 (by decide +kernel)
    (by decide +kernel)

/-! ## Reports before the end -/

/-- The states of a configuration under way. -/
def InProgress (st : State) : Prop :=
  st = .waitInit2 ∨ st = .readFifo ∨ st = .readFifo2 ∨ st = .outputBit ∨ st = .clockEdge ∨
    st = .waitDone

instance (st : State) : Decidable (InProgress st) := inferInstanceAs (Decidable (_ ∨ _))

/-- INIT_B is sampled low in the very cycle in which its timeout expires. -/
def LateAnswer (r : Regs) (i : In) : Prop :=
  i.Running ∧ r.state = .waitInit ∧ r.timeoutCounter = 0#21 ∧ i.initBSynced = false

/-- From START to the end of the configuration both flags are clear. -/
def Unreported (r : Regs) : Prop :=
  InProgress r.state ∨ r.state = .extendProg ∨ r.state = .waitInit →
    r.csrDone = false ∧ r.csrError = false

/-- A cycle that leaves the flags alone and does not begin a configuration. -/
theorem Unreported.keep {r r' : Regs} (h : Unreported r) {st : State} {p c : Bool}
    (out : Drives r' st r.csrDone r.csrError p c)
    (hst : InProgress st ∨ st = .extendProg ∨ st = .waitInit →
      InProgress r.state ∨ r.state = .extendProg ∨ r.state = .waitInit) : Unreported r' := by
  intro hs
  rw [out.state] at hs
  rw [out.done, out.error]
  exact h (hst hs)

/-- A cycle that leads to a state outside of the configuration. -/
theorem unreported_outside {r' : Regs} {st : State} {d e p c : Bool} (out : Drives r' st d e p c)
    (hst : ¬ (InProgress st ∨ st = .extendProg ∨ st = .waitInit)) : Unreported r' :=
  fun hs => absurd (out.state ▸ hs) hst

theorem unreported_step {r : Regs} {i : In} (h : Unreported r) (hlate : ¬ LateAnswer r i) :
    Unreported (XilinxLoader.step r i) := by
  cases moves r i with
  | reset _ out => exact unreported_outside out (by decide)
  | start _ _ _ _ out => exact fun _ => ⟨out.done, out.error⟩
  | rest _ _ _ out => exact unreported_outside out (by decide)
  | extend _ hs _ _ out => exact h.keep out (by simp [hs])
  | extended _ hs _ _ out => exact h.keep out (by simp [hs])
  | initWait _ hs _ _ _ out => exact h.keep out (by simp [hs])
  | initTimeout _ _ _ _ out => exact unreported_outside out (by decide)
  | initLow _ hs _ _ out => exact h.keep out (by simp [hs])
  | initLate hrun hs hz hb _ => exact absurd ⟨hrun, hs, hz, hb⟩ hlate
  | init2Wait _ hs _ out => exact h.keep out (by simp [hs, InProgress])
  | initHigh _ hs _ out => exact h.keep out (by simp [hs, InProgress])
  | fifoEmpty _ hs _ out => exact h.keep out (by simp [hs, InProgress])
  | fifoRead _ hs _ out => exact h.keep out (by simp [hs, InProgress])
  | hold _ _ _ _ out => exact h.keep out id
  | entry _ hs _ out => exact h.keep out (by simp [hs, InProgress])
  | bit _ hs _ _ out => exact h.keep out (by simp [hs, InProgress])
  | gotDone _ _ _ _ out => exact unreported_outside out (by decide)
  | edge _ hs _ _ _ out => exact h.keep out (by simp [hs, InProgress])
  | doneWait _ hs _ _ out => exact h.keep out (by simp [hs, InProgress])
  | doneSeen _ _ _ _ out => exact unreported_outside out (by decide)
  | doneTimeout _ _ _ out => exact unreported_outside out (by decide)
  | exitWait _ _ _ out => exact unreported_outside out (by decide)
  | exit _ _ _ _ out => exact unreported_outside out (by decide)
  | startupLow _ _ _ _ out => exact unreported_outside out (by decide)
  | startupHigh _ _ _ _ out =>
    refine unreported_outside out ?_
    split <;> decide

theorem unreported_run (h0 : (inp 0).rstN = false) (hlate : ∀ t, ¬ LateAnswer (loader s inp t) (inp t))
    {t : ℕ} (ht : 0 < t) : Unreported (loader s inp t) := by
  have hreset : Unreported (loader s inp 1) := unreported_outside (reset_drives h0) (by decide)
  exact invariant_since (I := fun _ (r : Regs) => Unreported r) hreset ht
    fun k _ _ h => unreported_step h (hlate k)

/-- In no state of a configuration under way a flag is set. -/
def NeverEarly (s : Regs) (inp : ℕ → In) : Prop :=
  ∀ t, 0 < t → InProgress (loader s inp t).state →
    (loader s inp t).csrDone = false ∧ (loader s inp t).csrError = false

/-- The late answer is the one way to an early report. -/
theorem early_of_late {t : ℕ} (h : LateAnswer (loader s inp t) (inp t)) :
    (loader s inp (t + 1)).state = .waitInit2 ∧ (loader s inp (t + 1)).csrDone = true ∧
      (loader s inp (t + 1)).csrError = true := by
  obtain ⟨hrun, hs, hz, hb⟩ := h
  rw [loader_succ]
  simp [pMainFsm, hrun.guard, hs, hz, hb]

/-- `WAIT_INIT` counts down while INIT_B is high. -/
theorem waitInit_dwell {n j : ℕ} (hs : (loader s inp n).state = .waitInit)
    (hc : (loader s inp n).timeoutCounter = cInitTimeout)
    (hin : ∀ t, n ≤ t → t < n + j → (inp t).Running ∧ (inp t).initBSynced = true)
    (hj : j ≤ 200000) :
    (loader s inp (n + j)).state = .waitInit ∧
      (loader s inp (n + j)).timeoutCounter = BitVec.ofNat 21 (200000 - j) := by
  induction j with
  | zero => exact ⟨hs, hc⟩
  | succ j ih =>
    obtain ⟨hsj, hcj⟩ := ih (fun t ht ht' => hin t ht (by omega)) (by omega)
    obtain ⟨hrun, hb⟩ := hin (n + j) (by omega) (by omega)
    obtain ⟨m, hm, hm'⟩ : ∃ m, 200000 - j = m + 1 ∧ 200000 - (j + 1) = m :=
      ⟨200000 - (j + 1), by omega, rfl⟩
    rw [hm] at hcj
    have hne := ofNat_succ_ne_zero (w := 21) (n := m) (by omega)
    rw [← Nat.add_assoc, loader_succ, hm']
    simp [pMainFsm, hrun.guard, hb, hsj, hcj, hne, ofNat_succ_sub_one]

/-- INIT_B stays high until the cycle in which the timeout expires. -/
def lateAnswer (t : ℕ) : In :=
  { (default : In) with
    rstN := decide (0 < t), csrStart := decide (t = 1), initBSynced := decide (t ≠ 201003) }

theorem lateAnswer_late : LateAnswer (loader default lateAnswer 201003) (lateAnswer 201003) := by
  have hrun : ∀ t, 0 < t → (lateAnswer t).Running := fun t ht => ⟨decide_eq_true ht, rfl⟩
  obtain ⟨hext, hcnt⟩ := XilinxLoader.extendProg_dwell (r := loader default lateAnswer)
    (i := lateAnswer) (n := 2) (fun _ => rfl) (fun t ht => hrun t (by omega)) rfl rfl (j := 1000)
    (Nat.le_refl _)
  obtain ⟨hwait, hinit⟩ : (loader default lateAnswer 1003).state = .waitInit ∧
      (loader default lateAnswer 1003).timeoutCounter = cInitTimeout := by
    rw [show 1003 = 2 + 1000 + 1 from rfl, loader_succ]
    simp [pMainFsm, (hrun (2 + 1000) (by omega)).guard, hext, hcnt]
  obtain ⟨hs, hz⟩ := waitInit_dwell hwait hinit
    (fun t ht ht' => ⟨hrun t (by omega), decide_eq_true (by omega)⟩) (j := 200000) (Nat.le_refl _)
  exact ⟨hrun 201003 (by omega), hs, hz, rfl⟩

/-- An answer in the last cycle: `WAIT_INIT2` with DONE and ERROR set. -/
theorem reported_early :
    ¬ ∀ (s : Regs) (inp : ℕ → In), (inp 0).rstN = false → NeverEarly s inp := by
  intro hall
  obtain ⟨hs, hd, -⟩ := early_of_late lateAnswer_late
  have hflags := (hall default lateAnswer rfl 201004 (by omega) (Or.inl hs)).1
  rw [hflags] at hd
  exact absurd hd (by decide)

/-- A configuration under way is never reported finished exactly if INIT_B never answers in
the very cycle in which its timeout expires. -/
theorem never_early_iff (s : Regs) (inp : ℕ → In) (h0 : (inp 0).rstN = false) :
    NeverEarly s inp ↔ ∀ t, ¬ LateAnswer (loader s inp t) (inp t) := by
  constructor
  · intro hnever t hlate
    obtain ⟨hs, hd, -⟩ := early_of_late hlate
    have hflags := (hnever (t + 1) (Nat.succ_pos t) (Or.inl hs)).1
    rw [hflags] at hd
    exact absurd hd (by decide)
  · intro hlate t ht hs
    exact unreported_run h0 hlate ht (Or.inl hs)

/-- A load in which INIT_B answers at once. -/
theorem never_early_iff_short :
    NeverEarly default (shortLoad false 0) ↔
      ∀ t, ¬ LateAnswer (loader default (shortLoad false 0) t) (shortLoad false 0 t) :=
  never_early_iff default (shortLoad false 0) rfl

end Svec.Loader.Flags
