/-
  Sync/Machine.lean --- clocked machines and their runs.

  A clocked machine is a step function `σ → ι → σ` applied once a clock cycle to
  the registers `σ` and the inputs `ι` of that cycle.  An input waveform is a
  function `ℕ → ι`; `run` gives the registers at every cycle.

  This file holds what every proof about such a machine uses and nothing about
  any particular one: how runs compose, the invariant rules, the two-run rule,
  what a run collects cycle by cycle, and the rule that turns a rank into
  "eventually".
-/
import Mathlib.Tactic.Common
import Mathlib.Data.List.Basic
import Mathlib.Data.Nat.Find

set_option autoImplicit false

namespace Svec.Sync

variable {σ ι : Type}

/-- The registers at every cycle of the waveform `inp`, starting from `s`. -/
def run (step : σ → ι → σ) (s : σ) (inp : ℕ → ι) : ℕ → σ
  | 0 => s
  | t + 1 => step (run step s inp t) (inp t)

@[simp] theorem run_zero (step : σ → ι → σ) (s : σ) (inp : ℕ → ι) :
    run step s inp 0 = s := rfl

theorem run_succ (step : σ → ι → σ) (s : σ) (inp : ℕ → ι) (t : ℕ) :
    run step s inp (t + 1) = step (run step s inp t) (inp t) := rfl

/-- A run splits at every cycle. -/
theorem run_add (step : σ → ι → σ) (s : σ) (inp : ℕ → ι) (m n : ℕ) :
    run step s inp (m + n) = run step (run step s inp m) (fun t => inp (m + t)) n := by
  induction n with
  | zero => rfl
  | succ n ih => rw [← Nat.add_assoc, run_succ, run_succ, ih]

/-- Registers that no step changes any more stay. -/
theorem run_fixed {step : σ → ι → σ} {s : σ} {inp : ℕ → ι} (h : ∀ t, step s (inp t) = s) (n : ℕ) :
    run step s inp n = s := by
  induction n with
  | zero => rfl
  | succ n ih => rw [run_succ, ih, h]

/-- Only the inputs of earlier cycles matter. -/
theorem run_congr {step : σ → ι → σ} {s : σ} {inp inp' : ℕ → ι} {n : ℕ}
    (h : ∀ t, t < n → inp t = inp' t) : run step s inp n = run step s inp' n := by
  induction n with
  | zero => rfl
  | succ n ih =>
    rw [run_succ, run_succ, ih (fun t ht => h t (Nat.lt_succ_of_lt ht)), h n (Nat.lt_succ_self n)]

/-! ## Invariants -/

/-- The invariant rule: what holds at the start and is preserved by every step that
meets the assumption `A` holds throughout a run whose steps all meet it. -/
theorem invariant_run {step : σ → ι → σ} {I : σ → Prop} {A : σ → ι → Prop} {s : σ}
    {inp : ℕ → ι} (h0 : I s)
    (hstep : ∀ s i, I s → A s i → I (step s i))
    (hok : ∀ t, A (run step s inp t) (inp t)) (t : ℕ) : I (run step s inp t) := by
  induction t with
  | zero => exact h0
  | succ t ih => exact hstep _ _ ih (hok t)

/-- The invariant rule from a given step on: what that step establishes, and every later
one preserves, holds after it.  The predicate may name the cycle. -/
theorem invariant_since {step : σ → ι → σ} {I : ℕ → σ → Prop} {s : σ} {inp : ℕ → ι} {u : ℕ}
    (hfirst : I (u + 1) (step (run step s inp u) (inp u))) {t : ℕ} (hut : u < t)
    (hstep : ∀ k, u < k → k < t → I k (run step s inp k) →
      I (k + 1) (step (run step s inp k) (inp k))) : I t (run step s inp t) := by
  induction hut with
  | refl => exact hfirst
  | @step t hut ih =>
    exact hstep t hut (Nat.lt_succ_self t) (ih fun k huk hkt => hstep k huk (Nat.lt_succ_of_lt hkt))

/-- The two-run rule: a relation between the registers of two runs that one step of
each preserves holds for as long as it does.  The relation may name the cycle. -/
theorem related_run {σ' ι' : Type} {step : σ → ι → σ} {step' : σ' → ι' → σ'}
    {R : ℕ → σ → σ' → Prop} {s : σ} {s' : σ'} {inp : ℕ → ι} {inp' : ℕ → ι'} (h0 : R 0 s s') {n : ℕ}
    (hstep : ∀ t, t < n → R t (run step s inp t) (run step' s' inp' t) →
      R (t + 1) (step (run step s inp t) (inp t)) (step' (run step' s' inp' t) (inp' t)))
    {t : ℕ} (ht : t ≤ n) : R t (run step s inp t) (run step' s' inp' t) := by
  induction t with
  | zero => exact h0
  | succ t ih => exact hstep t ht (ih (Nat.le_of_succ_le ht))

/-! ## What a run collects -/

/-- The concatenation of what each of the first `n` cycles yields. -/
def collect {β : Type} (f : ℕ → List β) : ℕ → List β
  | 0 => []
  | n + 1 => collect f n ++ f n

theorem collect_succ {β : Type} (f : ℕ → List β) (n : ℕ) :
    collect f (n + 1) = collect f n ++ f n := rfl

/-- What is collected splits at every cycle. -/
theorem collect_add {β : Type} (f : ℕ → List β) (m n : ℕ) :
    collect f (m + n) = collect f m ++ collect (fun k => f (m + k)) n := by
  induction n with
  | zero => simp [collect]
  | succ n ih => rw [← Nat.add_assoc, collect_succ, collect_succ, ih, List.append_assoc]

theorem collect_succ_left {β : Type} (f : ℕ → List β) (n : ℕ) :
    collect f (n + 1) = f 0 ++ collect (fun k => f (k + 1)) n := by
  rw [Nat.add_comm n 1, collect_add]
  congr 1
  congr 1
  funext k
  rw [Nat.add_comm]

theorem collect_congr {β : Type} {f g : ℕ → List β} {n : ℕ} (h : ∀ k, k < n → f k = g k) :
    collect f n = collect g n := by
  induction n with
  | zero => rfl
  | succ n ih => rw [collect_succ, collect_succ, ih fun k hk => h k (Nat.lt_succ_of_lt hk), h n (Nat.lt_succ_self n)]

theorem collect_eq_nil {β : Type} {f : ℕ → List β} {n : ℕ} (h : ∀ k, k < n → f k = []) :
    collect f n = [] := by
  induction n with
  | zero => rfl
  | succ n ih => rw [collect_succ, ih fun k hk => h k (Nat.lt_succ_of_lt hk), h n (Nat.lt_succ_self n)]; rfl

/-! ## Components -/

/-- A deterministic clocked component that is only known by its ports: its outputs in a
cycle depend on its registers and on its inputs of that cycle. -/
structure Component (ι ο : Type) where
  State : Type
  step : State → ι → State
  out : State → ι → ο

/-! ## Progress -/

theorem rank_le_of_le {m : ℕ → ℕ} (hmono : ∀ t, m (t + 1) ≤ m t) {a b : ℕ} (h : a ≤ b) :
    m b ≤ m a := by
  induction h with
  | refl => exact Nat.le_refl _
  | step _ ih => exact Nat.le_trans (hmono _) ih

/-- The rank rule: a rank that never grows, and that strictly drops again and again
for as long as it is positive, reaches zero. -/
theorem eventually_zero {m : ℕ → ℕ} (hmono : ∀ t, m (t + 1) ≤ m t)
    (hdrop : ∀ t, 0 < m t → ∃ u, t ≤ u ∧ m (u + 1) < m t) :
    ∃ T, ∀ t, T ≤ t → m t = 0 := by
  have hreach : ∀ n t, m t ≤ n → ∃ T, m T = 0 := by
    intro n
    induction n with
    | zero => intro t ht; exact ⟨t, Nat.le_zero.mp ht⟩
    | succ n ih =>
      intro t ht
      rcases Nat.eq_zero_or_pos (m t) with h0 | hpos
      · exact ⟨t, h0⟩
      · obtain ⟨u, _, hu⟩ := hdrop t hpos
        exact ih (u + 1) (by omega)
  obtain ⟨T, hT⟩ := hreach (m 0) 0 (Nat.le_refl _)
  refine ⟨T, fun t ht => ?_⟩
  have := rank_le_of_le hmono ht
  omega

/-- The stage rule: stages that each come to the next are come to one after the other. -/
theorem exists_stages {At : ℕ → ℕ → Prop} (n : ℕ) (h0 : At 0 0)
    (hnext : ∀ k t, k < n → At k t → ∃ u, t < u ∧ At (k + 1) u) :
    ∃ T : ℕ → ℕ, T 0 = 0 ∧ (∀ k, k < n → T k < T (k + 1)) ∧ ∀ k, k ≤ n → At k (T k) := by
  induction n with
  | zero => exact ⟨fun _ => 0, rfl, fun k hk => absurd hk (Nat.not_lt_zero k), fun k hk => by
      rw [Nat.le_zero.mp hk]
      exact h0⟩
  | succ n ih =>
    obtain ⟨T, hT0, hmono, hat⟩ := ih fun k t hk => hnext k t (Nat.lt_succ_of_lt hk)
    obtain ⟨u, hu, hatu⟩ := hnext n (T n) (Nat.lt_succ_self n) (hat n (Nat.le_refl n))
    refine ⟨fun k => if k ≤ n then T k else u, by simpa using hT0, fun k hk => ?_, fun k hk => ?_⟩
    · rcases Nat.lt_or_eq_of_le (Nat.le_of_lt_succ hk) with hlt | rfl
      · have hle : k + 1 ≤ n := hlt
        simpa only [if_pos (Nat.le_of_lt hlt), if_pos hle] using hmono k hlt
      · simpa only [if_pos (Nat.le_refl k), if_neg (Nat.not_succ_le_self k)] using hu
    · rcases Nat.lt_or_eq_of_le hk with hlt | rfl
      · simpa only [if_pos (Nat.le_of_lt_succ hlt)] using hat k (Nat.le_of_lt_succ hlt)
      · simpa only [if_neg (Nat.not_succ_le_self n)] using hatu

/-- Of the cycles from `n` to `t` that meet `P` there is a first one. -/
theorem exists_first {P : ℕ → Prop} {n t : ℕ} (hnt : n ≤ t) (h : P t) :
    ∃ u, n ≤ u ∧ u ≤ t ∧ P u ∧ ∀ k, n ≤ k → k < u → ¬ P k := by
  classical
  have hex : ∃ u, n ≤ u ∧ P u := ⟨t, hnt, h⟩
  obtain ⟨hle, hP⟩ := Nat.find_spec hex
  exact ⟨Nat.find hex, hle, Nat.find_min' hex ⟨hnt, h⟩, hP,
    fun k hk hk' hPk => Nat.find_min hex hk' ⟨hk, hPk⟩⟩

/-- The budget rule: a budget that every cycle cuts, for as long as the goal is not reached,
bounds the cycles to the goal. -/
theorem within_budget {P D : ℕ → Prop} {m : ℕ → ℕ}
    (hstep : ∀ t, P t → D (t + 1) ∨ (P (t + 1) ∧ m (t + 1) < m t)) {t : ℕ} (h : P t) :
    ∃ u, t < u ∧ u ≤ t + m t + 1 ∧ D u := by
  obtain ⟨n, hn⟩ : ∃ n, n = m t := ⟨_, rfl⟩
  induction n using Nat.strongRecOn generalizing t with
  | ind n ih =>
    rcases hstep t h with hD | ⟨hP, hlt⟩
    · exact ⟨t + 1, Nat.lt_succ_self t, by omega, hD⟩
    · obtain ⟨u, htu, hu, hD⟩ := ih (m (t + 1)) (by omega) hP rfl
      exact ⟨u, by omega, by omega, hD⟩

/-- The budget rule for a budget in any well-founded order: there is no bound, but the goal is
reached. -/
theorem comes_to {α : Type} {lt : α → α → Prop} (hwf : WellFounded lt) {P D : ℕ → Prop} {m : ℕ → α}
    (hstep : ∀ t, P t → D (t + 1) ∨ (P (t + 1) ∧ lt (m (t + 1)) (m t))) {t : ℕ} (h : P t) :
    ∃ u, t < u ∧ D u := by
  obtain ⟨a, ha⟩ : ∃ a, a = m t := ⟨_, rfl⟩
  induction a using hwf.induction generalizing t with
  | _ a ih =>
    rcases hstep t h with hD | ⟨hP, hlt⟩
    · exact ⟨t + 1, Nat.lt_succ_self t, hD⟩
    · obtain ⟨u, htu, hD⟩ := ih (m (t + 1)) (ha ▸ hlt) hP rfl
      exact ⟨u, by omega, hD⟩

end Svec.Sync
