/-
  Prog/Script.lean --- programs that only talk to a bus.

  A script comes to a result, lets time pass, or makes an access and goes on as the
  reply tells it.  A path is a run of a script against a transition system that says
  what an access may bring; it does not see the pauses, so a script may be run at any
  pace.
-/
import Mathlib.Tactic.Common

set_option autoImplicit false

namespace Svec.Prog

/-- A script with pauses `L`, accesses `A`, replies `R` and results `α`. -/
inductive Script (L A R α : Type) where
  | ret (r : α)
  | pause (lines : L) (rest : Script L A R α)
  | access (a : A) (rest : R → Script L A R α)

namespace Script

variable {L A R X σ α β : Type}

/-- Go on with the result. -/
def andThen (p : Script L A R α) (f : α → Script L A R β) : Script L A R β :=
  match p with
  | .ret r => f r
  | .pause lines rest => .pause lines (rest.andThen f)
  | .access a rest => .access a fun x => (rest x).andThen f

instance : Monad (Script L A R) where
  pure := .ret
  bind := andThen

/-! ## Pace -/

/-- The second script is the first one with pauses put in. -/
inductive Paced : Script L A R α → Script L A R α → Prop where
  | ret (r : α) : Paced (.ret r) (.ret r)
  | pause (lines : L) {p q : Script L A R α} (h : Paced p q) : Paced p (.pause lines q)
  | access (a : A) {p q : R → Script L A R α} (h : ∀ x, Paced (p x) (q x)) :
      Paced (.access a p) (.access a q)

/-- A script without pauses may be run as it is. -/
def Busy : Script L A R α → Prop
  | .ret _ => True
  | .pause _ _ => False
  | .access _ rest => ∀ x, Busy (rest x)

theorem Busy.paced {p : Script L A R α} (h : Busy p) : Paced p p := by
  induction p with
  | ret r => exact .ret r
  | pause lines rest _ => exact h.elim
  | access a rest ih => exact .access a fun x => ih x (h x)

theorem busy_pure (r : α) : Busy (pure r : Script L A R α) := trivial

theorem Busy.bind {p : Script L A R α} {f : α → Script L A R β} (hp : Busy p) (hf : ∀ r, Busy (f r)) :
    Busy (p >>= f) := by
  induction p with
  | ret r => exact hf r
  | pause lines rest _ => exact hp.elim
  | access a rest ih => exact fun x => ih x (hp x)

theorem Busy.map {p : Script L A R α} (f : α → β) (hp : Busy p) : Busy (f <$> p) := hp.bind fun r => busy_pure (f r)

/-! ## Paths -/

section Path

variable (step : σ → A → X → σ → Prop) (reply : A → X → R)

/-- From the state `s` to `s'` the script comes to the result `r` by the accesses `l`, each with
what it brought. -/
inductive Path : Script L A R α → σ → List (A × X) → α → σ → Prop where
  | ret (r : α) (s : σ) : Path (.ret r) s [] r s
  | pause {lines : L} {rest : Script L A R α} {s s' : σ} {l : List (A × X)} {r : α}
      (h : Path rest s l r s') : Path (.pause lines rest) s l r s'
  | access {a : A} {x : X} {rest : R → Script L A R α} {s s' s'' : σ} {l : List (A × X)} {r : α}
      (first : step s a x s') (h : Path (rest (reply a x)) s' l r s'') :
      Path (.access a rest) s ((a, x) :: l) r s''

variable {step reply} {s s' : σ} {l : List (A × X)} {r : α}

/-- The pauses do not matter. -/
theorem Path.unpaced {p q : Script L A R α} (h : Path step reply q s l r s') (hp : Paced p q) :
    Path step reply p s l r s' := by
  induction h generalizing p with
  | ret r s =>
    cases hp
    exact .ret r s
  | pause _ ih =>
    cases hp with
    | pause _ hp => exact ih hp
  | access first _ ih =>
    cases hp with
    | access _ hp => exact .access first (ih (hp _))

theorem path_ret {r' : α} : Path step reply (.ret r' : Script L A R α) s l r s' ↔ l = [] ∧ r = r' ∧ s' = s := by
  constructor
  · intro h
    cases h
    exact ⟨rfl, rfl, rfl⟩
  · rintro ⟨rfl, rfl, rfl⟩
    exact .ret _ _

theorem path_pure {r' : α} : Path step reply (pure r' : Script L A R α) s l r s' ↔ l = [] ∧ r = r' ∧ s' = s :=
  path_ret

theorem path_access {a : A} {rest : R → Script L A R α} :
    Path step reply (.access a rest) s l r s' ↔ ∃ x s₁ l₁, step s a x s₁ ∧
      Path step reply (rest (reply a x)) s₁ l₁ r s' ∧ l = (a, x) :: l₁ := by
  constructor
  · intro h
    cases h with
    | access first h => exact ⟨_, _, _, first, h, rfl⟩
  · rintro ⟨x, s₁, l₁, first, h, rfl⟩
    exact .access first h

/-- A path of two scripts in sequence is a path of each. -/
theorem path_bind {p : Script L A R α} {f : α → Script L A R β} {r : β} :
    Path step reply (p >>= f) s l r s' ↔ ∃ r₁ s₁ l₁ l₂, Path step reply p s l₁ r₁ s₁ ∧
      Path step reply (f r₁) s₁ l₂ r s' ∧ l = l₁ ++ l₂ := by
  constructor
  · intro h
    induction p generalizing s l with
    | ret r₁ => exact ⟨r₁, s, [], l, .ret r₁ s, h, rfl⟩
    | pause lines rest ih =>
      cases h with
      | pause h =>
        obtain ⟨r₁, s₁, l₁, l₂, hp, hf, rfl⟩ := ih h
        exact ⟨r₁, s₁, l₁, l₂, .pause hp, hf, rfl⟩
    | access a rest ih =>
      cases h with
      | access first h =>
        obtain ⟨r₁, s₁, l₁, l₂, hp, hf, rfl⟩ := ih _ h
        exact ⟨r₁, s₁, _ :: l₁, l₂, .access first hp, hf, rfl⟩
  · rintro ⟨r₁, s₁, l₁, l₂, hp, hf, rfl⟩
    induction hp with
    | ret r s => exact hf
    | pause _ ih => exact .pause (ih hf)
    | access first _ ih => exact .access first (ih hf)

theorem path_map {p : Script L A R α} {f : α → β} {r : β} :
    Path step reply (f <$> p) s l r s' ↔ ∃ r₁, Path step reply p s l r₁ s' ∧ r = f r₁ := by
  show Path step reply (p >>= fun r₁ => pure (f r₁)) s l r s' ↔ _
  simp only [path_bind, path_pure]
  constructor
  · rintro ⟨r₁, s₁, l₁, l₂, hp, ⟨rfl, rfl, rfl⟩, rfl⟩
    exact ⟨r₁, by rwa [List.append_nil], rfl⟩
  · rintro ⟨r₁, hp, rfl⟩
    exact ⟨r₁, s', l, [], hp, ⟨rfl, rfl, rfl⟩, (List.append_nil l).symm⟩

end Path

end Script

end Svec.Prog
