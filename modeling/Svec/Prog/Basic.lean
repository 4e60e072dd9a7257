/-
  Prog/Basic.lean --- programs with loops, run on fuel.

  A program changes a state and returns a result; its loops run as often as the
  fuel allows.  Without a result it has run out of fuel or has stopped, and the
  state is the one it has come to.

  `Ends` says that a program returns as soon as the fuel is enough, and what it
  makes of the state as seen through a view; `Keeps` says that it never leaves an
  invariant, whatever the fuel.  Each has one rule for each way to build a program.
-/
import Mathlib.Tactic.Common

set_option autoImplicit false

namespace Svec.Prog

variable {σ τ α β : Type}

/-- A program on the state `σ`. -/
def Program (σ α : Type) : Type := ℕ → σ → Option α × σ

/-- Go on with the result, if there is one. -/
def Program.andThen (p : Program σ α) (f : α → Program σ β) : Program σ β := fun fuel s =>
  match p fuel s with
  | (some a, s') => f a fuel s'
  | (none, s') => (none, s')

instance : Monad (Program σ) where
  pure a := fun _ s => (some a, s)
  bind := Program.andThen

/-- A primitive step. -/
def act (f : σ → α × σ) : Program σ α := fun _ s => (some (f s).1, (f s).2)

/-- The program comes to a halt without a result. -/
def stop : Program σ α := fun _ s => (none, s)

/-- A loop of at most a number of rounds.  A round says how to go on, or what to return. -/
def rounds (body : α → Program σ (α ⊕ β)) (fuel : ℕ) : ℕ → α → σ → Option β × σ
  | 0, _, s => (none, s)
  | n + 1, a, s =>
    match body a fuel s with
    | (some (.inl a'), s') => rounds body fuel n a' s'
    | (some (.inr b), s') => (some b, s')
    | (none, s') => (none, s')

/-- A loop. -/
def loop (body : α → Program σ (α ⊕ β)) (a : α) : Program σ β := fun fuel => rounds body fuel fuel a

/-! ## Programs that end -/

/-- From each state that looks like `t` the program returns `a`, in a state that looks like
`t'`. -/
def Ends (v : σ → τ) (p : Program σ α) (t : τ) (a : α) (t' : τ) : Prop :=
  ∀ s, v s = t → ∃ s', v s' = t' ∧ ∃ enough, ∀ fuel, enough ≤ fuel → p fuel s = (some a, s')

section Ends

variable {v : σ → τ} {t t' t'' : τ} {a : α} {b : β}

theorem Ends.pure (a : α) (t : τ) : Ends v (pure a) t a t :=
  fun s hs => ⟨s, hs, 0, fun _ _ => rfl⟩

theorem Ends.ret {a' : α} (ha : a = a') (ht : t = t') : Ends v (Pure.pure a) t a' t' := by
  subst ha ht
  exact .pure a t

theorem Ends.act {f : σ → α × σ} (h : ∀ s, v s = t → (f s).1 = a ∧ v (f s).2 = t') :
    Ends v (act f) t a t' := by
  intro s hs
  obtain ⟨ha, ht⟩ := h s hs
  exact ⟨(f s).2, ht, 0, fun _ _ => by rw [Svec.Prog.act, ha]⟩

theorem Ends.bind {p : Program σ α} {f : α → Program σ β} (hp : Ends v p t a t') (hf : Ends v (f a) t' b t'') :
    Ends v (p >>= f) t b t'' := by
  intro s hs
  obtain ⟨s', hs', m, hm⟩ := hp s hs
  obtain ⟨s'', hs'', n, hn⟩ := hf s' hs'
  refine ⟨s'', hs'', max m n, fun fuel hfuel => ?_⟩
  show Program.andThen p f fuel s = _
  rw [Program.andThen, hm fuel (by omega)]
  exact hn fuel (by omega)

/-- A view of a view. -/
theorem Ends.coarsen {ρ : Type} (g : τ → ρ) {p : Program σ α} {r r' : ρ}
    (h : ∀ t, g t = r → ∃ t', g t' = r' ∧ Ends v p t a t') : Ends (fun s => g (v s)) p r a r' := by
  intro s hs
  obtain ⟨t', ht', hends⟩ := h (v s) hs
  obtain ⟨s', hs', hfuel⟩ := hends s rfl
  exact ⟨s', (congrArg g hs').trans ht', hfuel⟩

/-- A run of a loop, round by round. -/
inductive Rounds (v : σ → τ) (body : α → Program σ (α ⊕ β)) : α → τ → β → τ → Prop where
  | done {a : α} {t t' : τ} {b : β} (h : Ends v (body a) t (.inr b) t') : Rounds v body a t b t'
  | again {a a' : α} {t t' t'' : τ} {b : β} (h : Ends v (body a) t (.inl a') t')
      (hrest : Rounds v body a' t' b t'') : Rounds v body a t b t''

theorem Rounds.ends {body : α → Program σ (α ⊕ β)} (h : Rounds v body a t b t') :
    Ends v (loop body a) t b t' := by
  suffices hrounds : ∀ s, v s = t → ∃ s', v s' = t' ∧ ∃ enough, ∀ fuel, enough ≤ fuel → ∀ n, enough ≤ n →
      rounds body fuel n a s = (some b, s') by
    intro s hs
    obtain ⟨s', hs', m, hm⟩ := hrounds s hs
    exact ⟨s', hs', m, fun fuel hfuel => hm fuel hfuel fuel hfuel⟩
  induction h with
  | done h =>
    intro s hs
    obtain ⟨s', hs', m, hm⟩ := h s hs
    refine ⟨s', hs', m + 1, fun fuel hfuel n hn => ?_⟩
    obtain ⟨k, rfl⟩ : ∃ k, n = k + 1 := ⟨n - 1, by omega⟩
    rw [rounds, hm fuel (by omega)]
  | again h _ ih =>
    intro s hs
    obtain ⟨s', hs', m, hm⟩ := h s hs
    obtain ⟨s'', hs'', n, hn⟩ := ih s' hs'
    refine ⟨s'', hs'', max m n + 1, fun fuel hfuel k hk => ?_⟩
    obtain ⟨j, rfl⟩ : ∃ j, k = j + 1 := ⟨k - 1, by omega⟩
    rw [rounds, hm fuel (by omega)]
    exact hn fuel (by omega) j (by omega)

/-- The loop rule: every round from a state with the invariant ends the loop as wanted, or
keeps the invariant and comes down in rank. -/
theorem ends_loop {body : α → Program σ (α ⊕ β)} (I : α → τ → Prop) (Q : β → τ → Prop) (rank : α → τ → ℕ)
    (hbody : ∀ a t, I a t → (∃ b t', Ends v (body a) t (.inr b) t' ∧ Q b t') ∨
      ∃ a' t', Ends v (body a) t (.inl a') t' ∧ I a' t' ∧ rank a' t' < rank a t)
    (h : I a t) : ∃ b t', Ends v (loop body a) t b t' ∧ Q b t' := by
  suffices hrun : ∃ b t', Rounds v body a t b t' ∧ Q b t' by
    obtain ⟨b, t', hrounds, hq⟩ := hrun
    exact ⟨b, t', hrounds.ends, hq⟩
  induction hn : rank a t using Nat.strongRecOn generalizing a t with
  | ind n ih =>
    rcases hbody a t h with ⟨b, t', hdone, hq⟩ | ⟨a', t', hagain, hinv, hlt⟩
    · exact ⟨b, t', .done hdone, hq⟩
    · obtain ⟨b, t'', hrest, hq⟩ := ih (rank a' t') (hn ▸ hlt) hinv rfl
      exact ⟨b, t'', .again hagain hrest, hq⟩

end Ends

/-! ## Invariants -/

/-- Whatever the fuel, the program does not leave the invariant. -/
def Keeps (I : σ → Prop) (p : Program σ α) : Prop := ∀ fuel s, I s → I (p fuel s).2

section Keeps

variable {I : σ → Prop}

theorem Keeps.pure (a : α) : Keeps I (pure a : Program σ α) := fun _ _ h => h

theorem Keeps.stop : Keeps I (stop : Program σ α) := fun _ _ h => h

theorem Keeps.act {f : σ → α × σ} (h : ∀ s, I s → I (f s).2) : Keeps I (act f) := fun _ s hs => h s hs

theorem Keeps.bind {p : Program σ α} {f : α → Program σ β} (hp : Keeps I p) (hf : ∀ a, Keeps I (f a)) :
    Keeps I (p >>= f) := by
  intro fuel s hs
  have hmid := hp fuel s hs
  show I (Program.andThen p f fuel s).2
  unfold Program.andThen
  split
  · rename_i a s' heq
    rw [heq] at hmid
    exact hf a fuel s' hmid
  · rename_i s' heq
    rw [heq] at hmid
    exact hmid

theorem Keeps.rounds {body : α → Program σ (α ⊕ β)} (hbody : ∀ a, Keeps I (body a)) (fuel n : ℕ) (a : α)
    {s : σ} (hs : I s) : I (rounds body fuel n a s).2 := by
  induction n generalizing a s with
  | zero => exact hs
  | succ n ih =>
    have hmid := hbody a fuel s hs
    rw [Svec.Prog.rounds]
    split
    · rename_i a' s' heq
      rw [heq] at hmid
      exact ih a' hmid
    · rename_i b s' heq
      rw [heq] at hmid
      exact hmid
    · rename_i s' heq
      rw [heq] at hmid
      exact hmid

theorem Keeps.loop {body : α → Program σ (α ⊕ β)} (hbody : ∀ a, Keeps I (body a)) (a : α) :
    Keeps I (loop body a) := fun fuel _ hs => Keeps.rounds hbody fuel fuel a hs

end Keeps

/-! ## Where a program comes to -/

/-- From each state that looks like `t`, the state that the program comes to with enough fuel
is as wanted, whether it returns or not. -/
def Finally (v : σ → τ) (p : Program σ α) (t : τ) (Q : σ → Prop) : Prop :=
  ∀ s, v s = t → ∃ enough, ∀ fuel, enough ≤ fuel → Q (p fuel s).2

section Finally

variable {v : σ → τ} {t t' : τ} {a : α} {Q : σ → Prop}

theorem Ends.finally {p : Program σ α} (h : Ends v p t a t') (hq : ∀ s, v s = t' → Q s) :
    Finally v p t Q := by
  intro s hs
  obtain ⟨s', hs', m, hm⟩ := h s hs
  exact ⟨m, fun fuel hfuel => by rw [hm fuel hfuel]; exact hq s' hs'⟩

theorem Keeps.finally {p : Program σ α} (h : Keeps Q p) (hq : ∀ s, v s = t → Q s) : Finally v p t Q :=
  fun s hs => ⟨0, fun fuel _ => h fuel s (hq s hs)⟩

theorem Finally.mono {Q' : σ → Prop} {p : Program σ α} (h : Finally v p t Q) (hq : ∀ s, Q s → Q' s) :
    Finally v p t Q' := by
  intro s hs
  obtain ⟨m, hm⟩ := h s hs
  exact ⟨m, fun fuel hfuel => hq _ (hm fuel hfuel)⟩

theorem Finally.bind {p : Program σ α} {f : α → Program σ β} (hp : Ends v p t a t')
    (hf : Finally v (f a) t' Q) : Finally v (p >>= f) t Q := by
  intro s hs
  obtain ⟨s', hs', m, hm⟩ := hp s hs
  obtain ⟨n, hn⟩ := hf s' hs'
  refine ⟨max m n, fun fuel hfuel => ?_⟩
  show Q (Program.andThen p f fuel s).2
  rw [Program.andThen, hm fuel (by omega)]
  exact hn fuel (by omega)

end Finally

end Svec.Prog
