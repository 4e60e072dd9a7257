/-
  Prog/Logged.lean --- programs that keep a log.

  A program can be run beside a log of events that its text makes explicit.  Such a
  twin of a program does what the program does once the log is erased, and the log
  can be reasoned about: `Guards` says what holds of the log whenever the program
  is stopped, and what it has added when it returns.
-/
import Svec.Prog.Basic

set_option autoImplicit false

namespace Svec.Prog

variable {σ τ ε α β : Type}

/-- The program beside a log that it does not touch. -/
def quiet (p : Program σ α) : Program (σ × List ε) α :=
  fun fuel s => ((p fuel s.1).1, ((p fuel s.1).2, s.2))

/-- An event for the log. -/
def note (e : ε) : Program (σ × List ε) Unit := act fun s => ((), (s.1, s.2 ++ [e]))

/-! ## Erasure -/

/-- Without its log `q` does what `p` does. -/
def Erases (q : Program (σ × List ε) α) (p : Program σ α) : Prop :=
  ∀ fuel s, ((q fuel s).1, (q fuel s).2.1) = p fuel s.1

section Erases

theorem Erases.quiet (p : Program σ α) : Erases (quiet (ε := ε) p) p := fun _ _ => rfl

theorem Erases.pure (a : α) : Erases (pure a : Program (σ × List ε) α) (pure a) := fun _ _ => rfl

theorem Erases.stop : Erases (stop : Program (σ × List ε) α) stop := fun _ _ => rfl

theorem Erases.bind {q : Program (σ × List ε) α} {p : Program σ α} {g : α → Program (σ × List ε) β}
    {f : α → Program σ β} (hp : Erases q p) (hf : ∀ a, Erases (g a) (f a)) :
    Erases (q >>= g) (p >>= f) := by
  intro fuel s
  have h := hp fuel s
  show ((Program.andThen q g fuel s).1, (Program.andThen q g fuel s).2.1) = Program.andThen p f fuel s.1
  unfold Program.andThen
  rw [← h]
  cases hq : q fuel s with
  | mk r s' =>
    cases r with
    | none => rfl
    | some a => exact hf a fuel s'

theorem Erases.note {q : Program (σ × List ε) α} {p : Program σ α} (e : ε) (h : Erases q p) :
    Erases (note e >>= fun _ => q) p := fun fuel s => h fuel (s.1, s.2 ++ [e])

theorem Erases.loop {q : α → Program (σ × List ε) (α ⊕ β)} {p : α → Program σ (α ⊕ β)}
    (h : ∀ a, Erases (q a) (p a)) (a : α) : Erases (loop q a) (loop p a) := by
  intro fuel s
  suffices hrounds : ∀ n a s,
      ((rounds q fuel n a s).1, (rounds q fuel n a s).2.1) = rounds p fuel n a s.1 from hrounds fuel a s
  intro n
  induction n with
  | zero => exact fun _ _ => rfl
  | succ n ih =>
    intro a s
    have hround := h a fuel s
    rw [rounds, rounds, ← hround]
    cases hq : q a fuel s with
    | mk r s' =>
      cases r with
      | none => rfl
      | some next =>
        cases next with
        | inl a' => exact ih a' s'
        | inr b => rfl

end Erases

/-! ## What the log says -/

/-- From a log with `P` the program is stopped nowhere without `S`, and returns with `Q`. -/
def Guards (S P : List ε → Prop) (p : Program (σ × List ε) α) (Q : α → List ε → Prop) : Prop :=
  ∀ fuel s, P s.2 → S (p fuel s).2.2 ∧ ∀ a, (p fuel s).1 = some a → Q a (p fuel s).2.2

section Guards

variable {S P P' : List ε → Prop} {Q : α → List ε → Prop} {Q' : β → List ε → Prop}

theorem Guards.quiet (p : Program σ α) (h : ∀ l, P l → S l) :
    Guards S P (quiet p) fun _ => P := fun _ s hs => ⟨h s.2 hs, fun _ _ => hs⟩

theorem Guards.pure {a : α} (h : ∀ l, P l → S l ∧ Q a l) :
    Guards S P (pure a : Program (σ × List ε) α) Q := by
  intro fuel s hs
  obtain ⟨hsafe, hq⟩ := h s.2 hs
  refine ⟨hsafe, fun b hb => ?_⟩
  cases hb
  exact hq

theorem Guards.note {e : ε} (h : ∀ l, P l → S (l ++ [e]) ∧ P' (l ++ [e])) :
    Guards S P (note (σ := σ) e) fun _ => P' := fun _ s hs => ⟨(h s.2 hs).1, fun _ _ => (h s.2 hs).2⟩

theorem Guards.bind {p : Program (σ × List ε) α} {f : α → Program (σ × List ε) β} (hp : Guards S P p Q)
    (hf : ∀ a, Guards S (Q a) (f a) Q') : Guards S P (p >>= f) Q' := by
  intro fuel s hs
  obtain ⟨hsafe, hret⟩ := hp fuel s hs
  show S (Program.andThen p f fuel s).2.2 ∧ ∀ b, (Program.andThen p f fuel s).1 = some b →
    Q' b (Program.andThen p f fuel s).2.2
  unfold Program.andThen
  cases hq : p fuel s with
  | mk r s' =>
    rw [hq] at hsafe hret
    cases r with
    | none => exact ⟨hsafe, fun b hb => nomatch hb⟩
    | some a => exact hf a fuel s' (hret a rfl)

theorem Guards.quiet_bind {p : Program σ α} {f : α → Program (σ × List ε) β} (hs : ∀ l, P l → S l)
    (hf : ∀ a, Guards S P (f a) Q') : Guards S P (Svec.Prog.quiet p >>= f) Q' := (Guards.quiet p hs).bind hf

theorem Guards.note_bind {e : ε} {q : Program (σ × List ε) β} (P' : List ε → Prop)
    (h : ∀ l, P l → S (l ++ [e]) ∧ P' (l ++ [e])) (hq : Guards S P' q Q') :
    Guards S P (Svec.Prog.note e >>= fun _ => q) Q' := (Guards.note h).bind fun _ => hq

/-- The loop rule: what each round finds and leaves. -/
theorem Guards.loop {body : α → Program (σ × List ε) (α ⊕ β)} (I : α → List ε → Prop)
    (hsafe : ∀ a l, I a l → S l)
    (hbody : ∀ a, Guards S (I a) (body a) fun r l => Sum.elim (fun a' => I a' l) (fun b => Q' b l) r)
    (a : α) : Guards S (I a) (loop body a) Q' := by
  intro fuel s hs
  suffices hrounds : ∀ n a s, I a s.2 → S (rounds body fuel n a s).2.2 ∧
      ∀ b, (rounds body fuel n a s).1 = some b → Q' b (rounds body fuel n a s).2.2 from hrounds fuel a s hs
  intro n
  induction n with
  | zero => exact fun a s hs => ⟨hsafe a s.2 hs, fun b hb => by cases hb⟩
  | succ n ih =>
    intro a s hs
    obtain ⟨hround, hret⟩ := hbody a fuel s hs
    rw [rounds]
    cases hq : body a fuel s with
    | mk r s' =>
      rw [hq] at hround hret
      cases r with
      | none => exact ⟨hround, fun b hb => by cases hb⟩
      | some next =>
        cases next with
        | inl a' => exact ih a' s' (hret _ rfl)
        | inr b => exact ⟨hround, fun b' hb => by cases hb; exact hret _ rfl⟩

theorem Guards.mono {p : Program (σ × List ε) α} {Q₁ : α → List ε → Prop} (h : Guards S P p Q)
    (hp : ∀ l, P' l → P l) (hq : ∀ a l, Q a l → Q₁ a l) : Guards S P' p Q₁ := by
  intro fuel s hs
  obtain ⟨hsafe, hret⟩ := h fuel s (hp s.2 hs)
  exact ⟨hsafe, fun a ha => hq a _ (hret a ha)⟩

end Guards

/-! ## What gets into the log -/

/-- A program that always returns the same leaves the log alone when it is quiet. -/
theorem Ends.quiet {p : Program σ α} {a : α} (h : Ends (fun _ => ()) p () a ()) (l : List ε) :
    Ends (fun s : σ × List ε => s.2) (quiet p) l a l := by
  intro s hs
  obtain ⟨s', -, m, hm⟩ := h s.1 rfl
  exact ⟨(s', s.2), hs, m, fun fuel hfuel => by rw [Svec.Prog.quiet, hm fuel hfuel]⟩

theorem Ends.note (e : ε) (l : List ε) :
    Ends (fun s : σ × List ε => s.2) (note e) l () (l ++ [e]) :=
  .act fun s hs => ⟨rfl, by rw [← hs]⟩

theorem Keeps.quiet (S : List ε → Prop) (p : Program σ α) :
    Keeps (fun s : σ × List ε => S s.2) (quiet p) := fun _ _ h => h

/-- A log only grows. -/
theorem Keeps.note (e e' : ε) : Keeps (fun s : σ × List ε => e ∈ s.2) (note e') :=
  .act fun _ h => List.mem_append_left _ h

/-- The rounds of a loop up to a given one. -/
inductive Reaches (v : σ → τ) (body : α → Program σ (α ⊕ β)) : α → τ → α → τ → Prop where
  | refl (a : α) (t : τ) : Reaches v body a t a t
  | step {a a' a'' : α} {t t' t'' : τ} (h : Ends v (body a) t (.inl a') t')
      (hrest : Reaches v body a' t' a'' t'') : Reaches v body a t a'' t''

section Finally

variable {v : σ → τ} {t t' : τ} {Q : σ → Prop}

/-- What a round that is reached comes to, the loop comes to. -/
theorem Reaches.finally {body : α → Program σ (α ⊕ β)} {a a' : α} (h : Reaches v body a t a' t')
    (hkeep : ∀ a, Keeps Q (body a)) (hround : Finally v (body a') t' Q) : Finally v (loop body a) t Q := by
  suffices hrounds : ∀ s, v s = t → ∃ enough, ∀ fuel, enough ≤ fuel → ∀ n, enough ≤ n →
      Q (rounds body fuel n a s).2 by
    intro s hs
    obtain ⟨m, hm⟩ := hrounds s hs
    exact ⟨m, fun fuel hfuel => hm fuel hfuel fuel hfuel⟩
  induction h with
  | refl a t =>
    intro s hs
    obtain ⟨m, hm⟩ := hround s hs
    refine ⟨m + 1, fun fuel hfuel n hn => ?_⟩
    obtain ⟨k, rfl⟩ : ∃ k, n = k + 1 := ⟨n - 1, by omega⟩
    have hq := hm fuel (by omega)
    rw [rounds]
    cases hb : body a fuel s with
    | mk r s' =>
      rw [hb] at hq
      cases r with
      | none => exact hq
      | some next =>
        cases next with
        | inl a' => exact Keeps.rounds hkeep fuel k a' hq
        | inr b => exact hq
  | step hstep _ ih =>
    intro s hs
    obtain ⟨s', hs', m, hm⟩ := hstep s hs
    obtain ⟨n, hn⟩ := ih hround s' hs'
    refine ⟨max m n + 1, fun fuel hfuel k hk => ?_⟩
    obtain ⟨j, rfl⟩ : ∃ j, k = j + 1 := ⟨k - 1, by omega⟩
    rw [rounds, hm fuel (by omega)]
    exact hn fuel (by omega) j (by omega)

/-- What is kept by the rest stays. -/
theorem Finally.keeps {p : Program σ α} {f : α → Program σ β} (h : Finally v p t Q)
    (hf : ∀ a, Keeps Q (f a)) : Finally v (p >>= f) t Q := by
  intro s hs
  obtain ⟨m, hm⟩ := h s hs
  refine ⟨m, fun fuel hfuel => ?_⟩
  have hq := hm fuel hfuel
  show Q (Program.andThen p f fuel s).2
  unfold Program.andThen
  cases hp : p fuel s with
  | mk r s' =>
    rw [hp] at hq
    cases r with
    | none => exact hq
    | some a => exact hf a fuel s' hq

end Finally

end Svec.Prog
