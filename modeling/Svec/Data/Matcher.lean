/-
  Data/Matcher.lean --- a restart matcher over a stream of symbols.

  The matcher keeps only how many symbols of the pattern it has seen.  The next
  symbol of the pattern advances it, the last one completes the match and starts
  it over, and any other symbol sends it back to the beginning; that symbol is
  not looked at again.  So the matcher cuts the stream into attempts, and it is
  at the beginning exactly when the stream so far is a sequence of whole ones.
-/
import Mathlib.Tactic.Common
import Mathlib.Data.List.Induction

set_option autoImplicit false

namespace Svec.Data.Matcher

variable {α : Type} {pat : List α}

/-! ## Attempts -/

/-- An attempt: the whole pattern, or a proper prefix of it and one symbol that does not
continue it. -/
def Attempt (pat a : List α) : Prop :=
  a = pat ∨ ∃ k b, k < pat.length ∧ pat[k]? ≠ some b ∧ a = pat.take k ++ [b]

/-- A stream that is a sequence of whole attempts. -/
def Attempts (pat h : List α) : Prop := ∃ as : List (List α), (∀ a ∈ as, Attempt pat a) ∧ as.flatten = h

theorem attempts_nil : Attempts pat [] := ⟨[], by simp, rfl⟩

theorem Attempts.concat {h a : List α} (hh : Attempts pat h) (ha : Attempt pat a) :
    Attempts pat (h ++ a) := by
  obtain ⟨as, has, rfl⟩ := hh
  refine ⟨as ++ [a], fun x hx => ?_, by simp⟩
  rcases List.mem_append.mp hx with hx | hx
  · exact has x hx
  · rw [List.mem_singleton.mp hx]
    exact ha

/-! ## The matcher -/

variable [DecidableEq α]

/-- How much of `pat` is matched after one more symbol. -/
def advance (pat : List α) (k : ℕ) (a : α) : ℕ :=
  if pat[k]? = some a then (if k + 1 = pat.length then 0 else k + 1) else 0

/-- How much of `pat` is matched after a stream of symbols. -/
def position (pat : List α) (h : List α) : ℕ := h.foldl (advance pat) 0

@[simp] theorem position_nil : position pat [] = 0 := rfl

theorem position_append (h l : List α) :
    position pat (h ++ l) = l.foldl (advance pat) (position pat h) := by
  rw [position, List.foldl_append]
  rfl

theorem position_concat (h : List α) (a : α) :
    position pat (h ++ [a]) = advance pat (position pat h) a := position_append h [a]

theorem advance_lt (hne : pat ≠ []) (k : ℕ) (a : α) : advance pat k a < pat.length := by
  have hpos : 0 < pat.length := List.length_pos_iff.mpr hne
  unfold advance
  split
  · rename_i h
    have hk : k < pat.length := (List.getElem?_eq_some_iff.mp h).1
    split <;> omega
  · exact hpos

theorem position_lt (hne : pat ≠ []) (h : List α) : position pat h < pat.length := by
  induction h using List.reverseRecOn with
  | nil => exact List.length_pos_iff.mpr hne
  | append_singleton h a _ => rw [position_concat]; exact advance_lt hne _ a

/-! ## The matcher's place in the stream -/

/-- Every stream is whole attempts followed by the part of the pattern that is matched. -/
theorem exists_attempts (hne : pat ≠ []) (h : List α) :
    ∃ d, Attempts pat d ∧ h = d ++ pat.take (position pat h) := by
  induction h using List.reverseRecOn with
  | nil => exact ⟨[], attempts_nil, rfl⟩
  | append_singleton h a ih =>
    obtain ⟨d, hd, hh⟩ := ih
    have hlt := position_lt hne h
    rw [position_concat]
    unfold advance
    by_cases hm : pat[position pat h]? = some a
    · have htake : pat.take (position pat h + 1) = pat.take (position pat h) ++ [a] := by
        rw [List.take_add_one, hm]
        rfl
      have hstream : h ++ [a] = d ++ pat.take (position pat h + 1) := by
        rw [htake, ← List.append_assoc, ← hh]
      by_cases hend : position pat h + 1 = pat.length
      · refine ⟨d ++ pat, hd.concat (Or.inl rfl), ?_⟩
        rw [hstream, if_pos hm, if_pos hend, hend]
        simp
      · refine ⟨d, hd, ?_⟩
        rw [hstream, if_pos hm, if_neg hend]
    · refine ⟨d ++ (pat.take (position pat h) ++ [a]), hd.concat (Or.inr ⟨_, a, hlt, hm, rfl⟩), ?_⟩
      rw [if_neg hm, ← List.append_assoc, ← hh]
      simp

/-- One more symbol keeps the matched part at the end of the stream. -/
theorem take_advance_suffix {k : ℕ} {h : List α} (hk : pat.take k <:+ h) (a : α) :
    pat.take (advance pat k a) <:+ h ++ [a] := by
  unfold advance
  by_cases hm : pat[k]? = some a
  · have htake : pat.take (k + 1) = pat.take k ++ [a] := by
      rw [List.take_add_one, hm]
      rfl
    rw [if_pos hm]
    split
    · exact List.nil_suffix
    · obtain ⟨d, rfl⟩ := hk
      exact ⟨d, by rw [htake, List.append_assoc]⟩
  · rw [if_neg hm]
    exact List.nil_suffix

/-- From the beginning a prefix of the pattern is followed symbol by symbol. -/
theorem foldl_take {k : ℕ} (hk : k < pat.length) : (pat.take k).foldl (advance pat) 0 = k := by
  induction k with
  | zero => rfl
  | succ k ih =>
    have hk' : k < pat.length := by omega
    have hget : pat[k]? = some pat[k] := List.getElem?_eq_getElem hk'
    rw [List.take_add_one, hget, List.foldl_append, ih hk']
    show advance pat k pat[k] = k + 1
    rw [advance, if_pos hget, if_neg (by omega)]

theorem foldl_attempt (hne : pat ≠ []) {a : List α} (ha : Attempt pat a) :
    a.foldl (advance pat) 0 = 0 := by
  have hpos : 0 < pat.length := List.length_pos_iff.mpr hne
  rcases ha with rfl | ⟨k, b, hk, hb, rfl⟩
  · have hlast : a.length - 1 < a.length := by omega
    have hget : a[a.length - 1]? = some a[a.length - 1] := List.getElem?_eq_getElem hlast
    have hsplit : a = a.take (a.length - 1) ++ [a[a.length - 1]] := by
      have := List.take_add_one (l := a) (i := a.length - 1)
      rw [hget, show a.length - 1 + 1 = a.length by omega, List.take_length] at this
      exact this
    calc a.foldl (advance a) 0
        = (a.take (a.length - 1) ++ [a[a.length - 1]]).foldl (advance a) 0 := by rw [← hsplit]
      _ = advance a (a.length - 1) a[a.length - 1] := by
          rw [List.foldl_append, foldl_take hlast]
          rfl
      _ = 0 := by rw [advance, if_pos hget, if_pos (by omega)]
  · rw [List.foldl_append, foldl_take hk]
    show advance pat k b = 0
    rw [advance, if_neg hb]

/-- The matcher is at the beginning exactly after whole attempts. -/
theorem position_eq_zero_iff (hne : pat ≠ []) (h : List α) :
    position pat h = 0 ↔ Attempts pat h := by
  constructor
  · intro h0
    obtain ⟨d, hd, hh⟩ := exists_attempts hne h
    rw [h0, List.take_zero, List.append_nil] at hh
    exact hh ▸ hd
  · rintro ⟨as, has, rfl⟩
    induction as with
    | nil => rfl
    | cons a as ih =>
      rw [List.flatten_cons, position, List.foldl_append,
        foldl_attempt hne (has a (List.mem_cons_self ..))]
      exact ih fun x hx => has x (List.mem_cons_of_mem _ hx)

/-- At the beginning, symbols that do not start the pattern leave the matcher there. -/
theorem foldl_no_start {l : List α} (hl : ∀ a ∈ l, pat[0]? ≠ some a) :
    l.foldl (advance pat) 0 = 0 := by
  induction l with
  | nil => rfl
  | cons a l ih =>
    rw [List.foldl_cons, advance, if_neg (hl a (List.mem_cons_self ..))]
    exact ih fun x hx => hl x (List.mem_cons_of_mem _ hx)

/-- A matcher that is inside the pattern misses a copy of it that starts now, when the
first symbol of the pattern occurs in it only once: it spends that symbol on the mismatch. -/
theorem position_append_missed {a : α} {l : List α} (ha : a ∉ l) {h : List α}
    (hin : position (a :: l) h ≠ 0) {m : List α} (hm : m <+: l) :
    position (a :: l) (h ++ a :: m) = 0 := by
  have hmiss : advance (a :: l) (position (a :: l) h) a = 0 := by
    obtain ⟨k, hk⟩ : ∃ k, position (a :: l) h = k + 1 := Nat.exists_eq_succ_of_ne_zero hin
    rw [hk, advance, if_neg]
    intro hget
    rw [List.getElem?_cons_succ] at hget
    exact ha (List.mem_of_getElem? hget)
  rw [position_append, List.foldl_cons, hmiss]
  refine foldl_no_start fun b hb hstart => ?_
  have hba : a = b := by simpa using hstart
  exact ha (hba ▸ hm.subset hb)

end Svec.Data.Matcher
