/-
  Data/Cursor.lean --- memories behind a cursor.

  A memory of words is reached through a cursor: an access takes place where the
  cursor stands, and the cursor moves on.  The addresses are words themselves, so the
  cursor can be asked for.  Several such memories side by side are a family of them.
-/
import Mathlib.Logic.Function.Iterate
import Mathlib.Data.List.Basic

set_option autoImplicit false

namespace Svec.Data

/-- A memory and its cursor. -/
structure CursorMem (W : Type) where
  cursor : W
  cell : W → W

/-- An access to one of a family of memories. -/
inductive CursorOp (ι W : Type) where
  | seek (b : ι) (a : W)
  | tell (b : ι)
  | put (b : ι) (w : W)
  | get (b : ι)

namespace CursorOp

variable {ι W : Type} [DecidableEq ι] [DecidableEq W] (next : W → W)

/-- What the access returns. -/
def answer (m : ι → CursorMem W) : CursorOp ι W → Option W
  | seek _ _ => none
  | tell b => some (m b).cursor
  | put _ _ => none
  | get b => some ((m b).cell (m b).cursor)

/-- The memories after the access. -/
def effect (m : ι → CursorMem W) : CursorOp ι W → ι → CursorMem W
  | seek b a => Function.update m b ⟨a, (m b).cell⟩
  | tell _ => m
  | put b w => Function.update m b ⟨next (m b).cursor, Function.update (m b).cell (m b).cursor w⟩
  | get b => Function.update m b ⟨next (m b).cursor, (m b).cell⟩

/-- The access is one to a cell of the memory. -/
def touches (b : ι) : CursorOp ι W → Bool
  | seek _ _ => false
  | tell _ => false
  | put b' _ => b' = b
  | get b' => b' = b

/-- The memories after a list of accesses. -/
def effects (m : ι → CursorMem W) (ops : List (CursorOp ι W)) : ι → CursorMem W :=
  ops.foldl (effect next) m

/-- What a list of accesses returns. -/
def answers (m : ι → CursorMem W) : List (CursorOp ι W) → List (Option W)
  | [] => []
  | op :: ops => answer m op :: answers (effect next m op) ops

variable {next} {m : ι → CursorMem W}

@[simp] theorem effects_nil : effects next m [] = m := rfl

@[simp] theorem effects_cons (op : CursorOp ι W) (ops : List (CursorOp ι W)) :
    effects next m (op :: ops) = effects next (effect next m op) ops := rfl

theorem effects_append (ops ops' : List (CursorOp ι W)) :
    effects next m (ops ++ ops') = effects next (effects next m ops) ops' := List.foldl_append

theorem answers_append (ops ops' : List (CursorOp ι W)) :
    answers next m (ops ++ ops') = answers next m ops ++ answers next (effects next m ops) ops' := by
  induction ops generalizing m with
  | nil => rfl
  | cons op ops ih => simp [answers, ih]

/-- A word is where the cursor stood. -/
theorem put_cell (b : ι) (w : W) : (effect next m (put b w) b).cell (m b).cursor = w := by
  simp [effect]

/-! ## Writing and reading back -/

/-- Words one after the other. -/
def puts (b : ι) (ws : List W) : List (CursorOp ι W) := ws.map (put b)

/-- As many words one after the other. -/
def gets (b : ι) (n : ℕ) : List (CursorOp ι W) := List.replicate n (get b)

/-- Words are written from an address on, and read back from there. -/
def copy (b : ι) (a : W) (ws : List W) : List (CursorOp ι W) :=
  seek b a :: puts b ws ++ seek b a :: gets b ws.length

theorem puts_cursor (b : ι) (ws : List W) :
    (effects next m (puts b ws) b).cursor = next^[ws.length] (m b).cursor := by
  induction ws generalizing m with
  | nil => rfl
  | cons w ws ih =>
    rw [puts, List.map_cons, effects_cons, ← puts, ih]
    simp [effect]

/-- The cells that the cursor does not come to stay. -/
theorem puts_frame (b : ι) (ws : List W) {x : W} (hx : ∀ k < ws.length, next^[k] (m b).cursor ≠ x) :
    (effects next m (puts b ws) b).cell x = (m b).cell x := by
  induction ws generalizing m with
  | nil => rfl
  | cons w ws ih =>
    have hne : x ≠ (m b).cursor := fun h => hx 0 (Nat.succ_pos _) h.symm
    rw [puts, List.map_cons, effects_cons, ← puts, ih]
    · simp [effect, Function.update_of_ne hne]
    · intro k hk
      have hnext := hx (k + 1) (Nat.succ_lt_succ hk)
      simpa [effect] using hnext

/-- The cells that it comes to once hold what was written there. -/
theorem puts_cell (b : ι) (ws : List W)
    (hinj : ∀ i < ws.length, ∀ j < ws.length, next^[i] (m b).cursor = next^[j] (m b).cursor → i = j)
    {k : ℕ} (hk : k < ws.length) :
    (effects next m (puts b ws) b).cell (next^[k] (m b).cursor) = ws[k] := by
  induction ws generalizing m k with
  | nil => exact absurd hk (Nat.not_lt_zero k)
  | cons w ws ih =>
    rw [puts, List.map_cons, effects_cons, ← puts]
    cases k with
    | zero =>
      rw [puts_frame]
      · simp [effect]
      · intro i hi heq
        have hzero := hinj (i + 1) (Nat.succ_lt_succ hi) 0 (Nat.succ_pos _) (by simpa [effect] using heq)
        omega
    | succ k =>
      have hstart : next^[k + 1] (m b).cursor = next^[k] (effect next m (put b w) b).cursor := by
        simp [effect]
      rw [hstart, ih]
      · rfl
      · intro i hi j hj heq
        have hsucc := hinj (i + 1) (Nat.succ_lt_succ hi) (j + 1) (Nat.succ_lt_succ hj)
          (by simpa [effect] using heq)
        omega

theorem answers_puts (b : ι) (ws : List W) :
    answers next m (puts b ws) = List.replicate ws.length none := by
  induction ws generalizing m with
  | nil => rfl
  | cons w ws ih =>
    rw [puts, List.map_cons, answers, ← puts, ih]
    rfl

theorem answers_gets (b : ι) (n : ℕ) :
    answers next m (gets b n) = (List.range n).map fun k => some ((m b).cell (next^[k] (m b).cursor)) := by
  induction n generalizing m with
  | zero => rfl
  | succ n ih =>
    rw [gets, List.replicate_succ, answers, ← gets, ih, List.range_succ_eq_map, List.map_cons, List.map_map]
    refine congrArg₂ _ rfl (List.map_congr_left fun k _ => ?_)
    simp [effect]

/-- What a copy returns: the cells that the words went to, in order. -/
theorem answers_copy (b : ι) (a : W) (ws : List W) :
    answers next m (copy b a ws) = none :: List.replicate ws.length none ++ none ::
      (List.range ws.length).map fun k =>
        some ((effects next (effect next m (seek b a)) (puts b ws) b).cell (next^[k] a)) := by
  rw [copy, List.cons_append, answers, answers_append, answers_puts, answers, answers_gets]
  simp [answer, effect]

/-- Words that find room are read back in order. -/
theorem answers_copy_of_room (b : ι) (a : W) (ws : List W)
    (hinj : ∀ i < ws.length, ∀ j < ws.length, next^[i] a = next^[j] a → i = j) :
    answers next m (copy b a ws) = none :: List.replicate ws.length none ++ none :: ws.map some := by
  rw [answers_copy]
  have hcursor : (effect next m (seek b a) b).cursor = a := by simp [effect]
  refine congrArg (fun l => none :: List.replicate ws.length none ++ none :: l)
    (List.ext_getElem (by simp) fun k hk _ => ?_)
  have hlt : k < ws.length := by simpa using hk
  have hcell : (effects next (effect next m (seek b a)) (puts b ws) b).cell (next^[k] a) = ws[k] := by
    rw [← hcursor] at hinj
    have hput := puts_cell b ws hinj hlt
    rwa [hcursor] at hput
  simp [hcell]

/-- Where the cursor comes back to its start, the last word is over the first. -/
theorem copy_wraps (b : ι) (a : W) (ws : List W) (w : W) (hwrap : next^[ws.length] a = a) :
    (effects next (effect next m (seek b a)) (puts b (ws ++ [w])) b).cell a = w := by
  have hcursor : (effects next (effect next m (seek b a)) (puts b ws) b).cursor = a := by
    rw [puts_cursor]
    simp [effect, hwrap]
  have hput := @put_cell ι W _ _ next (effects next (effect next m (seek b a)) (puts b ws)) b w
  rw [hcursor] at hput
  rw [puts, List.map_append, effects_append]
  exact hput

end CursorOp

end Svec.Data
