/-
  Data/Memory.lean --- 32-bit words in a memory of bytes.

  A word that lies in memory is read most or least significant byte first; which of
  the two a plain load does depends on the host.  The lemmas say how the readings of
  one memory fit together, and when a reader cannot tell them apart.
-/
import Mathlib.Logic.Function.Basic
import Svec.Data.Bits

set_option autoImplicit false

namespace Svec.Data

/-- A memory. -/
abbrev ByteMemory := ℕ → Byte

/-- A byte order. -/
inductive Endian where
  | little | big
  deriving DecidableEq, Repr

/-- The word at an address. -/
def load32 (e : Endian) (m : ByteMemory) (a : ℕ) : Word :=
  match e with
  | .little => ofBytes (m (a + 3)) (m (a + 2)) (m (a + 1)) (m a)
  | .big => ofBytes (m a) (m (a + 1)) (m (a + 2)) (m (a + 3))

/-- The bytes of a word in the memory of a host. -/
def storedBytes (e : Endian) (w : Word) : List Byte :=
  match e with
  | .little => leBytes w
  | .big => beBytes w

/-- A big-endian word that the host has loaded in its own order. -/
def fromBig (e : Endian) (w : Word) : Word :=
  match e with
  | .little => byteSwap w
  | .big => w

/-! ## The two byte orders -/

theorem load32_little (m : ByteMemory) (a : ℕ) : load32 .little m a = byteSwap (load32 .big m a) :=
  (byteSwap_ofBytes _ _ _ _).symm

theorem byteSwap_load32 (m : ByteMemory) (a : ℕ) : byteSwap (load32 .little m a) = load32 .big m a :=
  byteSwap_ofBytes _ _ _ _

/-- Whatever the host, the conversion makes the big-endian word of what it has loaded. -/
@[simp] theorem fromBig_load32 (e : Endian) (m : ByteMemory) (a : ℕ) :
    fromBig e (load32 e m a) = load32 .big m a := by
  cases e with
  | little => exact byteSwap_load32 m a
  | big => rfl

/-- The word is the same in both byte orders. -/
def Palindrome (w : Word) : Prop := byteSwap w = w

instance (w : Word) : Decidable (Palindrome w) := inferInstanceAs (Decidable (_ = _))

theorem load32_little_eq_big {m : ByteMemory} {a : ℕ} :
    load32 .little m a = load32 .big m a ↔ Palindrome (load32 .big m a) := by
  rw [load32_little, Palindrome]

/-! ## Words laid out in memory -/

/-- The memory with the given words from address 0 on, each most significant byte first. -/
def wordsAt (word : ℕ → Word) : ByteMemory :=
  fun a => (word (a / 4)).extractLsb' (8 * (3 - a % 4)) 8

theorem load32_wordsAt (word : ℕ → Word) (k : ℕ) : load32 .big (wordsAt word) (4 * k) = word k := by
  have hdiv : ∀ j, j < 4 → (4 * k + j) / 4 = k := fun j hj => by omega
  have hmod : ∀ j, j < 4 → (4 * k + j) % 4 = j := fun j hj => by omega
  have h0 : wordsAt word (4 * k) = (word k).extractLsb' 24 8 := by
    rw [wordsAt, Nat.mul_div_cancel_left k (by decide), Nat.mul_mod_right]
  rw [load32, h0, wordsAt, wordsAt, wordsAt, hdiv 1 (by decide), hdiv 2 (by decide), hdiv 3 (by decide),
    hmod 1 (by decide), hmod 2 (by decide), hmod 3 (by decide)]
  exact ofBytes_extract (word k)

/-! ## Copying -/

/-- Cells `0` to `n - 1` filled one after the other. -/
def fillCells {α : Type} (n : ℕ) (f cells : ℕ → α) : ℕ → α :=
  (List.range n).foldl (fun cells i => Function.update cells i (f i)) cells

theorem fillCells_apply {α : Type} (n : ℕ) (f cells : ℕ → α) (j : ℕ) :
    fillCells n f cells j = if j < n then f j else cells j := by
  induction n with
  | zero => rfl
  | succ n ih =>
    rw [fillCells, List.range_succ, List.foldl_append, ← fillCells, List.foldl_cons, List.foldl_nil]
    by_cases hj : j = n
    · subst hj
      rw [Function.update_self, if_pos (Nat.lt_succ_self j)]
    · have hlt : j < n + 1 ↔ j < n := by omega
      rw [Function.update_of_ne hj, ih]
      simp only [hlt]

/-- What was copied does not depend on what was there. -/
theorem fillCells_of_lt {α : Type} {n j : ℕ} (f cells : ℕ → α) (h : j < n) : fillCells n f cells j = f j := by
  rw [fillCells_apply, if_pos h]

end Svec.Data
