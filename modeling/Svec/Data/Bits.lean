/-
  Data/Bits.lean --- 32-bit words as bytes and as bit streams.

  A word is read here in three ways: as the four bytes a big-endian reader sees,
  as the word a little-endian host loads from four bytes of memory, and as the
  bit stream a shift register puts out, most significant bit first.  The lemmas
  say how the three readings fit together; nothing here names a particular
  device.
-/
import Mathlib.Tactic.Common
import Mathlib.Data.List.Basic
import Mathlib.Algebra.Ring.Nat

set_option autoImplicit false

namespace Svec.Data

/-- A byte. -/
abbrev Byte := BitVec 8

/-- A 32-bit word. -/
abbrev Word := BitVec 32

/-! ## Bytes -/

/-- The bytes of a word, most significant byte first. -/
def beBytes (w : Word) : List Byte :=
  [w.extractLsb' 24 8, w.extractLsb' 16 8, w.extractLsb' 8 8, w.extractLsb' 0 8]

/-- The bytes of a word, least significant byte first. -/
def leBytes (w : Word) : List Byte :=
  [w.extractLsb' 0 8, w.extractLsb' 8 8, w.extractLsb' 16 8, w.extractLsb' 24 8]

/-- The word with the given bytes, most significant byte first. -/
def ofBytes (b3 b2 b1 b0 : Byte) : Word := b3 ++ b2 ++ b1 ++ b0

/-- The word with its four bytes in the opposite order: `htonl` and `ntohl` of a
little-endian host. -/
def byteSwap (w : Word) : Word :=
  ofBytes (w.extractLsb' 0 8) (w.extractLsb' 8 8) (w.extractLsb' 16 8) (w.extractLsb' 24 8)

@[simp] theorem length_beBytes (w : Word) : (beBytes w).length = 4 := rfl

@[simp] theorem length_leBytes (w : Word) : (leBytes w).length = 4 := rfl

theorem getLsbD_ofBytes (b3 b2 b1 b0 : Byte) (i : ℕ) :
    (ofBytes b3 b2 b1 b0).getLsbD i =
      if i < 8 then b0.getLsbD i
      else if i < 16 then b1.getLsbD (i - 8)
      else if i < 24 then b2.getLsbD (i - 16)
      else b3.getLsbD (i - 24) := by
  simp only [ofBytes, BitVec.getLsbD_append]
  by_cases h0 : i < 8
  · simp [h0]
  · by_cases h1 : i < 16
    · have : i - 8 < 8 := by omega
      simp [h0, h1, this]
    · by_cases h2 : i < 24
      · have h3 : ¬ i - 8 < 8 := by omega
        have h4 : i - 8 - 8 < 8 := by omega
        have h5 : i - 8 - 8 = i - 16 := by omega
        simp [h0, h1, h2, h3, h5, show i - 16 < 8 by omega]
      · have h3 : ¬ i - 8 < 8 := by omega
        have h4 : ¬ i - 8 - 8 < 8 := by omega
        have h5 : i - 8 - 8 - 8 = i - 24 := by omega
        simp [h0, h1, h2, h3, h4, h5]

/-- Reading back the bytes a word was made of. -/
theorem beBytes_ofBytes (b3 b2 b1 b0 : Byte) : beBytes (ofBytes b3 b2 b1 b0) = [b3, b2, b1, b0] := by
  unfold beBytes
  congr 1
  · apply BitVec.eq_of_getLsbD_eq
    intro i hi
    simp [getLsbD_ofBytes, hi, show ¬ 24 + i < 8 by omega,
      show ¬ 24 + i < 16 by omega, show ¬ 24 + i < 24 by omega]
  congr 1
  · apply BitVec.eq_of_getLsbD_eq
    intro i hi
    simp [getLsbD_ofBytes, hi, show ¬ 16 + i < 8 by omega,
      show ¬ 16 + i < 16 by omega, show 16 + i < 24 by omega]
  congr 1
  · apply BitVec.eq_of_getLsbD_eq
    intro i hi
    simp [getLsbD_ofBytes, hi, show ¬ 8 + i < 8 by omega,
      show 8 + i < 16 by omega]
  congr 1
  · apply BitVec.eq_of_getLsbD_eq
    intro i hi
    simp [getLsbD_ofBytes, hi]

/-- A big-endian reader of the swapped word sees the bytes of the word the other way
round. -/
theorem beBytes_byteSwap (w : Word) : beBytes (byteSwap w) = leBytes w := by
  rw [byteSwap, beBytes_ofBytes, leBytes]

/-- A word is made of its own bytes. -/
theorem ofBytes_extract (w : Word) :
    ofBytes (w.extractLsb' 24 8) (w.extractLsb' 16 8) (w.extractLsb' 8 8) (w.extractLsb' 0 8) = w := by
  apply BitVec.eq_of_getLsbD_eq
  intro i hi
  rw [getLsbD_ofBytes]
  simp only [BitVec.getLsbD_extractLsb']
  split
  · simp [*]
  · split
    · simp [show i - 8 < 8 by omega, show 8 + (i - 8) = i by omega]
    · split
      · simp [show i - 16 < 8 by omega, show 16 + (i - 16) = i by omega]
      · simp [show i - 24 < 8 by omega, show 24 + (i - 24) = i by omega]

/-- Swapping twice changes nothing. -/
theorem byteSwap_byteSwap (w : Word) : byteSwap (byteSwap w) = w := by
  have h := beBytes_byteSwap w
  simp only [beBytes, leBytes, List.cons.injEq, and_true] at h
  obtain ⟨h3, h2, h1, h0⟩ := h
  rw [byteSwap.eq_def (byteSwap w), h0, h1, h2, h3, ofBytes_extract]

/-- What a little-endian host loads from four bytes of memory, sent most significant
byte first after a swap, is those four bytes in memory order. -/
theorem beBytes_byteSwap_ofBytes (b3 b2 b1 b0 : Byte) :
    beBytes (byteSwap (ofBytes b3 b2 b1 b0)) = [b0, b1, b2, b3] := by
  have h := beBytes_ofBytes b3 b2 b1 b0
  simp only [beBytes, List.cons.injEq, and_true] at h
  obtain ⟨h3, h2, h1, h0⟩ := h
  rw [byteSwap, beBytes_ofBytes, h0, h1, h2, h3]

theorem byteSwap_ofBytes (b3 b2 b1 b0 : Byte) : byteSwap (ofBytes b3 b2 b1 b0) = ofBytes b0 b1 b2 b3 := by
  have h := beBytes_ofBytes b3 b2 b1 b0
  simp only [beBytes, List.cons.injEq, and_true] at h
  obtain ⟨h3, h2, h1, h0⟩ := h
  rw [byteSwap, h3, h2, h1, h0]

theorem leBytes_byteSwap (w : Word) : leBytes (byteSwap w) = beBytes w := by
  rw [← beBytes_byteSwap, byteSwap_byteSwap]

/-- A word is found again from its bytes. -/
theorem beBytes_injective : Function.Injective beBytes := by
  intro v w h
  simp only [beBytes, List.cons.injEq, and_true] at h
  obtain ⟨h3, h2, h1, h0⟩ := h
  rw [← ofBytes_extract v, ← ofBytes_extract w, h3, h2, h1, h0]

/-! ## Bit streams -/

/-- The bits of a byte, most significant bit first. -/
def byteBits (b : Byte) : List Bool := (List.range 8).map fun i => b.getMsbD i

/-- The `n` most significant bits of a word, in that order. -/
def topBits (n : ℕ) (w : Word) : List Bool := (List.range n).map fun i => w.getMsbD i

/-- One shift towards the most significant end that leaves bit 0 where it is. -/
def shiftUp (w : Word) : Word := w.extractLsb' 0 31 ++ w.extractLsb' 0 1

@[simp] theorem topBits_zero (w : Word) : topBits 0 w = [] := rfl

@[simp] theorem length_topBits (n : ℕ) (w : Word) : (topBits n w).length = n := by
  simp [topBits]

@[simp] theorem length_byteBits (b : Byte) : (byteBits b).length = 8 := by
  simp [byteBits]

theorem getMsbD_shiftUp (w : Word) {i : ℕ} (h : i < 31) :
    (shiftUp w).getMsbD i = w.getMsbD (i + 1) := by
  have h1 : ¬ 31 - i = 0 := by omega
  simp only [BitVec.getMsbD, shiftUp, BitVec.getLsbD_append, BitVec.getLsbD_extractLsb']
  simp only [show i < 32 by omega, show i + 1 < 32 by omega, decide_true, Bool.true_and,
    show ¬ 31 + 1 - 1 - i < 1 by omega, if_false, show 31 + 1 - 1 - i - 1 < 31 by omega,
    Nat.zero_add, show 32 - 1 - (i + 1) = 31 + 1 - 1 - i - 1 by omega]

/-- A shift register puts out its top bit and keeps the rest of the stream. -/
theorem topBits_succ {n : ℕ} (h : n < 32) (w : Word) :
    topBits (n + 1) w = w.msb :: topBits n (shiftUp w) := by
  unfold topBits
  rw [List.range_succ_eq_map, List.map_cons, List.map_map, BitVec.msb]
  congr 1
  apply List.map_congr_left
  intro i hi
  rw [List.mem_range] at hi
  exact (getMsbD_shiftUp w (by omega)).symm

/-- The top bits of a word, eight at a time, are its bytes from the most significant
one down. -/
theorem topBits_eq_beBytes (w : Word) {k : ℕ} (hk : k ≤ 4) :
    topBits (8 * k) w = ((beBytes w).take k).flatMap byteBits := by
  have hbyte : ∀ j, j < 4 → ∀ i, i < 8 →
      w.getMsbD (8 * j + i) = (w.extractLsb' (24 - 8 * j) 8).getMsbD i := by
    intro j hj i hi
    simp only [BitVec.getMsbD, BitVec.getLsbD_extractLsb', hi, decide_true, Bool.true_and,
      show 8 * j + i < 32 by omega, show 8 - 1 - i < 8 by omega]
    congr 1
    omega
  have hchunk : ∀ j, j < 4 → topBits (8 * (j + 1)) w =
      topBits (8 * j) w ++ byteBits (w.extractLsb' (24 - 8 * j) 8) := by
    intro j hj
    unfold topBits byteBits
    rw [show 8 * (j + 1) = 8 * j + 8 by omega, List.range_add, List.map_append, List.map_map]
    congr 1
    apply List.map_congr_left
    intro i hi
    rw [List.mem_range] at hi
    exact hbyte j hj i hi
  have h0 : topBits (8 * 0) w = [] := rfl
  have h1 := hchunk 0 (by omega)
  have h2 := hchunk 1 (by omega)
  have h3 := hchunk 2 (by omega)
  have h4 := hchunk 3 (by omega)
  match k, hk with
  | 0, _ => rfl
  | 1, _ => rw [h1, h0]; simp [beBytes]
  | 2, _ => rw [h2, h1, h0]; simp [beBytes]
  | 3, _ => rw [h3, h2, h1, h0]; simp [beBytes]
  | 4, _ => rw [h4, h3, h2, h1, h0]; simp [beBytes]

/-! ## Counters -/

theorem ofNat_succ_ne_zero {w n : ℕ} (h : n + 1 < 2 ^ w) : BitVec.ofNat w (n + 1) ≠ 0#w := by
  intro heq
  have hnat := congrArg BitVec.toNat heq
  rw [BitVec.toNat_ofNat, Nat.mod_eq_of_lt h] at hnat
  exact absurd hnat (Nat.succ_ne_zero n)

/-- A down counter. -/
theorem ofNat_succ_sub_one (w n : ℕ) : BitVec.ofNat w (n + 1) - 1#w = BitVec.ofNat w n := by
  rw [BitVec.ofNat_add, BitVec.add_sub_cancel]

/-- A down counter that has not reached zero. -/
theorem sub_one_toNat {w : ℕ} {x : BitVec w} (h : x ≠ 0#w) : (x - 1#w).toNat + 1 = x.toNat := by
  have hpos : 1 ≤ x.toNat := by
    rcases Nat.eq_zero_or_pos x.toNat with hz | hpos
    · exact absurd (BitVec.eq_of_toNat_eq (by rw [hz, BitVec.toNat_zero])) h
    · exact hpos
  have hlt := x.isLt
  rw [BitVec.toNat_sub_of_le]
  · rw [BitVec.toNat_ofNat, Nat.mod_eq_of_lt (by omega)]
    omega
  · rw [BitVec.le_def, BitVec.toNat_ofNat, Nat.mod_eq_of_lt (by omega)]
    exact hpos

/-- An up counter that does not overflow. -/
theorem add_one_toNat {w : ℕ} {x : BitVec w} (h : x.toNat + 1 < 2 ^ w) :
    (x + 1#w).toNat = x.toNat + 1 := by
  have hw : 1 < 2 ^ w := by omega
  rw [BitVec.toNat_add, BitVec.toNat_ofNat, Nat.mod_eq_of_lt hw, Nat.mod_eq_of_lt h]

/-- The three bytes of a flash address make the address. -/
theorem address_bytes (a : BitVec 24) :
    a.extractLsb' 16 8 ++ a.extractLsb' 8 8 ++ a.extractLsb' 0 8 = a := by
  apply BitVec.eq_of_getLsbD_eq
  intro k hk
  simp only [BitVec.getLsbD_append, BitVec.getLsbD_extractLsb']
  by_cases h0 : k < 8
  · simp [h0]
  · by_cases h1 : k - 8 < 8
    · simp [h0, h1, show 8 + (k - 8) = k by omega]
    · simp [h0, h1, show 16 + (k - 8 - 8) = k by omega, show k - 8 - 8 < 8 by omega]

end Svec.Data
