/-
  Data/Text.lean --- printed numbers, and what can be read back from them.

  Text is a list of characters.  A format delimits its values if what is printed for
  a value can be cut off from whatever is printed after it; formats of one width do,
  and so do formats that end in a character that they do not contain.  With these
  the values of a whole line are found again, one after the other.

  A string of bytes ends at its first NUL, or where its buffer ends.
-/
import Mathlib.Data.List.Basic
import Svec.Data.Bits

set_option autoImplicit false

namespace Svec.Data

variable {α γ : Type}

/-! ## Formats -/

/-- What `f` puts out for a value can be cut off from what follows. -/
def Delimits (f : α → List γ) : Prop :=
  ∀ {a b : α} {s t : List γ}, f a ++ s = f b ++ t → a = b ∧ s = t

/-- A format of one width. -/
theorem delimits_of_length {f : α → List γ} {n : ℕ} (hf : Function.Injective f)
    (hlen : ∀ a, (f a).length = n) : Delimits f := by
  intro a b s t h
  obtain ⟨hab, hst⟩ := List.append_inj h ((hlen a).trans (hlen b).symm)
  exact ⟨hf hab, hst⟩

/-- A list is cut at the first place where an element stands. -/
theorem append_cons_inj {c : γ} {l l' s t : List γ} (hl : c ∉ l) (hl' : c ∉ l')
    (h : l ++ c :: s = l' ++ c :: t) : l = l' ∧ s = t := by
  induction l generalizing l' with
  | nil =>
    cases l' with
    | nil => exact ⟨rfl, (List.cons.inj h).2⟩
    | cons d l' => exact absurd ((List.cons.inj h).1 ▸ List.mem_cons_self) hl'
  | cons d l ih =>
    cases l' with
    | nil => exact absurd ((List.cons.inj h).1 ▸ List.mem_cons_self) hl
    | cons d' l' =>
      obtain ⟨rfl, hrest⟩ := List.cons.inj h
      obtain ⟨rfl, hst⟩ := ih (List.not_mem_of_not_mem_cons hl) (List.not_mem_of_not_mem_cons hl') hrest
      exact ⟨rfl, hst⟩

/-- A format that ends in a character that it does not contain. -/
theorem delimits_of_end {f : α → List γ} {c : γ} (hf : Function.Injective f) (hc : ∀ a, c ∉ f a) :
    Delimits fun a => f a ++ [c] := by
  intro a b s t h
  simp only [List.append_assoc, List.singleton_append] at h
  obtain ⟨hab, hst⟩ := append_cons_inj (hc a) (hc b) h
  exact ⟨hf hab, hst⟩

/-- A list of values, each delimited. -/
theorem flatMap_injective {f : α → List γ} (h : Delimits f) (hne : ∀ a, f a ≠ []) :
    Function.Injective fun l : List α => l.flatMap f := by
  intro l
  induction l with
  | nil =>
    intro l' hl
    cases l' with
    | nil => rfl
    | cons b l' => exact absurd (List.append_eq_nil_iff.mp hl.symm).1 (hne b)
  | cons a l ih =>
    intro l' hl
    cases l' with
    | nil => exact absurd (List.append_eq_nil_iff.mp hl).1 (hne a)
    | cons b l' =>
      obtain ⟨rfl, hrest⟩ := h hl
      rw [ih hrest]

/-! ## Hexadecimal numbers -/

/-- Text. -/
abbrev Text := List Char

/-- A byte as two hexadecimal digits. -/
def hexByte (b : Byte) : Text := [Nat.digitChar (b.toNat / 16), Nat.digitChar (b.toNat % 16)]

/-- Bytes without a separator, `%*phN` of the kernel. -/
def hexBytes (l : List Byte) : Text := l.flatMap hexByte

/-- Eight hexadecimal digits, `%08x`. -/
def hex8 (w : Word) : Text := hexBytes (beBytes w)

theorem digitChar_inj {m n : ℕ} (hm : m < 16) (hn : n < 16) (h : Nat.digitChar m = Nat.digitChar n) :
    m = n := by
  have hall : ∀ m < 16, ∀ n < 16, Nat.digitChar m = Nat.digitChar n → m = n := by decide
  exact hall m hm n hn h

theorem hexByte_injective : Function.Injective hexByte := by
  intro a b h
  simp only [hexByte, List.cons.injEq, and_true] at h
  have ha := a.isLt
  have hb := b.isLt
  have hhigh := digitChar_inj (by omega) (by omega) h.1
  have hlow := digitChar_inj (by omega) (by omega) h.2
  apply BitVec.eq_of_toNat_eq
  omega

theorem hexByte_delimits : Delimits hexByte := delimits_of_length (n := 2) hexByte_injective fun _ => rfl

theorem hexBytes_injective : Function.Injective hexBytes :=
  flatMap_injective hexByte_delimits fun _ => List.cons_ne_nil _ _

@[simp] theorem length_hex8 (w : Word) : (hex8 w).length = 8 := rfl

theorem hex8_injective : Function.Injective hex8 := hexBytes_injective.comp beBytes_injective

theorem hex8_delimits : Delimits hex8 := delimits_of_length hex8_injective length_hex8

/-! ## Decimal numbers -/

/-- A decimal number, `%u`. -/
def dec (n : ℕ) : Text := Nat.toDigits 10 n

theorem dec_injective : Function.Injective dec := by
  intro m n h
  rw [← Nat.ofDigitChars_ten_toDigits (n := m), ← Nat.ofDigitChars_ten_toDigits (n := n)]
  exact congrArg (Nat.ofDigitChars 10 · 0) h

/-- A decimal number, ended by a character that is not a digit. -/
theorem dec_delimits {c : Char} (hc : c.isDigit = false) : Delimits fun n => dec n ++ [c] := by
  refine delimits_of_end dec_injective fun n hmem => ?_
  have hdigit := Nat.isDigit_of_mem_toDigits (by decide) (by decide) hmem
  rw [hc] at hdigit
  exact absurd hdigit (by decide)

/-! ## Strings -/

/-- The bytes of a literal. -/
def ascii (s : String) : List Byte := s.toList.map fun c => BitVec.ofNat 8 c.toNat

/-- A string up to its first NUL. -/
def cString (l : List Byte) : List Byte := l.takeWhile fun c => c ≠ 0#8

theorem cString_cons {c : Byte} (hc : c ≠ 0#8) (l : List Byte) : cString (c :: l) = c :: cString l :=
  List.takeWhile_cons_of_pos (decide_eq_true hc)

/-- A NUL in the first part hides the second. -/
theorem cString_append_of_mem {l : List Byte} (h : 0#8 ∈ l) (l' : List Byte) :
    cString (l ++ l') = cString l := by
  induction l with
  | nil => exact absurd h List.not_mem_nil
  | cons c l ih =>
    by_cases hc : c = 0#8
    · subst hc
      rfl
    · have hl : 0#8 ∈ l := (List.mem_cons.mp h).resolve_left (Ne.symm hc)
      rw [List.cons_append, cString_cons hc, cString_cons hc, ih hl]

theorem cString_append_of_not_mem {l : List Byte} (h : 0#8 ∉ l) (l' : List Byte) :
    cString (l ++ l') = l ++ cString l' :=
  List.takeWhile_append_of_pos fun _ hc => decide_eq_true fun heq => h (heq ▸ hc)

/-- What a buffer of `n` bytes shows of a string that is padded with NULs. -/
theorem cString_padded (s : List Byte) (n : ℕ) :
    cString ((List.range n).map fun i => s.getD i 0#8) = cString (s.take n) := by
  induction n generalizing s with
  | zero => rfl
  | succ n ih =>
    rw [List.range_succ_eq_map, List.map_cons, List.map_map]
    cases s with
    | nil => rfl
    | cons c s =>
      show cString (c :: (List.range n).map fun i => s.getD i 0#8) = cString (c :: s.take n)
      by_cases hc : c = 0#8
      · subst hc
        rfl
      · rw [cString_cons hc, cString_cons hc, ih]

end Svec.Data
