import Mathlib.Data.List.Basic

set_option autoImplicit false

-- String#to_i and Integer#to_s. to_i takes what it can from the front of a text
-- and never fails.
namespace Numeral

abbrev Text := List Char

def isSpace (c : Char) : Bool := c == ' ' || (9 ≤ c.toNat && c.toNat ≤ 13)

-- needsDigit holds at the start and right after an underscore.
def digits (acc : Nat) (needsDigit : Bool) : Text → Nat
  | [] => acc
  | c :: rest =>
      if c.isDigit then digits (10 * acc + (c.toNat - '0'.toNat)) false rest
      else if c = '_' ∧ needsDigit = false then digits acc true rest
      else acc

def magnitude : Text → Nat
  | '0' :: 'd' :: rest | '0' :: 'D' :: rest => digits 0 true rest
  | text => digits 0 true text

def signed : Text → Int
  | '+' :: rest => magnitude rest
  | '-' :: rest => -(magnitude rest : Int)
  | text => magnitude text

def toI (text : Text) : Int := signed (text.dropWhile isSpace)

def toS : Int → Text
  | .ofNat n => Nat.toDigits 10 n
  | .negSucc n => '-' :: Nat.toDigits 10 (n + 1)

-- The tail neither goes on with the number nor makes a prefix of it.
def Stops (tail : Text) : Prop := ∀ c, tail.head? = some c → c.isDigit = false ∧ c ≠ '_' ∧ c ≠ 'd' ∧ c ≠ 'D'

theorem stops_nil : Stops [] := fun _ head => nomatch head

theorem digits_stop (acc : Nat) (needsDigit : Bool) (tail : Text) (stops : Stops tail) : digits acc needsDigit tail = acc := by
  cases tail with
  | nil => rfl
  | cons c rest =>
      obtain ⟨noDigit, noGap, -⟩ := stops c rfl
      simp [digits, noDigit, noGap]

theorem digits_append (acc : Nat) (needsDigit : Bool) (front tail : Text) (all : ∀ c ∈ front, c.isDigit = true)
    (stops : Stops tail) : digits acc needsDigit (front ++ tail) = Nat.ofDigitChars 10 front acc := by
  induction front generalizing acc needsDigit with
  | nil => rw [List.nil_append, digits_stop acc needsDigit tail stops, Nat.ofDigitChars_nil]
  | cons c rest ih =>
      rw [List.cons_append, digits, if_pos (all c List.mem_cons_self), Nat.ofDigitChars_cons]
      exact ih _ _ fun other member => all other (List.mem_cons_of_mem c member)

theorem decimal_digits (n : Nat) : ∀ c ∈ Nat.toDigits 10 n, c.isDigit = true :=
  fun _ member => Nat.isDigit_of_mem_toDigits (by decide) (by decide) member

theorem decimal_cons (n : Nat) : ∃ c rest, c.isDigit = true ∧ Nat.toDigits 10 n = c :: rest := by
  obtain ⟨c, rest, shape⟩ := List.exists_cons_of_ne_nil (Nat.toDigits_ne_nil (n := n) (b := 10))
  exact ⟨c, rest, decimal_digits n c (shape ▸ List.mem_cons_self), shape⟩

theorem magnitude_decimal (n : Nat) (tail : Text) (stops : Stops tail) : magnitude (Nat.toDigits 10 n ++ tail) = n := by
  have read : digits 0 true (Nat.toDigits 10 n ++ tail) = n := by
    rw [digits_append 0 true _ tail (decimal_digits n) stops, Nat.ofDigitChars_ten_toDigits]
  obtain ⟨c, rest, -, shape⟩ := decimal_cons n
  have digit := decimal_digits n
  rw [shape] at read digit ⊢
  -- the second character is a digit or the first of the tail
  have second : ∀ d more, rest ++ tail = d :: more → d ≠ 'd' ∧ d ≠ 'D' := by
    intro d more same
    cases rest with
    | nil => exact (stops d (by rw [← List.nil_append tail, same]; rfl)).2.2
    | cons e others =>
        obtain ⟨rfl, -⟩ := List.cons.inj same
        have isDigit := digit e (by simp)
        exact ⟨fun same => absurd isDigit (by simp [same]), fun same => absurd isDigit (by simp [same])⟩
  rw [List.cons_append] at read ⊢
  unfold magnitude
  split
  · rename_i shape
    exact absurd rfl (second _ _ (List.cons.inj shape).2).1
  · rename_i shape
    exact absurd rfl (second _ _ (List.cons.inj shape).2).2
  · exact read

theorem digit_visible (c : Char) (digit : c.isDigit = true) : isSpace c = false ∧ c ≠ '+' ∧ c ≠ '-' := by
  have range : 48 ≤ c.toNat ∧ c.toNat ≤ 57 := by simpa [Char.isDigit, UInt32.le_iff_toNat_le] using digit
  have other : ∀ d : Char, d.isDigit = false → c ≠ d := fun d no same => absurd (same ▸ digit) (by simp [no])
  refine ⟨?_, other '+' rfl, other '-' rfl⟩
  have blank := other ' ' rfl
  simp [isSpace, blank]
  omega

theorem to_i_decimal (n : Nat) (tail : Text) (stops : Stops tail) : toI (Nat.toDigits 10 n ++ tail) = n := by
  have read := magnitude_decimal n tail stops
  obtain ⟨c, rest, digit, shape⟩ := decimal_cons n
  obtain ⟨visible, noPlus, noMinus⟩ := digit_visible c digit
  rw [shape, List.cons_append] at read ⊢
  rw [toI, List.dropWhile_cons_of_neg (by simp [visible])]
  unfold signed
  split
  · rename_i same
    exact absurd (List.cons.inj same).1 noPlus
  · rename_i same
    exact absurd (List.cons.inj same).1 noMinus
  · rw [read]

-- What to_s writes, to_i reads, whatever follows the number.
theorem to_i_to_s (i : Int) (tail : Text) (stops : Stops tail) : toI (toS i ++ tail) = i := by
  cases i with
  | ofNat n => exact to_i_decimal n tail stops
  | negSucc n =>
      have read := magnitude_decimal (n + 1) tail stops
      rw [toS, List.cons_append, toI, List.dropWhile_cons_of_neg (by decide), signed, read]
      rfl

theorem to_s_visible (i : Int) : toS i ≠ [] ∧ ∀ c ∈ toS i, isSpace c = false := by
  cases i with
  | ofNat n => exact ⟨Nat.toDigits_ne_nil, fun c member => (digit_visible c (decimal_digits n c member)).1⟩
  | negSucc n =>
      refine ⟨List.cons_ne_nil _ _, fun c member => ?_⟩
      rcases List.mem_cons.mp member with rfl | inside
      · rfl
      · exact (digit_visible c (decimal_digits (n + 1) c inside)).1

theorem string_decimal (n : Nat) : (toString n).toList = toS n := Nat.toList_repr

theorem string_to_s (i : Int) : (toString i).toList = toS i := by
  cases i with
  | ofNat n => exact string_decimal n
  | negSucc n => exact (String.toList_append).trans (congrArg ('-' :: ·) Nat.toList_repr)

end Numeral
