import Mathlib.Data.List.Basic
import Mathlib.Data.List.DropRight
import Mathlib.Tactic.IntervalCases

set_option autoImplicit false

-- Kernel#Integer on a string of bytes: surrounding blanks, a sign, a radix
-- prefix, and digits in which single underscores may separate digits.
namespace KernelInteger

abbrev Bytes := List UInt8

def isSpace (b : UInt8) : Bool := b == 32 || (9 ≤ b && b ≤ 13)

def digitValue (b : UInt8) : Option Nat :=
  if 48 ≤ b ∧ b ≤ 57 then some (b.toNat - 48)
  else if 65 ≤ b ∧ b ≤ 90 then some (b.toNat - 55)
  else if 97 ≤ b ∧ b ≤ 122 then some (b.toNat - 87)
  else none

def digitIn (base : Nat) (b : UInt8) : Option Nat :=
  (digitValue b).bind fun d => if d < base then some d else none

-- needsDigit holds at the start and right after an underscore.
def parseDigits (base : Nat) (acc : Nat) (needsDigit : Bool) : Bytes → Option Nat
  | [] => if needsDigit then none else some acc
  | b :: rest =>
      match digitIn base b with
      | some d => parseDigits base (acc * base + d) false rest
      | none => if b = 95 ∧ needsDigit = false then parseDigits base acc true rest else none

def magnitude : Bytes → Option Nat
  | 48 :: 120 :: rest | 48 :: 88 :: rest => parseDigits 16 0 true rest
  | 48 :: 98 :: rest | 48 :: 66 :: rest => parseDigits 2 0 true rest
  | 48 :: 111 :: rest | 48 :: 79 :: rest => parseDigits 8 0 true rest
  | 48 :: 100 :: rest | 48 :: 68 :: rest => parseDigits 10 0 true rest
  | 48 :: rest => parseDigits 8 0 true (48 :: rest)
  | text => parseDigits 10 0 true text

def signed : Bytes → Option Int
  | 43 :: rest => (magnitude rest).map Int.ofNat
  | 45 :: rest => (magnitude rest).map fun n => -Int.ofNat n
  | text => (magnitude text).map Int.ofNat

def integer (text : Bytes) : Option Int := signed ((text.dropWhile isSpace).rdropWhile isSpace)

def digit (d : Nat) : UInt8 := UInt8.ofNat (48 + d)

def decimal (n : Nat) : Bytes :=
  if n < 10 then [digit n] else decimal (n / 10) ++ [digit (n % 10)]

theorem parse_digits_snoc (base acc m d : Nat) (needsDigit : Bool) (text : Bytes) (b : UInt8)
    (parsed : parseDigits base acc needsDigit text = some m) (value : digitIn base b = some d) :
    parseDigits base acc needsDigit (text ++ [b]) = some (m * base + d) := by
  induction text generalizing acc needsDigit with
  | nil =>
      cases needsDigit with
      | true => simp [parseDigits] at parsed
      | false =>
          have same : acc = m := by simpa [parseDigits] using parsed
          simp [parseDigits, value, same]
  | cons c rest ih =>
      rw [List.cons_append, parseDigits]
      rw [parseDigits] at parsed
      cases read : digitIn base c with
      | some e => rw [read] at parsed; exact ih _ _ parsed
      | none =>
          rw [read] at parsed
          by_cases separates : c = 95 ∧ needsDigit = false
          · simp only [if_pos separates] at parsed ⊢
            exact ih _ _ parsed
          · simp [separates] at parsed

theorem parse_digits_no_colon (base acc n : Nat) (needsDigit : Bool) (text : Bytes)
    (parsed : parseDigits base acc needsDigit text = some n) : 58 ∉ text := by
  induction text generalizing acc needsDigit with
  | nil => exact List.not_mem_nil
  | cons b rest ih =>
      rw [parseDigits] at parsed
      have different : b ≠ 58 := by
        rintro rfl
        have absent : digitIn base 58 = none := rfl
        simp [absent] at parsed
      cases read : digitIn base b with
      | some d =>
          rw [read] at parsed
          simpa [Ne.symm different] using ih _ _ parsed
      | none =>
          rw [read] at parsed
          by_cases separates : b = 95 ∧ needsDigit = false
          · simp only [if_pos separates] at parsed
            simpa [Ne.symm different] using ih _ _ parsed
          · simp [separates] at parsed

theorem magnitude_no_colon (text : Bytes) (n : Nat) (parsed : magnitude text = some n) : 58 ∉ text := by
  unfold magnitude at parsed
  split at parsed
  all_goals
    have inside := parse_digits_no_colon _ _ _ _ _ parsed
    simpa using inside

theorem signed_no_colon (text : Bytes) (n : Int) (parsed : signed text = some n) : 58 ∉ text := by
  unfold signed at parsed
  split at parsed
  all_goals
    obtain ⟨m, read, -⟩ := Option.map_eq_some_iff.mp parsed
    have inside := magnitude_no_colon _ m read
    simpa using inside

theorem mem_strip (text : Bytes) (b : UInt8) (visible : isSpace b = false) (member : b ∈ text) :
    b ∈ (text.dropWhile isSpace).rdropWhile isSpace := by
  have left : ∀ l : Bytes, b ∈ l → b ∈ l.dropWhile isSpace := by
    intro l inside
    rw [← List.takeWhile_append_dropWhile (p := isSpace) (l := l)] at inside
    rcases List.mem_append.mp inside with dropped | kept
    · simp [List.mem_takeWhile_imp dropped] at visible
    · exact kept
  rw [List.rdropWhile]
  exact List.mem_reverse.mpr (left _ (List.mem_reverse.mpr (left _ member)))

theorem integer_no_colon (text : Bytes) (n : Int) (parsed : integer text = some n) : 58 ∉ text := by
  intro member
  exact signed_no_colon _ n parsed (mem_strip text 58 rfl member)

theorem digit_value (d : Nat) (bound : d < 10) : digitIn 10 (digit d) = some d := by
  interval_cases d <;> rfl

theorem digit_visible (d : Nat) (bound : d < 10) : isSpace (digit d) = false := by
  interval_cases d <;> rfl

theorem parse_decimal (n : Nat) : parseDigits 10 0 true (decimal n) = some n := by
  induction n using Nat.strongRecOn with
  | _ n ih =>
      rw [decimal]
      by_cases small : n < 10
      · rw [if_pos small, parseDigits, digit_value n small]
        simp [parseDigits]
      · rw [if_neg small, parse_digits_snoc 10 0 (n / 10) (n % 10) true _ _ (ih (n / 10) (by omega))
          (digit_value (n % 10) (Nat.mod_lt n (by decide)))]
        congr 1
        omega

theorem decimal_visible (n : Nat) : ∀ b ∈ decimal n, ∃ d < 10, b = digit d := by
  induction n using Nat.strongRecOn with
  | _ n ih =>
      rw [decimal]
      intro b member
      by_cases small : n < 10
      · rw [if_pos small, List.mem_singleton] at member
        exact ⟨n, small, member⟩
      · rw [if_neg small, List.mem_append, List.mem_singleton] at member
        rcases member with earlier | last
        · exact ih (n / 10) (by omega) b earlier
        · exact ⟨n % 10, Nat.mod_lt n (by decide), last⟩

theorem decimal_head (n : Nat) : ∃ d rest, d < 10 ∧ decimal n = digit d :: rest ∧ (n ≠ 0 → d ≠ 0) := by
  induction n using Nat.strongRecOn with
  | _ n ih =>
      rw [decimal]
      by_cases small : n < 10
      · exact ⟨n, [], small, if_pos small, id⟩
      · obtain ⟨d, rest, bound, same, leading⟩ := ih (n / 10) (by omega)
        exact ⟨d, rest ++ [digit (n % 10)], bound, by rw [if_neg small, same]; rfl, fun _ => leading (by omega)⟩

theorem magnitude_decimal (n : Nat) : magnitude (decimal n) = some n := by
  by_cases zero : n = 0
  · subst zero
    rw [decimal]
    rfl
  · obtain ⟨d, rest, bound, same, leading⟩ := decimal_head n
    have parsed := parse_decimal n
    have nonzero : digit d ≠ 48 := by
      have positive := leading zero
      interval_cases d <;> first | exact absurd rfl positive | decide
    rw [same] at parsed ⊢
    unfold magnitude
    split
    all_goals first | exact parsed | (rename_i shape; exact absurd (List.cons.inj shape).1 nonzero)

theorem integer_decimal (n : Nat) : integer (decimal n) = some (Int.ofNat n) := by
  have visible : ∀ b ∈ decimal n, isSpace b = false := by
    intro b member
    obtain ⟨d, bound, rfl⟩ := decimal_visible n b member
    exact digit_visible d bound
  obtain ⟨d, rest, bound, same, -⟩ := decimal_head n
  have left : (decimal n).dropWhile isSpace = decimal n := by
    rw [same, List.dropWhile_cons_of_neg (by simp [digit_visible d bound])]
  have right : (decimal n).rdropWhile isSpace = decimal n := by
    rw [List.rdropWhile_eq_self_iff]
    intro content
    simp [visible _ (List.getLast_mem content)]
  rw [integer, left, right]
  have magnitude := magnitude_decimal n
  rw [same] at magnitude ⊢
  unfold signed
  split
  · rename_i shape
    have head := (List.cons.inj shape).1
    interval_cases d <;> simp [digit] at head
  · rename_i shape
    have head := (List.cons.inj shape).1
    interval_cases d <;> simp [digit] at head
  · rw [magnitude]
    rfl

-- A decimal that was cut short is still a decimal, and no zero unless it was one.
theorem decimal_prefix (n : Nat) (text : Bytes) (start : text <+: decimal n) :
    text = [] ∨ ∃ m, text = decimal m ∧ (m = 0 ↔ n = 0) := by
  induction n using Nat.strongRecOn with
  | _ n ih =>
      by_cases whole : text = decimal n
      · exact .inr ⟨n, whole, Iff.rfl⟩
      · rw [decimal] at start whole
        by_cases small : n < 10
        · rw [if_pos small] at start whole
          rcases List.prefix_cons_iff.mp start with vacant | ⟨rest, same, nothing⟩
          · exact .inl vacant
          · exact absurd (by rw [same, List.prefix_nil.mp nothing]) whole
        · rw [if_neg small] at start whole
          rcases List.prefix_concat_iff.mp start with same | shorter
          · exact absurd same whole
          · rcases ih (n / 10) (by omega) shorter with vacant | ⟨m, same, zero⟩
            · exact .inl vacant
            · exact .inr ⟨m, same, by omega⟩

end KernelInteger
