import Mathlib.Data.List.Basic

set_option autoImplicit false

namespace Words

variable {Symbol : Type*}

-- The maximal blank-free pieces of a text, over any alphabet with blanks.
def words (blank : Symbol → Bool) (text : List Symbol) : List (List Symbol) :=
  (text.splitOnP blank).filter fun word => !word.isEmpty

theorem words_nil (blank : Symbol → Bool) : words blank [] = [] := by
  simp [words, List.splitOnP_nil]

theorem words_append_blank (blank : Symbol → Bool) (front rest : List Symbol) (b : Symbol) (isBlank : blank b = true) :
    words blank (front ++ b :: rest) = words blank front ++ words blank rest := by
  rw [words, List.splitOnP_append_cons front rest isBlank, List.filter_append, words, words]

theorem words_cons_blank (blank : Symbol → Bool) (b : Symbol) (rest : List Symbol) (isBlank : blank b = true) :
    words blank (b :: rest) = words blank rest := by
  have split := words_append_blank blank [] rest b isBlank
  rwa [words_nil, List.nil_append, List.nil_append] at split

theorem words_skip (blank : Symbol → Bool) (lead rest : List Symbol) (blanks : ∀ b ∈ lead, blank b = true) :
    words blank (lead ++ rest) = words blank rest := by
  induction lead with
  | nil => rfl
  | cons b lead ih =>
      rw [List.cons_append, words_cons_blank blank b (lead ++ rest) (blanks b List.mem_cons_self)]
      exact ih fun other member => blanks other (List.mem_cons_of_mem b member)

theorem words_blank (blank : Symbol → Bool) (text : List Symbol) (blanks : ∀ b ∈ text, blank b = true) :
    words blank text = [] := by
  have skipped := words_skip blank text [] blanks
  rwa [List.append_nil, words_nil] at skipped

def Word (blank : Symbol → Bool) (word : List Symbol) : Prop := word ≠ [] ∧ ∀ b ∈ word, blank b = false

instance (blank : Symbol → Bool) (word : List Symbol) : Decidable (Word blank word) :=
  decidable_of_iff ((!word.isEmpty && word.all fun b => !blank b) = true) (by simp [Word])

theorem words_word (blank : Symbol → Bool) (word : List Symbol) (solid : Word blank word) : words blank word = [word] := by
  rw [words, List.splitOnP_eq_singleton solid.2]
  simp [solid.1]

theorem pieces_solid (blank : Symbol → Bool) (text : List Symbol) :
    ∀ piece ∈ text.splitOnP blank, ∀ b ∈ piece, blank b = false := by
  induction text with
  | nil => simp [List.splitOnP_nil]
  | cons a rest ih =>
      rw [List.splitOnP_cons_eq_if_modifyHead]
      split
      · intro piece member
        rcases List.mem_cons.mp member with rfl | later
        · simp
        · exact ih piece later
      · rename_i solid
        obtain ⟨first, others, shape⟩ := List.exists_cons_of_ne_nil (List.splitOnP_ne_nil blank rest)
        rw [shape] at ih ⊢
        intro piece member
        rcases List.mem_cons.mp member with rfl | later
        · intro b inside
          rcases List.mem_cons.mp inside with rfl | further
          · simpa using solid
          · exact ih first List.mem_cons_self b further
        · exact ih piece (List.mem_cons_of_mem first later)

theorem words_solid (blank : Symbol → Bool) (text : List Symbol) : ∀ word ∈ words blank text, Word blank word := by
  intro word member
  obtain ⟨listed, content⟩ := List.mem_filter.mp member
  exact ⟨by simpa using content, pieces_solid blank text word listed⟩

-- A text that spells out these words, with any blanks between and around them.
inductive Spread (blank : Symbol → Bool) : List (List Symbol) → List Symbol → Prop where
  | blanks (text : List Symbol) (all : ∀ b ∈ text, blank b = true) : Spread blank [] text
  | word (lead first rest : List Symbol) (others : List (List Symbol)) (before : ∀ b ∈ lead, blank b = true)
      (solid : Word blank first) (apart : ∀ b, rest.head? = some b → blank b = true) (spread : Spread blank others rest) :
      Spread blank (first :: others) (lead ++ first ++ rest)

-- One more word in front, where the text is given and can be checked.
theorem spread_checked (blank : Symbol → Bool) (lead first rest : List Symbol) (others : List (List Symbol))
    (before : lead.all blank = true) (solid : Word blank first) (apart : rest.head?.all blank = true)
    (spread : Spread blank others rest) : Spread blank (first :: others) (lead ++ first ++ rest) :=
  .word lead first rest others (List.all_eq_true.mp before) solid ((Option.all_eq_true blank rest.head?).mp apart) spread

theorem words_spread (blank : Symbol → Bool) (expected : List (List Symbol)) (text : List Symbol)
    (spread : Spread blank expected text) : words blank text = expected := by
  induction spread with
  | blanks text all => exact words_blank blank text all
  | word lead first rest others before solid apart _ ih =>
      rw [List.append_assoc, words_skip blank lead _ before]
      cases rest with
      | nil =>
          rw [words_nil] at ih
          rw [List.append_nil, words_word blank first solid, ← ih]
      | cons b rest =>
          have isBlank : blank b = true := apart b rfl
          rw [words_cons_blank blank b rest isBlank] at ih
          rw [words_append_blank blank first rest b isBlank, words_word blank first solid, ih]
          rfl

theorem spread_joined (blank : Symbol → Bool) (b : Symbol) (isBlank : blank b = true) (expected : List (List Symbol))
    (solid : ∀ word ∈ expected, Word blank word) : Spread blank expected (expected.flatMap fun word => b :: word) := by
  induction expected with
  | nil => exact .blanks [] (by simp)
  | cons first others ih =>
      have apart : ∀ c, (others.flatMap fun word => b :: word).head? = some c → blank c = true := by
        intro c head
        cases others with
        | nil => cases head
        | cons next others =>
            cases head
            exact isBlank
      exact .word [b] first _ others (by simpa using isBlank) (solid first List.mem_cons_self) apart
        (ih fun word member => solid word (List.mem_cons_of_mem first member))

theorem words_intercalate (blank : Symbol → Bool) (b : Symbol) (isBlank : blank b = true) (texts : List (List Symbol)) :
    words blank (List.intercalate [b] texts) = texts.flatMap (words blank) := by
  induction texts with
  | nil => exact words_nil blank
  | cons first rest ih =>
      cases rest with
      | nil => simp
      | cons next others =>
          rw [List.intercalate_cons_cons, List.append_assoc, List.singleton_append, words_append_blank blank first _ b isBlank, ih]
          rfl

end Words
