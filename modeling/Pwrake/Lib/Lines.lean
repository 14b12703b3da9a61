import Mathlib.Data.List.Basic

set_option autoImplicit false

namespace Lines

variable {Symbol : Type*} [DecidableEq Symbol]

-- Reading by lines, over any alphabet with one symbol that ends a line. A line
-- keeps its end mark; what follows the last mark is a line without one.
def splitLine (nl : Symbol) : List Symbol → Option (List Symbol × List Symbol)
  | [] => none
  | a :: rest =>
      if a = nl then some ([a], rest)
      else (splitLine nl rest).map fun (line, tail) => (a :: line, tail)

def lines (nl : Symbol) : List Symbol → List (List Symbol)
  | [] => []
  | a :: rest =>
      if a = nl then [a] :: lines nl rest
      else match lines nl rest with
        | [] => [[a]]
        | line :: others => (a :: line) :: others

theorem split_line_none (nl : Symbol) (text : List Symbol) : splitLine nl text = none ↔ nl ∉ text := by
  induction text with
  | nil => simp [splitLine]
  | cons a rest ih =>
      by_cases mark : a = nl
      · simp [splitLine, mark]
      · simp [splitLine, mark, ih, Ne.symm mark]

theorem split_line_append (nl : Symbol) (body tail : List Symbol) (inside : nl ∉ body) :
    splitLine nl (body ++ nl :: tail) = some (body ++ [nl], tail) := by
  induction body with
  | nil => simp [splitLine]
  | cons a rest ih =>
      obtain ⟨different, later⟩ := not_or.mp (fun either => inside (List.mem_cons.mpr either))
      simp [splitLine, Ne.symm different, ih later]

theorem split_line_some (nl : Symbol) (text line tail : List Symbol) (split : splitLine nl text = some (line, tail)) :
    ∃ body, nl ∉ body ∧ line = body ++ [nl] ∧ text = line ++ tail := by
  induction text generalizing line with
  | nil => simp [splitLine] at split
  | cons a rest ih =>
      by_cases mark : a = nl
      · simp only [splitLine, if_pos mark, Option.some.injEq, Prod.mk.injEq] at split
        obtain ⟨rfl, rfl⟩ := split
        exact ⟨[], List.not_mem_nil, by simp [mark], rfl⟩
      · simp only [splitLine, if_neg mark, Option.map_eq_some_iff, Prod.exists, Prod.mk.injEq] at split
        obtain ⟨shorter, _, split, rfl, rfl⟩ := split
        obtain ⟨body, inside, rfl, rfl⟩ := ih shorter split
        exact ⟨a :: body, by simp [inside, Ne.symm mark], rfl, rfl⟩

theorem split_line_shorter (nl : Symbol) (text line tail : List Symbol) (split : splitLine nl text = some (line, tail)) :
    tail.length < text.length := by
  obtain ⟨body, -, rfl, rfl⟩ := split_line_some nl text line tail split
  simp only [List.length_append, List.length_singleton]
  omega

theorem lines_split (nl : Symbol) (text line tail : List Symbol) (split : splitLine nl text = some (line, tail)) :
    lines nl text = line :: lines nl tail := by
  induction text generalizing line with
  | nil => simp [splitLine] at split
  | cons a rest ih =>
      by_cases mark : a = nl
      · simp only [splitLine, if_pos mark, Option.some.injEq, Prod.mk.injEq] at split
        obtain ⟨rfl, rfl⟩ := split
        simp [lines, mark]
      · simp only [splitLine, if_neg mark, Option.map_eq_some_iff, Prod.exists, Prod.mk.injEq] at split
        obtain ⟨shorter, _, split, rfl, rfl⟩ := split
        simp [lines, mark, ih shorter split]

theorem lines_unmarked (nl : Symbol) (text : List Symbol) (inside : nl ∉ text) (content : text ≠ []) :
    lines nl text = [text] := by
  induction text with
  | nil => exact absurd rfl content
  | cons a rest ih =>
      obtain ⟨different, later⟩ := not_or.mp (fun either => inside (List.mem_cons.mpr either))
      cases rest with
      | nil => simp [lines, Ne.symm different]
      | cons b tail => rw [lines, if_neg (Ne.symm different), ih later (List.cons_ne_nil b tail)]

theorem lines_marked (nl : Symbol) (body tail : List Symbol) (inside : nl ∉ body) :
    lines nl (body ++ nl :: tail) = (body ++ [nl]) :: lines nl tail :=
  lines_split nl _ _ _ (split_line_append nl body tail inside)

omit [DecidableEq Symbol] in
theorem ended_marked (nl : Symbol) (body tail : List Symbol) :
    (body ++ nl :: tail).getLast? = some nl ↔ tail = [] ∨ tail.getLast? = some nl := by
  cases tail with
  | nil => simp
  | cons b shorter => simp [List.getLast?_append]

theorem lines_append (nl : Symbol) (text tail : List Symbol) (ended : text = [] ∨ text.getLast? = some nl) :
    lines nl (text ++ tail) = lines nl text ++ lines nl tail := by
  induction text with
  | nil => rfl
  | cons a rest ih =>
      have last := ended.resolve_left (List.cons_ne_nil a rest)
      by_cases mark : a = nl
      · have later : rest = [] ∨ rest.getLast? = some nl := by
          cases rest with
          | nil => exact .inl rfl
          | cons b shorter => exact .inr (by simpa [List.getLast?_cons_cons] using last)
        rw [List.cons_append, lines, lines, if_pos mark, if_pos mark, ih later, List.cons_append]
      · have content : rest ≠ [] := by
          rintro rfl
          exact mark (by simpa using last)
        have later : rest = [] ∨ rest.getLast? = some nl := by
          cases rest with
          | nil => exact absurd rfl content
          | cons b shorter => exact .inr (by simpa [List.getLast?_cons_cons] using last)
        have some_line : lines nl rest ≠ [] := by
          cases rest with
          | nil => exact absurd rfl content
          | cons b shorter =>
              rw [lines]
              split
              · exact List.cons_ne_nil _ _
              · split <;> exact List.cons_ne_nil _ _
        obtain ⟨line, others, shape⟩ := List.exists_cons_of_ne_nil some_line
        rw [List.cons_append, lines, if_neg mark, ih later, shape, lines, if_neg mark, shape]
        rfl

-- Every text is empty, one unfinished line, or a line followed by a text.
theorem text_cases (nl : Symbol) (text : List Symbol) :
    text = [] ∨ (text ≠ [] ∧ nl ∉ text) ∨ ∃ body tail, nl ∉ body ∧ text = body ++ nl :: tail := by
  cases split : splitLine nl text with
  | none =>
      by_cases content : text = []
      · exact .inl content
      · exact .inr (.inl ⟨content, (split_line_none nl text).mp split⟩)
  | some pair =>
      obtain ⟨body, inside, line, same⟩ := split_line_some nl text pair.1 pair.2 split
      exact .inr (.inr ⟨body, pair.2, inside, by rw [same, line, List.append_assoc, List.singleton_append]⟩)

@[elab_as_elim]
theorem text_induction (nl : Symbol) {motive : List Symbol → Prop} (empty : motive [])
    (unfinished : ∀ text, text ≠ [] → nl ∉ text → motive text)
    (line : ∀ body tail, nl ∉ body → motive tail → motive (body ++ nl :: tail)) (text : List Symbol) : motive text := by
  induction size : text.length using Nat.strongRecOn generalizing text with
  | ind n shorter =>
      rcases text_cases nl text with rfl | ⟨content, unmarked⟩ | ⟨body, tail, inside, rfl⟩
      · exact empty
      · exact unfinished text content unmarked
      · refine line body tail inside (shorter tail.length ?_ tail rfl)
        rw [← size, List.length_append, List.length_cons]
        omega

end Lines
