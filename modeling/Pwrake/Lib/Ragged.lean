import Mathlib.Data.List.Count
import Mathlib.Data.List.Range
import Mathlib.Algebra.BigOperators.Group.List.Basic
import Mathlib.Algebra.Ring.Nat

set_option autoImplicit false

namespace Ragged

variable {Item Image : Type*}

-- Rows of unequal length read column by column: a row that has run out is
-- passed over.
def column (rows : List (List Item)) (r : Nat) : List Item := rows.filterMap (·[r]?)

def columns (n : Nat) (rows : List (List Item)) : List Item := (List.range n).flatMap (column rows)

theorem column_cons (row : List Item) (rest : List (List Item)) (r : Nat) :
    column (row :: rest) r = row[r]?.toList ++ column rest r := by
  rw [column, List.filterMap_cons]
  cases row[r]? with
  | none => rfl
  | some item => rfl

theorem column_tail (rows : List (List Item)) (r : Nat) : column (rows.map List.tail) r = column rows (r + 1) := by
  simp [column, List.filterMap_map, List.getElem?_tail]

theorem column_past (rows : List (List Item)) (r : Nat) (short : ∀ row ∈ rows, row.length ≤ r) : column rows r = [] := by
  rw [column, List.filterMap_eq_nil_iff]
  exact fun row member => List.getElem?_eq_none (short row member)

theorem columns_succ (n : Nat) (rows : List (List Item)) :
    columns (n + 1) rows = column rows 0 ++ columns n (rows.map List.tail) := by
  rw [columns, columns, List.range_succ_eq_map, List.flatMap_cons, List.flatMap_map]
  congr 2
  funext r
  exact (column_tail rows r).symm

theorem columns_blank (n : Nat) (rows : List (List Item)) (blank : ∀ row ∈ rows, row = []) : columns n rows = [] := by
  rw [columns, List.flatMap_eq_nil_iff]
  intro r _
  exact column_past rows r fun row member => by simp [blank row member]

theorem columns_map (f : Item → Image) (n : Nat) (rows : List (List Item)) :
    columns n (rows.map (List.map f)) = (columns n rows).map f := by
  rw [columns, columns, List.map_flatMap]
  congr 1
  funext r
  simp [column, List.filterMap_map, List.map_filterMap]

theorem column_heads (rows : List (List Item)) :
    (column rows 0).length + ((rows.map List.tail).map List.length).sum = (rows.map List.length).sum := by
  induction rows with
  | nil => rfl
  | cons row rest ih =>
      have head : row[0]?.toList.length + row.tail.length = row.length := by
        cases row with
        | nil => rfl
        | cons item row => exact Nat.add_comm 1 row.length
      simp only [column_cons, List.length_append, List.map_cons, List.sum_cons]
      omega

theorem columns_length (n : Nat) (rows : List (List Item)) (bound : ∀ row ∈ rows, row.length ≤ n) :
    (columns n rows).length = (rows.map List.length).sum := by
  induction n generalizing rows with
  | zero =>
      have blank : ∀ row ∈ rows, row = [] := fun row member => List.length_eq_zero_iff.mp (Nat.le_zero.mp (bound row member))
      rw [columns_blank 0 rows blank]
      refine (List.sum_eq_zero fun size member => ?_).symm
      obtain ⟨row, inside, rfl⟩ := List.mem_map.mp member
      simp [blank row inside]
  | succ n ih =>
      have shorter : ∀ row ∈ rows.map List.tail, row.length ≤ n := by
        intro row member
        obtain ⟨longer, inside, rfl⟩ := List.mem_map.mp member
        have limit := bound longer inside
        simp only [List.length_tail]
        omega
      rw [columns_succ, List.length_append, ih _ shorter]
      exact column_heads rows

-- The rows of the given sizes, each filled with its own number.
def tags (sizes : List Nat) : List (List Nat) := sizes.zipIdx.map fun entry => List.replicate entry.1 entry.2

theorem column_count (sizes : List Nat) (r i : Nat) : (column (tags sizes) r).count i = if r < sizes.getD i 0 then 1 else 0 := by
  have shifted : ∀ (sizes : List Nat) (start : Nat),
      (column ((sizes.zipIdx start).map fun entry => List.replicate entry.1 entry.2) r).count i =
        if start ≤ i ∧ r < sizes.getD (i - start) 0 then 1 else 0 := by
    intro sizes
    induction sizes with
    | nil => simp [column]
    | cons n rest ih =>
        intro start
        have own : (List.replicate n start)[r]?.toList = if r < n then [start] else [] := by
          rw [List.getElem?_replicate]
          split <;> rfl
        rw [List.zipIdx_cons, List.map_cons, column_cons, List.count_append, ih, own]
        rcases Nat.lt_trichotomy i start with before | same | later
        · have absent : ¬ start ≤ i := by omega
          have further : ¬ start + 1 ≤ i := by omega
          have different : start ≠ i := by omega
          split <;> simp [absent, further, different]
        · subst same
          have further : ¬ i + 1 ≤ i := by omega
          by_cases reached : r < n
          · simp [further, reached]
          · simp [further, reached]
        · have here : start ≤ i := by omega
          have further : start + 1 ≤ i := by omega
          have different : start ≠ i := by omega
          have place : i - start = (i - (start + 1)) + 1 := by omega
          split <;> simp [here, further, different, place]
  have unshifted := shifted sizes 0
  rw [Nat.sub_zero] at unshifted
  simpa only [tags, Nat.zero_le, true_and] using unshifted

theorem columns_count (sizes : List Nat) (n i : Nat) : (columns n (tags sizes)).count i = min n (sizes.getD i 0) := by
  induction n with
  | zero => simp [columns]
  | succ n ih =>
      have last : columns (n + 1) (tags sizes) = columns n (tags sizes) ++ column (tags sizes) n := by
        simp [columns, List.range_succ, List.flatMap_append]
      rw [last, List.count_append, ih, column_count]
      split <;> omega

-- A front of the reading is some whole columns and a front of the next.
theorem columns_take (n k : Nat) (rows : List (List Item)) :
    ∃ r rest, (columns n rows).take k = columns r rows ++ rest ∧ rest <+: column rows r := by
  induction n with
  | zero => exact ⟨0, [], by simp [columns], List.nil_prefix⟩
  | succ n ih =>
      have last : columns (n + 1) rows = columns n rows ++ column rows n := by
        simp [columns, List.range_succ, List.flatMap_append]
      by_cases inside : k ≤ (columns n rows).length
      · rw [last, List.take_append_of_le_length inside]
        exact ih
      · refine ⟨n, (column rows n).take (k - (columns n rows).length), ?_, List.take_prefix _ _⟩
        rw [last, List.take_append, List.take_of_length_le (by omega)]

-- Rows that have not run out are read evenly.
theorem columns_even (sizes : List Nat) (n k i j : Nat)
    (leftI : ((columns n (tags sizes)).take k).count i < sizes.getD i 0)
    (leftJ : ((columns n (tags sizes)).take k).count j < sizes.getD j 0) :
    ((columns n (tags sizes)).take k).count i ≤ ((columns n (tags sizes)).take k).count j + 1 := by
  obtain ⟨r, rest, front, begun⟩ := columns_take n k (tags sizes)
  rw [front, List.count_append, columns_count] at leftI leftJ ⊢
  rw [List.count_append, columns_count]
  have onceI : rest.count i ≤ 1 := by
    refine (begun.sublist.count_le i).trans ?_
    rw [column_count]
    split <;> omega
  omega

end Ragged
