import Pwrake.Tracer
import Mathlib.Algebra.Order.BigOperators.Group.Finset

set_option autoImplicit false

namespace Pwrake

abbrev TaskName := List Char

-- Rake's Hash of tasks by their full names. A task keeps the namespaces it was
-- defined in, outermost first, and its prerequisites as they were written.
structure TaskTable where
  names : Finset TaskName
  prerequisites : TaskName → List TaskName
  scope : TaskName → List TaskName

namespace TaskTable

-- (scope + [name]).join(':')
def join : List TaskName → TaskName → TaskName
  | [], name => name
  | part :: rest, name => part ++ ':' :: join rest name

def find (table : TaskTable) (name : TaskName) : Option table.names :=
  if known : name ∈ table.names then some ⟨name, known⟩ else none

-- n goes from the size of the scope down to 0.
def lookupInScope (table : TaskTable) (name : TaskName) (scope : List TaskName) : Nat → Option table.names
  | 0 => table.find name
  | n + 1 =>
      match table.find (join (scope.take (n + 1)) name) with
      | some task => some task
      | none => lookupInScope table name scope n

-- While Rake runs its tasks the current scope is the top level.
def lookup (table : TaskTable) (name : TaskName) (initialScope : Option (List TaskName)) : Option table.names :=
  lookupInScope table name (initialScope.getD []) (initialScope.getD []).length

def application (table : TaskTable) : Application table.names TaskName (List TaskName) where
  prerequisites := fun task => table.prerequisites task.1
  scope := fun task => table.scope task.1
  lookup := table.lookup

theorem find_some (table : TaskTable) (name : TaskName) (task : table.names) (found : table.find name = some task) :
    task.1 = name := by
  rw [find] at found
  split at found
  · cases found
    rfl
  · cases found

theorem find_name (table : TaskTable) (task : table.names) : table.find task.1 = some task := by
  rw [find, dif_pos task.2]

theorem join_longer (part : TaskName) (rest : List TaskName) (name : TaskName) : name.length < (join (part :: rest) name).length := by
  induction rest generalizing part with
  | nil =>
      simp only [join, List.length_append, List.length_cons]
      omega
  | cons next rest ih =>
      have inner := ih next
      rw [join, List.length_append, List.length_cons]
      omega

-- A name resolves to the task of that name or to one of a longer name.
theorem lookup_in_scope_longer (table : TaskTable) (name : TaskName) (scope : List TaskName) (n : Nat) (task : table.names)
    (found : table.lookupInScope name scope n = some task) : task.1 = name ∨ name.length < task.1.length := by
  induction n with
  | zero => exact .inl (find_some table name task found)
  | succ n ih =>
      rw [lookupInScope] at found
      split at found
      · rename_i other inner
        cases found
        rw [find_some table _ task inner]
        cases scope with
        | nil => exact .inl rfl
        | cons part rest => exact .inr (join_longer part (rest.take n) name)
      · exact ih found

theorem lookup_self (table : TaskTable) (task : table.names) : table.application.lookup task.1 none = some task :=
  find_name table task

-- The outermost scope is the last to be tried.
theorem lookup_in_scope_some (table : TaskTable) (name : TaskName) (scope : List TaskName) (n : Nat) (known : name ∈ table.names) :
    (table.lookupInScope name scope n).isSome := by
  induction n with
  | zero => simp [lookupInScope, find, known]
  | succ n ih =>
      rw [lookupInScope]
      split
      · rfl
      · exact ih

end TaskTable

-- What maps a finite set onto itself and makes no element smaller fixes each
-- element that it could not make larger.
theorem onto_fixed {Item : Type*} [DecidableEq Item] (items : Finset Item) (f : Item → Item) (size : Item → Nat)
    (onto : items.image f = items) (grows : ∀ item ∈ items, f item = item ∨ size item < size (f item)) :
    ∀ item ∈ items, f item = item := by
  have injective : Set.InjOn f items := Finset.card_image_iff.mp (by rw [onto])
  have total : ∑ item ∈ items, size item = ∑ item ∈ items, size (f item) :=
    calc ∑ item ∈ items, size item = ∑ item ∈ items.image f, size item := by rw [onto]
      _ = ∑ item ∈ items, size (f item) := Finset.sum_image injective
  have bound : ∀ item ∈ items, size item ≤ size (f item) := by
    intro item member
    rcases grows item member with same | larger
    · rw [same]
    · exact larger.le
  intro item member
  refine (grows item member).resolve_right fun larger => ?_
  have level := (Finset.sum_eq_sum_iff_of_le bound).mp total item member
  omega

end Pwrake
