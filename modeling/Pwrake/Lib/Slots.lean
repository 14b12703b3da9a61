import Mathlib.Algebra.BigOperators.Group.List.Basic
import Mathlib.Algebra.Order.Monoid.Canonical.Defs

set_option autoImplicit false

namespace Slots

variable {Cell : Type*}

-- A table of threads is a list of cells addressed by index. Overwriting an
-- occupied cell is the only way a table changes apart from appending one.
theorem lookup_set (table : List Cell) (i j : Nat) (old fresh : Cell) (occupied : table[i]? = some old) :
    (table.set i fresh)[j]? = if j = i then some fresh else table[j]? := by
  have bound : i < table.length := (List.getElem?_eq_some_iff.mp occupied).1
  by_cases same : j = i
  · subst same
    simp [bound]
  · simp [same, List.getElem?_set_ne (Ne.symm same)]

theorem lookup_set_cases (table : List Cell) (i j : Nat) (fresh found : Cell)
    (read : (table.set i fresh)[j]? = some found) : (j = i ∧ found = fresh) ∨ (j ≠ i ∧ table[j]? = some found) := by
  by_cases same : j = i
  · subst same
    obtain ⟨bound, value⟩ := List.getElem?_eq_some_iff.mp read
    exact .inl ⟨rfl, by simpa [eq_comm] using value⟩
  · exact .inr ⟨same, by simpa [List.getElem?_set_ne (Ne.symm same)] using read⟩

theorem lookup_append (table : List Cell) (j : Nat) (fresh found : Cell)
    (read : (table ++ [fresh])[j]? = some found) : table[j]? = some found ∨ (j = table.length ∧ found = fresh) := by
  rcases Nat.lt_trichotomy j table.length with inside | same | outside
  · exact .inl (by rwa [List.getElem?_append_left inside] at read)
  · subst same
    exact .inr ⟨rfl, by simpa [eq_comm] using read⟩
  · have absent : (table ++ [fresh])[j]? = none := List.getElem?_eq_none (by simp; omega)
    simp [absent] at read

theorem lookup_old (table : List Cell) (j : Nat) (fresh found : Cell) (read : table[j]? = some found) :
    (table ++ [fresh])[j]? = some found := by
  have bound : j < table.length := (List.getElem?_eq_some_iff.mp read).1
  rwa [List.getElem?_append_left bound]

theorem lookup_replicate (n j : Nat) (cell found : Cell) (read : (List.replicate n cell)[j]? = some found) :
    found = cell := by
  obtain ⟨bound, same⟩ := List.getElem?_eq_some_iff.mp read
  simpa [eq_comm] using same

-- A sum over the table moves by what the overwritten cell contributed.
theorem sum_set {Weight : Type*} [AddCommMonoid Weight] (weight : Cell → Weight) (table : List Cell) (i : Nat)
    (old fresh : Cell) (occupied : table[i]? = some old) :
    ((table.set i fresh).map weight).sum + weight old = (table.map weight).sum + weight fresh := by
  induction table generalizing i with
  | nil => simp at occupied
  | cons head tail ih =>
      cases i with
      | zero =>
          have same : head = old := by simpa using occupied
          subst same
          simp only [List.set_cons_zero, List.map_cons, List.sum_cons]
          rw [add_right_comm, add_comm (weight fresh), add_right_comm]
      | succ i =>
          have later : tail[i]? = some old := by simpa using occupied
          simp only [List.set_cons_succ, List.map_cons, List.sum_cons, add_assoc, ih i later]

theorem sum_set_same {Weight : Type*} [AddCommMonoid Weight] [IsRightCancelAdd Weight] (weight : Cell → Weight)
    (table : List Cell) (i : Nat) (old fresh : Cell) (occupied : table[i]? = some old) (same : weight fresh = weight old) :
    ((table.set i fresh).map weight).sum = (table.map weight).sum := by
  have moved := sum_set weight table i old fresh occupied
  rw [same] at moved
  exact add_right_cancel moved

theorem sum_lookup {Weight : Type*} [AddCommMonoid Weight] (weight : Cell → Weight) (table : List Cell) (i : Nat)
    (cell : Cell) (occupied : table[i]? = some cell) : ∃ rest, (table.map weight).sum = weight cell + rest := by
  induction table generalizing i with
  | nil => simp at occupied
  | cons head tail ih =>
      cases i with
      | zero =>
          have same : head = cell := by simpa using occupied
          exact ⟨(tail.map weight).sum, by simp [same]⟩
      | succ i =>
          obtain ⟨rest, split⟩ := ih i (by simpa using occupied)
          exact ⟨weight head + rest, by rw [List.map_cons, List.sum_cons, split, add_left_comm]⟩

-- What the cells of one table weigh bounds a sum over another table with the
-- same indices.
theorem sum_le_of_lookup {Other Weight : Type*} [AddCommMonoid Weight] [PartialOrder Weight] [IsOrderedAddMonoid Weight]
    [CanonicallyOrderedAdd Weight] (weight : Cell → Weight) (bound : Other → Weight) (table : List Cell) (beside : List Other)
    (below : ∀ (i : Nat) (cell : Cell), table[i]? = some cell →
      weight cell = 0 ∨ ∃ other, beside[i]? = some other ∧ weight cell ≤ bound other) :
    (table.map weight).sum ≤ (beside.map bound).sum := by
  induction table generalizing beside with
  | nil => simp
  | cons cell rest ih =>
      rw [List.map_cons, List.sum_cons]
      cases beside with
      | nil =>
          have tail := ih [] fun i later read => below (i + 1) later read
          rcases below 0 cell rfl with none | ⟨other, read, -⟩
          · rw [none, zero_add]
            exact tail
          · cases read
      | cons head others =>
          have tail := ih others fun i later read => below (i + 1) later read
          have first : weight cell ≤ bound head := by
            rcases below 0 cell rfl with none | ⟨other, read, less⟩
            · rw [none]
              exact zero_le
            · cases read
              exact less
          rw [List.map_cons, List.sum_cons]
          exact add_le_add first tail

-- Where each entry of an ascending list has a successor no later than any entry
-- above it, neighbours are related.
theorem chain_of_successor (relation : Nat → Nat → Prop) (entries : List Nat) (ascending : entries.Pairwise (· < ·))
    (successor : ∀ t ∈ entries, ∀ u ∈ entries, t < u → ∃ v ∈ entries, relation t v ∧ t < v ∧ v ≤ u) :
    entries.IsChain relation := by
  induction entries with
  | nil => exact .nil
  | cons t rest ih =>
      obtain ⟨above, later⟩ := List.pairwise_cons.mp ascending
      have chain : rest.IsChain relation := by
        refine ih later fun x here y there below => ?_
        obtain ⟨v, member, related, after, before⟩ :=
          successor x (List.mem_cons_of_mem t here) y (List.mem_cons_of_mem t there) below
        rcases List.mem_cons.mp member with rfl | inside
        · exact absurd (above x here) (Nat.lt_asymm after)
        · exact ⟨v, inside, related, after, before⟩
      cases rest with
      | nil => exact .singleton t
      | cons next others =>
          obtain ⟨v, member, related, after, before⟩ :=
            successor t List.mem_cons_self next (List.mem_cons_of_mem t List.mem_cons_self) (above next List.mem_cons_self)
          have least : v = next := by
            rcases List.mem_cons.mp member with rfl | inside
            · exact absurd after (Nat.lt_irrefl v)
            · rcases List.mem_cons.mp inside with same | further
              · exact same
              · exact absurd ((List.pairwise_cons.mp later).1 v further) (Nat.not_lt_of_le before)
          exact .cons_cons (least ▸ related) chain

theorem successor_of_chain (relation : Nat → Nat → Prop) (entries : List Nat) (ascending : entries.Pairwise (· < ·))
    (chain : entries.IsChain relation) (t : Nat) (here : t ∈ entries) (u : Nat) (there : u ∈ entries) (below : t < u) :
    ∃ v, relation t v := by
  induction entries with
  | nil => exact absurd here List.not_mem_nil
  | cons x rest ih =>
      obtain ⟨above, later⟩ := List.pairwise_cons.mp ascending
      rcases List.mem_cons.mp here with rfl | inside
      · cases rest with
        | nil => exact absurd below (by simp [List.mem_singleton.mp there])
        | cons next others => exact ⟨next, (List.isChain_cons_cons.mp chain).1⟩
      · rcases List.mem_cons.mp there with rfl | further
        · exact absurd (above t inside) (Nat.lt_asymm below)
        · exact ih later chain.of_cons inside further

end Slots
