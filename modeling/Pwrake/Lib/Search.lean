import Mathlib.Data.Finset.Card
import Mathlib.Data.Finset.Sort
import Mathlib.Data.List.Nodup
import Mathlib.Logic.Relation

set_option autoImplicit false

namespace Search

variable {Node : Type*}

-- A depth-first search over a partial successor function. The state is the
-- list of the nodes opened so far, in order. A node without successors to give
-- stops the whole search, which is not the same as having none.
def visitAll (call : Node → List Node → Option (List Node)) : List Node → List Node → Option (List Node)
  | [], opened => some opened
  | node :: rest, opened => (call node opened).bind (visitAll call rest)

def visit [DecidableEq Node] (next : Node → Option (List Node)) : Nat → Node → List Node → Option (List Node)
  | 0, _, _ => none
  | depth + 1, node, opened =>
      if node ∈ opened then some opened
      else (next node).bind fun nodes => visitAll (visit next depth) nodes (opened ++ [node])

def Edge (next : Node → Option (List Node)) (node lower : Node) : Prop := ∃ nodes, next node = some nodes ∧ lower ∈ nodes

def Reaches (next : Node → Option (List Node)) (node lower : Node) : Prop := Relation.ReflTransGen (Edge next) node lower

-- What a search from the roots adds to the opened nodes.
structure Explored (next : Node → Option (List Node)) (roots opened added : List Node) : Prop where
  fresh : ∀ node ∈ added, node ∉ opened
  distinct : added.Nodup
  covered : ∀ root ∈ roots, root ∈ opened ++ added
  reached : ∀ node ∈ added, ∃ root ∈ roots, Reaches next root node
  closed : ∀ node ∈ added, ∃ nodes, next node = some nodes ∧ ∀ lower ∈ nodes, lower ∈ opened ++ added

section Explore

variable {next : Node → Option (List Node)}

theorem explored_nothing (roots opened : List Node) (known : ∀ root ∈ roots, root ∈ opened) :
    Explored next roots opened [] := by
  refine ⟨by simp, List.nodup_nil, fun root listed => ?_, by simp, by simp⟩
  simpa using known root listed

theorem explored_append (root : Node) (rest opened first second : List Node) (before : Explored next [root] opened first)
    (after : Explored next rest (opened ++ first) second) : Explored next (root :: rest) opened (first ++ second) where
  fresh := by
    intro node member
    rcases List.mem_append.mp member with early | late
    · exact before.fresh node early
    · exact fun known => after.fresh node late (List.mem_append_left first known)
  distinct := by
    apply before.distinct.append after.distinct
    exact fun node early late => after.fresh node late (List.mem_append_right opened early)
  covered := by
    intro other listed
    rw [← List.append_assoc]
    rcases List.mem_cons.mp listed with rfl | later
    · exact List.mem_append_left second (before.covered other (List.mem_singleton_self other))
    · exact after.covered other later
  reached := by
    intro node member
    rcases List.mem_append.mp member with early | late
    · obtain ⟨other, itself, path⟩ := before.reached node early
      exact ⟨root, List.mem_cons_self, List.mem_singleton.mp itself ▸ path⟩
    · obtain ⟨other, listed, path⟩ := after.reached node late
      exact ⟨other, List.mem_cons_of_mem root listed, path⟩
  closed := by
    intro node member
    rw [← List.append_assoc]
    rcases List.mem_append.mp member with early | late
    · obtain ⟨nodes, given, inside⟩ := before.closed node early
      exact ⟨nodes, given, fun lower listed => List.mem_append_left second (inside lower listed)⟩
    · exact after.closed node late

theorem explored_open (node : Node) (nodes opened added : List Node) (given : next node = some nodes) (new : node ∉ opened)
    (below : Explored next nodes (opened ++ [node]) added) : Explored next [node] opened (node :: added) where
  fresh := by
    intro other member
    rcases List.mem_cons.mp member with rfl | later
    · exact new
    · exact fun known => below.fresh other later (List.mem_append_left [node] known)
  distinct := by
    rw [List.nodup_cons]
    exact ⟨fun again => below.fresh node again (by simp), below.distinct⟩
  covered := by simp
  reached := by
    intro other member
    rcases List.mem_cons.mp member with rfl | later
    · exact ⟨other, List.mem_singleton_self other, .refl⟩
    · obtain ⟨lower, listed, path⟩ := below.reached other later
      exact ⟨node, List.mem_singleton_self node, path.head ⟨nodes, given, listed⟩⟩
  closed := by
    intro other member
    have split : opened ++ node :: added = opened ++ [node] ++ added := by simp
    rw [split]
    rcases List.mem_cons.mp member with rfl | later
    · exact ⟨nodes, given, below.covered⟩
    · exact below.closed other later

-- What is reached from what a search has opened is opened.
theorem explored_below (roots added : List Node) (explored : Explored next roots [] added) (node lower : Node)
    (known : node ∈ added) (path : Reaches next node lower) : lower ∈ added := by
  induction path with
  | refl => exact known
  | tail _ edge ih =>
      obtain ⟨nodes, given, inside⟩ := explored.closed _ ih
      obtain ⟨others, same, listed⟩ := edge
      cases given.symm.trans same
      simpa using inside _ listed

theorem explored_iff (roots added : List Node) (explored : Explored next roots [] added) (node : Node) :
    node ∈ added ↔ ∃ root ∈ roots, Reaches next root node := by
  constructor
  · exact explored.reached node
  · rintro ⟨root, listed, path⟩
    exact explored_below roots added explored root node (by simpa using explored.covered root listed) path

theorem visit_all_explored (call : Node → List Node → Option (List Node))
    (calls : ∀ node opened after, call node opened = some after → ∃ added, after = opened ++ added ∧ Explored next [node] opened added)
    (nodes opened after : List Node) (ran : visitAll call nodes opened = some after) :
    ∃ added, after = opened ++ added ∧ Explored next nodes opened added := by
  induction nodes generalizing opened with
  | nil =>
      rw [visitAll, Option.some.injEq] at ran
      exact ⟨[], by simp [ran], explored_nothing [] opened (by simp)⟩
  | cons node rest ih =>
      obtain ⟨between, called, later⟩ := Option.bind_eq_some_iff.mp ran
      obtain ⟨first, rfl, before⟩ := calls node opened between called
      obtain ⟨second, rfl, behind⟩ := ih (opened ++ first) later
      exact ⟨first ++ second, List.append_assoc _ _ _, explored_append node rest opened first second before behind⟩

variable [DecidableEq Node]

theorem visit_explored (depth : Nat) (node : Node) (opened after : List Node) (ran : visit next depth node opened = some after) :
    ∃ added, after = opened ++ added ∧ Explored next [node] opened added := by
  induction depth generalizing node opened after with
  | zero => cases ran
  | succ depth ih =>
      rw [visit] at ran
      split at ran
      · rename_i known
        rw [Option.some.injEq] at ran
        exact ⟨[], by simp [ran], explored_nothing [node] opened (by simpa using known)⟩
      · rename_i new
        obtain ⟨nodes, given, below⟩ := Option.bind_eq_some_iff.mp ran
        obtain ⟨added, rfl, explored⟩ := visit_all_explored (visit next depth) ih nodes _ after below
        exact ⟨node :: added, by simp, explored_open node nodes opened added given new explored⟩

theorem visit_all_visit (depth : Nat) (nodes opened after : List Node)
    (ran : visitAll (visit next depth) nodes opened = some after) :
    ∃ added, after = opened ++ added ∧ Explored next nodes opened added :=
  visit_all_explored (visit next depth) (fun node opened after => visit_explored depth node opened after) nodes opened after ran

-- The nodes of the bound that are still to be opened.
def left (bound : Finset Node) (opened : List Node) : Nat := (bound \ opened.toFinset).card

theorem left_open (bound : Finset Node) (opened : List Node) (node : Node) (inside : node ∈ bound) (new : node ∉ opened) :
    left bound (opened ++ [node]) < left bound opened := by
  apply Finset.card_lt_card
  rw [Finset.ssubset_iff_of_subset]
  · exact ⟨node, by simp [inside, new], by simp⟩
  · intro other member
    simp only [Finset.mem_sdiff, List.mem_toFinset, List.mem_append, not_or] at member ⊢
    exact ⟨member.1, member.2.1⟩

theorem left_append (bound : Finset Node) (opened added : List Node) : left bound (opened ++ added) ≤ left bound opened := by
  apply Finset.card_le_card
  intro other member
  simp only [Finset.mem_sdiff, List.mem_toFinset, List.mem_append, not_or] at member ⊢
  exact ⟨member.1, member.2.1⟩

-- Every node that is opened takes one from the bound, so a search ends where
-- all it can reach lies in the bound and has its successors given.
theorem visit_all_ends (bound : Finset Node) (call : Node → List Node → Option (List Node)) (nodes opened : List Node)
    (grows : ∀ node opened after, call node opened = some after → ∃ added, after = opened ++ added)
    (calls : ∀ node ∈ nodes, ∀ later, left bound later ≤ left bound opened → (call node later).isSome) :
    (visitAll call nodes opened).isSome := by
  induction nodes generalizing opened with
  | nil => rfl
  | cons node rest ih =>
      obtain ⟨between, called⟩ := Option.isSome_iff_exists.mp (calls node List.mem_cons_self opened le_rfl)
      obtain ⟨added, rfl⟩ := grows node opened between called
      rw [visitAll, called, Option.bind_some]
      apply ih
      intro other listed later fewer
      exact calls other (List.mem_cons_of_mem node listed) later (fewer.trans (left_append bound opened added))

theorem visit_grows (depth : Nat) (node : Node) (opened after : List Node) (ran : visit next depth node opened = some after) :
    ∃ added, after = opened ++ added := by
  obtain ⟨added, same, -⟩ := visit_explored depth node opened after ran
  exact ⟨added, same⟩

theorem visit_ends (bound : Finset Node) (depth : Nat) (node : Node) (opened : List Node)
    (inside : ∀ lower, Reaches next node lower → lower ∈ bound) (given : ∀ lower, Reaches next node lower → (next lower).isSome)
    (enough : left bound opened < depth) : (visit next depth node opened).isSome := by
  induction depth generalizing node opened with
  | zero => exact absurd enough (Nat.not_lt_zero _)
  | succ depth ih =>
      rw [visit]
      split
      · rfl
      · rename_i new
        obtain ⟨nodes, here⟩ := Option.isSome_iff_exists.mp (given node .refl)
        rw [here, Option.bind_some]
        apply visit_all_ends bound (visit next depth) nodes _ (visit_grows depth)
        intro lower listed later fewer
        have edge : Edge next node lower := ⟨nodes, here, listed⟩
        have opens := left_open bound opened node (inside node .refl) new
        exact ih lower later (fun other path => inside other (path.head edge)) (fun other path => given other (path.head edge))
          (by omega)

-- A search from the start that ends has opened what it can reach, once each.
structure Complete (next : Node → Option (List Node)) (roots after : List Node) : Prop where
  distinct : after.Nodup
  opened : ∀ node, node ∈ after ↔ ∃ root ∈ roots, Reaches next root node
  given : ∀ node ∈ after, (next node).isSome

theorem visit_all_complete (depth : Nat) (roots after : List Node) (ran : visitAll (visit next depth) roots [] = some after) :
    Complete next roots after := by
  obtain ⟨added, rfl, explored⟩ := visit_all_visit depth roots [] after ran
  refine ⟨explored.distinct, explored_iff roots after explored, fun node member => ?_⟩
  obtain ⟨nodes, given, -⟩ := explored.closed node member
  exact Option.isSome_iff_exists.mpr ⟨nodes, given⟩

theorem visit_complete (depth : Nat) (root : Node) (after : List Node) (ran : visit next depth root [] = some after) :
    Complete next [root] after := by
  apply visit_all_complete depth
  rw [visitAll, ran]
  rfl

end Explore

end Search
