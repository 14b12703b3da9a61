import Mathlib.Data.Fintype.EquivFin
import Mathlib.Logic.Relation
import Mathlib.Order.WellFounded

set_option autoImplicit false

namespace Dag

variable {Node : Type*} {edge : Node → Node → Prop} {root : Node}

-- A finite graph is only asked to be acyclic where the root can see it.
def AcyclicFrom (edge : Node → Node → Prop) (root : Node) : Prop :=
  ∀ node, Relation.ReflTransGen edge root node → ¬ Relation.TransGen edge node node

theorem acyclic_below (acyclic : AcyclicFrom edge root) (node : Node) (below : Relation.ReflTransGen edge root node) :
    AcyclicFrom edge node :=
  fun lower path => acyclic lower (below.trans path)

theorem ranked_acyclic (rank : Node → Nat) (descends : ∀ upper lower, edge upper lower → rank lower < rank upper) (node : Node) :
    ¬ Relation.TransGen edge node node := by
  have lower : ∀ upper lower, Relation.TransGen edge upper lower → rank lower < rank upper := by
    intro upper lower path
    induction path with
    | single step => exact descends upper _ step
    | tail _ step ih => exact (descends _ _ step).trans ih
  exact fun cycle => Nat.lt_irrefl _ (lower node node cycle)

-- Induction from the leaves up: what holds of a node once it holds of every
-- node strictly below holds of all the root can see.
theorem below_induction [Finite Node] (acyclic : AcyclicFrom edge root) (property : Node → Prop)
    (climb : ∀ node, Relation.ReflTransGen edge root node →
      (∀ lower, Relation.TransGen edge node lower → property lower) → property node)
    (node : Node) (below : Relation.ReflTransGen edge root node) : property node := by
  let Visible := { node // Relation.ReflTransGen edge root node }
  let strictly : Visible → Visible → Prop := fun lower upper => Relation.TransGen edge upper.1 lower.1
  have finite : Finite Visible := Subtype.finite
  have irreflexive : Std.Irrefl strictly := ⟨fun node cycle => acyclic node.1 node.2 cycle⟩
  have transitive : IsTrans Visible strictly := ⟨fun _ _ _ first second => second.trans first⟩
  have founded : WellFounded strictly := Finite.wellFounded_of_trans_of_irrefl strictly
  refine founded.induction (C := fun node => property node.1) ⟨node, below⟩ ?_
  intro upper lowers
  exact climb upper.1 upper.2 fun lower path => lowers ⟨lower, upper.2.trans path.to_reflTransGen⟩ path

theorem closed_below (closed : Node → Prop) (down : ∀ node next, closed node → edge node next → closed next)
    (node lower : Node) (holds : closed node) (below : Relation.ReflTransGen edge node lower) : closed lower := by
  induction below with
  | refl => exact holds
  | tail _ step ih => exact down _ _ ih step

-- A choice that says of each node what a rule reading only the nodes below
-- says is determined by the rule.
theorem local_rule_unique [Finite Node] {Choice : Type*} (acyclic : AcyclicFrom edge root)
    (member rule : Choice → Node → Prop)
    (localRule : ∀ node left right, (∀ lower, Relation.TransGen edge node lower → (member left lower ↔ member right lower)) →
      (rule left node ↔ rule right node))
    (left right : Choice)
    (solvesLeft : ∀ node, Relation.ReflTransGen edge root node → (member left node ↔ rule left node))
    (solvesRight : ∀ node, Relation.ReflTransGen edge root node → (member right node ↔ rule right node))
    (node : Node) (below : Relation.ReflTransGen edge root node) : member left node ↔ member right node := by
  refine below_induction acyclic (fun node => member left node ↔ member right node) ?_ node below
  intro node below agree
  calc member left node ↔ rule left node := solvesLeft node below
    _ ↔ rule right node := localRule node left right agree
    _ ↔ member right node := (solvesRight node below).symm

-- Induction on the marked nodes strictly between two nodes: what holds where
-- there are none and goes through a marked node holds of every pair.
theorem between_induction [Finite Node] (acyclic : ∀ node, ¬ Relation.TransGen edge node node) (mark : Node → Prop)
    (property : Node → Node → Prop)
    (near : ∀ upper lower, Relation.TransGen edge upper lower →
      (∀ between, mark between → Relation.TransGen edge upper between → ¬ Relation.TransGen edge between lower) → property upper lower)
    (through : ∀ upper between lower, mark between → Relation.TransGen edge upper between → Relation.TransGen edge between lower →
      property upper between → property between lower → property upper lower)
    (upper lower : Node) (below : Relation.TransGen edge upper lower) : property upper lower := by
  classical
  have finite := Fintype.ofFinite Node
  let inside : Node → Node → Finset Node := fun upper lower =>
    Finset.univ.filter fun node => Relation.TransGen edge upper node ∧ Relation.TransGen edge node lower
  have member : ∀ upper lower node, node ∈ inside upper lower ↔
      Relation.TransGen edge upper node ∧ Relation.TransGen edge node lower := by simp [inside]
  induction size : (inside upper lower).card using Nat.strong_induction_on generalizing upper lower with
  | _ n ih =>
      by_cases marked : ∃ between, mark between ∧ Relation.TransGen edge upper between ∧ Relation.TransGen edge between lower
      · obtain ⟨between, mark, first, second⟩ := marked
        have here : between ∈ inside upper lower := (member upper lower between).mpr ⟨first, second⟩
        have above : (inside upper between).card < n := by
          rw [← size]
          apply Finset.card_lt_card
          rw [Finset.ssubset_iff_of_subset fun node within => ?_]
          · exact ⟨between, here, fun within => acyclic between ((member upper between between).mp within).2⟩
          · obtain ⟨left, right⟩ := (member upper between node).mp within
            exact (member upper lower node).mpr ⟨left, right.trans second⟩
        have beneath : (inside between lower).card < n := by
          rw [← size]
          apply Finset.card_lt_card
          rw [Finset.ssubset_iff_of_subset fun node within => ?_]
          · exact ⟨between, here, fun within => acyclic between ((member between lower between).mp within).1⟩
          · obtain ⟨left, right⟩ := (member between lower node).mp within
            exact (member upper lower node).mpr ⟨first.trans left, right⟩
        exact through upper between lower mark first second (ih _ above upper between first rfl) (ih _ beneath between lower second rfl)
      · exact near upper lower below fun between mark first second => marked ⟨between, mark, first, second⟩

end Dag
