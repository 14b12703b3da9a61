import Mathlib.Algebra.BigOperators.Group.List.Basic
import Mathlib.Algebra.Ring.Nat
import Mathlib.Data.List.Count
import Mathlib.Data.List.Nodup

set_option autoImplicit false

namespace Incidence

variable {Node : Type*} [DecidableEq Node]

-- The ends that a node meets over the edges, in their order. An edge from a
-- node to itself is met twice there.
def ends (node : Node) (edge : Node × Node) : List Node :=
  (if edge.2 = node then [edge.1] else []) ++ (if edge.1 = node then [edge.2] else [])

def incident (edges : List (Node × Node)) (node : Node) : List Node := edges.flatMap (ends node)

@[simp] theorem incident_nil (node : Node) : incident [] node = [] := rfl

theorem incident_cons (edge : Node × Node) (edges : List (Node × Node)) (node : Node) :
    incident (edge :: edges) node = ends node edge ++ incident edges node := List.flatMap_cons

theorem incident_append (edges more : List (Node × Node)) (node : Node) :
    incident (edges ++ more) node = incident edges node ++ incident more node := List.flatMap_append

theorem mem_incident (edges : List (Node × Node)) (node other : Node) :
    other ∈ incident edges node ↔ (other, node) ∈ edges ∨ (node, other) ∈ edges := by
  induction edges with
  | nil => simp
  | cons edge edges ih =>
      obtain ⟨src, dst⟩ := edge
      have here : other ∈ ends node (src, dst) ↔ (other, node) = (src, dst) ∨ (node, other) = (src, dst) := by
        rw [ends, List.mem_append, Prod.mk.injEq, Prod.mk.injEq]
        apply or_congr
        · by_cases arrives : dst = node
          · simp [arrives]
          · simp [arrives, Ne.symm arrives]
        · by_cases leaves : src = node
          · simp [leaves]
          · simp [leaves, Ne.symm leaves]
      rw [incident_cons, List.mem_append, here, ih, List.mem_cons, List.mem_cons, or_or_or_comm]

theorem count_ends (src dst node other : Node) :
    (ends node (src, dst)).count other = (if dst = node ∧ src = other then 1 else 0) + (if src = node ∧ dst = other then 1 else 0) := by
  rw [ends, List.count_append]
  congr 1
  · by_cases arrives : dst = node
    · simp [arrives, List.count_singleton]
    · simp [arrives]
  · by_cases leaves : src = node
    · simp [leaves, List.count_singleton]
    · simp [leaves]

theorem ends_count (edge : Node × Node) (node other : Node) : (ends node edge).count other = (ends other edge).count node := by
  obtain ⟨src, dst⟩ := edge
  rw [count_ends, count_ends, Nat.add_comm]
  simp only [and_comm]

theorem incident_count (edges : List (Node × Node)) (node other : Node) :
    (incident edges node).count other = (incident edges other).count node := by
  induction edges with
  | nil => rfl
  | cons edge edges ih => rw [incident_cons, incident_cons, List.count_append, List.count_append, ends_count, ih]

theorem sum_count (nodes : List Node) (target : Node) :
    (nodes.map fun node => if target = node then 1 else 0).sum = nodes.count target := by
  induction nodes with
  | nil => rfl
  | cons node nodes ih =>
      rw [List.map_cons, List.sum_cons, ih, List.count_cons, Nat.add_comm]
      by_cases same : target = node
      · simp [same]
      · simp [same, Ne.symm same]

theorem ends_total (nodes : List Node) (distinct : nodes.Nodup) (edge : Node × Node) (src : edge.1 ∈ nodes) (dst : edge.2 ∈ nodes) :
    (nodes.map fun node => (ends node edge).length).sum = 2 := by
  have split : ∀ node, (ends node edge).length = (if edge.1 = node then 1 else 0) + (if edge.2 = node then 1 else 0) := by
    intro node
    by_cases leaves : edge.1 = node <;> by_cases arrives : edge.2 = node <;> simp [ends, leaves, arrives]
  simp only [split, List.sum_map_add, sum_count, List.count_eq_one_of_mem distinct src, List.count_eq_one_of_mem distinct dst]

theorem incident_total (nodes : List Node) (distinct : nodes.Nodup) (edges : List (Node × Node))
    (inside : ∀ edge ∈ edges, edge.1 ∈ nodes ∧ edge.2 ∈ nodes) :
    (nodes.map fun node => (incident edges node).length).sum = 2 * edges.length := by
  induction edges with
  | nil => simp
  | cons edge edges ih =>
      obtain ⟨src, dst⟩ := inside edge List.mem_cons_self
      have rest := ih fun other member => inside other (List.mem_cons_of_mem edge member)
      simp only [incident_cons, List.length_append, List.sum_map_add, ends_total nodes distinct edge src dst, rest, List.length_cons]
      omega

end Incidence
