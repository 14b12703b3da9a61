import Pwrake.Lib.Incidence
import Mathlib.Logic.Function.Basic
import Mathlib.Algebra.Order.Ring.Int
import Mathlib.Data.Finset.Insert

set_option autoImplicit false

namespace Pwrake

namespace Metis

-- adj refers to other vertices of the list; a vertex is referred to by the
-- place it stands at.
structure Vertex (Task : Type*) where
  task : Task
  weight : Int
  index : Nat
  adj : List (Nat × Int)

-- index is the Hash from a task to the place of its vertex. followed is not in
-- the source: it keeps the calls of add_edge.
structure VertexList (Task : Type*) where
  list : List (Vertex Task)
  index : Task → Option Nat
  edges : List (Nat × Nat)
  dagTraced : Finset Task
  followed : List (Task × Task)

namespace VertexList

variable {Task : Type*} [DecidableEq Task]

def blank : VertexList Task := ⟨[], fun _ => none, [], ∅, []⟩

def addAdj (vertex : Nat) (weight : Int) (v : Vertex Task) : Vertex Task := { v with adj := v.adj ++ [(vertex, weight)] }

def newVertex (weight : Task → Int) (s : VertexList Task) (x : Task) : VertexList Task :=
  { s with
    list := s.list ++ [⟨x, weight x, s.list.length, []⟩]
    index := Function.update s.index x (some s.list.length) }

def addVertex (weight : Task → Int) (s : VertexList Task) (x : Task) : VertexList Task :=
  if (s.index x).isNone then newVertex weight s x else s

def link (s : VertexList Task) (srcIdx dstIdx : Nat) (edgeWeight : Int) : VertexList Task :=
  { s with
    list := (s.list.modify dstIdx (addAdj srcIdx edgeWeight)).modify srcIdx (addAdj dstIdx edgeWeight)
    edges := s.edges ++ [(srcIdx, dstIdx)] }

def place (s : VertexList Task) (x : Task) : Nat := (s.index x).getD 0

def addEdge (weight : Task → Int) (s : VertexList Task) (src dst : Task) : VertexList Task :=
  let called := { s with followed := s.followed ++ [(src, dst)] }
  if 0 < weight src ∧ 0 < weight dst then
    let both := addVertex weight (addVertex weight called src) dst
    if 0 < weight src * weight dst then link both (place both src) (place both dst) (weight src * weight dst) else both
  else called

-- The lines of metis.graph. A neighbour is printed as index + 1 and the weight
-- of the edge.
def neighbours (s : VertexList Task) (v : Vertex Task) : List (Nat × Int) :=
  v.adj.filterMap fun (vertex, weight) => (s.list[vertex]?).map fun other => (other.index + 1, weight)

def metisInput (s : VertexList Task) (v : Vertex Task) : String :=
  " ".intercalate (toString v.weight :: (neighbours s v).map fun (number, weight) => toString number ++ " " ++ toString weight)

def metisGraph (s : VertexList Task) : List String :=
  (toString s.list.length ++ " " ++ toString s.edges.length ++ " 11") :: s.list.map (metisInput s)

-- The calls of add_edge that draw an edge.
def drawn (weight : Task → Int) (pairs : List (Task × Task)) : List (Task × Task) :=
  pairs.filter fun pair => 0 < weight pair.1 ∧ 0 < weight pair.2

omit [DecidableEq Task] in
theorem drawn_append (weight : Task → Int) (pairs : List (Task × Task)) (src dst : Task) :
    drawn weight (pairs ++ [(src, dst)]) = drawn weight pairs ++ (if 0 < weight src ∧ 0 < weight dst then [(src, dst)] else []) := by
  rw [drawn, drawn, List.filter_append]
  congr 1
  by_cases heavy : 0 < weight src ∧ 0 < weight dst
  · simp [heavy]
  · rw [if_neg heavy, List.filter_cons_of_neg (by simpa using heavy), List.filter_nil]

-- The list holds the graph of the given edges between tasks.
structure Depicts (weight : Task → Int) (s : VertexList Task) (pairs : List (Task × Task)) : Prop where
  placed : ∀ (x : Task) (i : Nat), s.index x = some i ↔ (s.list[i]?).map Vertex.task = some x
  numbered : ∀ (i : Nat) (v : Vertex Task), s.list[i]? = some v → v.index = i ∧ v.weight = weight v.task
  covered : ∀ pair ∈ pairs, (s.index pair.1).isSome ∧ (s.index pair.2).isSome
  edges : s.edges = pairs.map fun pair => (place s pair.1, place s pair.2)
  adjacent : ∀ (i : Nat) (v : Vertex Task), s.list[i]? = some v →
    v.adj = (Incidence.incident pairs v.task).map fun other => (place s other, weight other * weight v.task)

section Build

variable {weight : Task → Int} {s : VertexList Task} {pairs : List (Task × Task)}

theorem blank_depicts (weight : Task → Int) : Depicts weight (blank : VertexList Task) [] :=
  ⟨by simp [blank], by simp [blank], by simp, rfl, by simp [blank]⟩

omit [DecidableEq Task] in
theorem place_eq (x : Task) (i : Nat) (here : s.index x = some i) : place s x = i := by rw [place, here, Option.getD_some]

theorem depicts_at (depicts : Depicts weight s pairs) (i : Nat) (v : Vertex Task) (here : s.list[i]? = some v) :
    s.index v.task = some i := by
  rw [depicts.placed, here, Option.map_some]

theorem depicts_vertex (depicts : Depicts weight s pairs) (x : Task) (known : (s.index x).isSome) :
    ∃ v, s.list[place s x]? = some v ∧ v.task = x := by
  obtain ⟨i, here⟩ := Option.isSome_iff_exists.mp known
  rw [place_eq x i here]
  exact Option.map_eq_some_iff.mp ((depicts.placed x i).mp here)

theorem incident_known (depicts : Depicts weight s pairs) (x other : Task) (member : other ∈ Incidence.incident pairs x) :
    (s.index other).isSome := by
  rcases (Incidence.mem_incident pairs x other).mp member with before | behind
  · exact (depicts.covered _ before).1
  · exact (depicts.covered _ behind).2

theorem depicts_calls (depicts : Depicts weight s pairs) (calls : List (Task × Task)) :
    Depicts weight { s with followed := calls } pairs :=
      ⟨depicts.placed, depicts.numbered, depicts.covered, depicts.edges, depicts.adjacent⟩

-- A new vertex goes to the end and leaves all the others where they are.
theorem new_vertex_list (x : Task) (i : Nat) (v : Vertex Task) :
    (newVertex weight s x).list[i]? = some v ↔
      s.list[i]? = some v ∨ i = s.list.length ∧ v = ⟨x, weight x, s.list.length, []⟩ := by
  rw [newVertex, List.getElem?_append]
  split
  · rename_i inside
    exact ⟨.inl, fun here => here.resolve_right fun last => absurd inside (by omega)⟩
  · rename_i outside
    rw [List.getElem?_eq_none (Nat.le_of_not_lt outside)]
    by_cases last : i = s.list.length
    · subst last
      simp [eq_comm]
    · rw [List.getElem?_eq_none (by simp only [List.length_singleton]; omega)]
      simp [last]

theorem new_vertex_index (x y : Task) : (newVertex weight s x).index y = if y = x then some s.list.length else s.index y := by
  exact Function.update_apply s.index x (some s.list.length) y

theorem new_vertex_keeps (x y : Task) (absent : s.index x = none) (known : (s.index y).isSome) :
    (newVertex weight s x).index y = s.index y := by
  rw [new_vertex_index, if_neg]
  rintro rfl
  rw [absent] at known
  cases known

theorem new_vertex_placed (depicts : Depicts weight s pairs) (x : Task) (absent : s.index x = none) (y : Task) (i : Nat) :
    (newVertex weight s x).index y = some i ↔ ((newVertex weight s x).list[i]?).map Vertex.task = some y := by
  rw [new_vertex_index, Option.map_eq_some_iff]
  constructor
  · intro here
    split at here
    · rename_i same
      cases here
      exact ⟨_, (new_vertex_list x _ _).mpr (.inr ⟨rfl, rfl⟩), same.symm⟩
    · obtain ⟨v, there, named⟩ := Option.map_eq_some_iff.mp ((depicts.placed y i).mp here)
      exact ⟨v, (new_vertex_list x i v).mpr (.inl there), named⟩
  · rintro ⟨v, here, rfl⟩
    rcases (new_vertex_list x i v).mp here with old | ⟨last, rfl⟩
    · have named := depicts_at depicts i v old
      rw [if_neg, named]
      intro same
      rw [same, absent] at named
      cases named
    · rw [if_pos rfl, last]

-- No edge has come yet to a task without a vertex.
theorem absent_incident (depicts : Depicts weight s pairs) (x : Task) (absent : s.index x = none) :
    Incidence.incident pairs x = [] := by
  apply List.eq_nil_iff_forall_not_mem.mpr
  intro other member
  have back := (Incidence.mem_incident pairs x other).mp member
  have known := incident_known depicts other x ((Incidence.mem_incident pairs other x).mpr back.symm)
  rw [absent] at known
  cases known

theorem new_vertex_depicts (depicts : Depicts weight s pairs) (x : Task) (absent : s.index x = none) :
    Depicts weight (newVertex weight s x) pairs := by
  have stays : ∀ y, (s.index y).isSome → place (newVertex weight s x) y = place s y := by
    intro y known
    rw [place, place, new_vertex_keeps x y absent known]
  refine ⟨new_vertex_placed depicts x absent, fun i v here => ?_, fun pair member => ?_, ?_, fun i v here => ?_⟩
  · rcases (new_vertex_list x i v).mp here with old | ⟨last, rfl⟩
    · exact depicts.numbered i v old
    · exact ⟨last.symm, rfl⟩
  · obtain ⟨src, dst⟩ := depicts.covered pair member
    rw [new_vertex_keeps x _ absent src, new_vertex_keeps x _ absent dst]
    exact ⟨src, dst⟩
  · refine depicts.edges.trans ?_
    apply List.map_congr_left
    intro pair member
    obtain ⟨src, dst⟩ := depicts.covered pair member
    rw [stays pair.1 src, stays pair.2 dst]
  · rcases (new_vertex_list x i v).mp here with old | ⟨last, rfl⟩
    · rw [depicts.adjacent i v old]
      apply List.map_congr_left
      intro other member
      rw [stays other (incident_known depicts v.task other member)]
    · rw [absent_incident depicts x absent, List.map_nil]

theorem add_vertex_depicts (depicts : Depicts weight s pairs) (x : Task) : Depicts weight (addVertex weight s x) pairs := by
  rw [addVertex]
  split
  · rename_i absent
    exact new_vertex_depicts depicts x (Option.isNone_iff_eq_none.mp absent)
  · exact depicts

theorem add_vertex_known (x : Task) : ((addVertex weight s x).index x).isSome := by
  rw [addVertex]
  split
  · rw [new_vertex_index, if_pos rfl]
    rfl
  · rename_i known
    simpa [← Option.isSome_iff_ne_none] using known

theorem add_vertex_keeps (x y : Task) (known : (s.index y).isSome) : ((addVertex weight s x).index y).isSome := by
  rw [addVertex]
  split
  · rename_i absent
    rwa [new_vertex_keeps x y (Option.isNone_iff_eq_none.mp absent) known]
  · exact known

-- A vertex with the ends of one more edge.
def met (weight : Task → Int) (s : VertexList Task) (edge : Task × Task) (v : Vertex Task) : Vertex Task :=
  { v with adj := v.adj ++ (Incidence.ends v.task edge).map fun other => (place s other, weight other * weight v.task) }

theorem place_iff (depicts : Depicts weight s pairs) (x : Task) (known : (s.index x).isSome) (i : Nat) (v : Vertex Task)
    (here : s.list[i]? = some v) : place s x = i ↔ x = v.task := by
  constructor
  · rintro rfl
    obtain ⟨other, there, rfl⟩ := depicts_vertex depicts x known
    rw [here] at there
    cases there
    rfl
  · rintro rfl
    exact place_eq v.task i (depicts_at depicts i v here)

theorem link_list (depicts : Depicts weight s pairs) (src dst : Task) (srcKnown : (s.index src).isSome)
    (dstKnown : (s.index dst).isSome) (i : Nat) :
    (link s (place s src) (place s dst) (weight src * weight dst)).list[i]? = (s.list[i]?).map (met weight s (src, dst)) := by
  rw [link, List.getElem?_modify, List.getElem?_modify]
  cases here : s.list[i]? with
  | none => rfl
  | some v =>
      have arrives := place_iff depicts dst dstKnown i v here
      have leaves := place_iff depicts src srcKnown i v here
      simp only [arrives, leaves]
      by_cases into : dst = v.task
      · by_cases out : src = v.task
        · simp [met, Incidence.ends, addAdj, into, out]
        · simp [met, Incidence.ends, addAdj, into, out]
      · by_cases out : src = v.task
        · simp [met, Incidence.ends, addAdj, into, out, mul_comm]
        · simp [met, Incidence.ends, into, out]

theorem link_depicts (depicts : Depicts weight s pairs) (src dst : Task) (srcKnown : (s.index src).isSome)
    (dstKnown : (s.index dst).isSome) :
    Depicts weight (link s (place s src) (place s dst) (weight src * weight dst)) (pairs ++ [(src, dst)]) := by
  have entry := link_list depicts src dst srcKnown dstKnown
  have back : ∀ (i : Nat) v, (link s (place s src) (place s dst) (weight src * weight dst)).list[i]? = some v →
      ∃ old, s.list[i]? = some old ∧ met weight s (src, dst) old = v := by
    intro i v here
    rw [entry] at here
    exact Option.map_eq_some_iff.mp here
  refine ⟨fun x i => ?_, fun i v here => ?_, fun pair member => ?_, ?_, fun i v here => ?_⟩
  · rw [entry, Option.map_map]
    exact depicts.placed x i
  · obtain ⟨old, there, rfl⟩ := back i v here
    exact depicts.numbered i old there
  · rcases List.mem_append.mp member with before | itself
    · exact depicts.covered pair before
    · rw [List.mem_singleton.mp itself]
      exact ⟨srcKnown, dstKnown⟩
  · rw [List.map_append, link, depicts.edges]
    rfl
  · obtain ⟨old, there, rfl⟩ := back i v here
    rw [Incidence.incident_append, List.map_append, Incidence.incident_cons, Incidence.incident_nil, List.append_nil]
    exact congrArg (· ++ _) (depicts.adjacent i old there)

theorem add_edge_followed (src dst : Task) : (addEdge weight s src dst).followed = s.followed ++ [(src, dst)] := by
  have kept : ∀ (s : VertexList Task) x, (addVertex weight s x).followed = s.followed := by
    intro s x
    rw [addVertex]
    split
    · rfl
    · rfl
  rw [addEdge]
  simp only
  split
  · split
    · rw [link, kept, kept]
    · rw [kept, kept]
  · rfl

theorem add_edge_depicts (src dst : Task) (depicts : Depicts weight s (drawn weight s.followed)) :
    Depicts weight (addEdge weight s src dst) (drawn weight (addEdge weight s src dst).followed) := by
  have called := depicts_calls depicts (s.followed ++ [(src, dst)])
  rw [add_edge_followed, drawn_append, addEdge]
  by_cases heavy : 0 < weight src ∧ 0 < weight dst
  · have product : 0 < weight src * weight dst := mul_pos heavy.1 heavy.2
    have first := add_vertex_depicts called src
    simp only [if_pos heavy, if_pos product]
    exact link_depicts (add_vertex_depicts first dst) src dst (add_vertex_keeps dst src (add_vertex_known src)) (add_vertex_known dst)
  · simp only [if_neg heavy, List.append_nil]
    exact called

end Build

section Print

variable {weight : Task → Int} {s : VertexList Task} {pairs : List (Task × Task)}

theorem tasks_distinct (depicts : Depicts weight s pairs) : (s.list.map Vertex.task).Nodup := by
  rw [List.Nodup, List.pairwise_map, List.pairwise_iff_getElem]
  intro i j left right before same
  have first := depicts_at depicts i s.list[i] (List.getElem?_eq_getElem left)
  have second := depicts_at depicts j s.list[j] (List.getElem?_eq_getElem right)
  rw [same, second, Option.some.injEq] at first
  omega

theorem adj_total (depicts : Depicts weight s pairs) : (s.list.map fun v => v.adj.length).sum = 2 * s.edges.length := by
  have degree : ∀ v ∈ s.list, v.adj.length = (Incidence.incident pairs v.task).length := by
    intro v member
    obtain ⟨i, here⟩ := List.mem_iff_getElem?.mp member
    rw [depicts.adjacent i v here, List.length_map]
  have inside : ∀ pair ∈ pairs, pair.1 ∈ s.list.map Vertex.task ∧ pair.2 ∈ s.list.map Vertex.task := by
    intro pair member
    obtain ⟨src, dst⟩ := depicts.covered pair member
    obtain ⟨v, first, named⟩ := depicts_vertex depicts pair.1 src
    obtain ⟨w, second, called⟩ := depicts_vertex depicts pair.2 dst
    exact ⟨named ▸ List.mem_map_of_mem (List.mem_of_getElem? first), called ▸ List.mem_map_of_mem (List.mem_of_getElem? second)⟩
  calc (s.list.map fun v => v.adj.length).sum
      = (s.list.map fun v => (Incidence.incident pairs v.task).length).sum := by rw [List.map_congr_left degree]
    _ = ((s.list.map Vertex.task).map fun x => (Incidence.incident pairs x).length).sum := by rw [List.map_map]; rfl
    _ = 2 * pairs.length := Incidence.incident_total _ (tasks_distinct depicts) pairs inside
    _ = 2 * s.edges.length := by rw [depicts.edges, List.length_map]

theorem adj_count (depicts : Depicts weight s pairs) (i j : Nat) (u v : Vertex Task) (first : s.list[i]? = some u)
    (second : s.list[j]? = some v) : u.adj.count (j, u.weight * v.weight) = (Incidence.incident pairs u.task).count v.task := by
  rw [depicts.adjacent i u first, List.count, List.countP_map, List.count]
  apply List.countP_congr
  intro other member
  have known := incident_known depicts u.task other member
  have spot := place_iff depicts other known j v second
  have heavy := (depicts.numbered i u first).2
  have other_heavy := (depicts.numbered j v second).2
  simp only [Function.comp_apply, beq_iff_eq, Prod.mk.injEq, spot]
  constructor
  · exact And.left
  · rintro rfl
    exact ⟨rfl, by rw [heavy, other_heavy, mul_comm]⟩

theorem adj_mutual (depicts : Depicts weight s pairs) (i j : Nat) (w : Int) (u : Vertex Task) (here : s.list[i]? = some u)
    (listed : (j, w) ∈ u.adj) :
    ∃ v, s.list[j]? = some v ∧ w = u.weight * v.weight ∧ v.adj.count (i, w) = u.adj.count (j, w) := by
  have member := listed
  rw [depicts.adjacent i u here, List.mem_map] at member
  obtain ⟨other, met, same⟩ := member
  obtain ⟨v, there, rfl⟩ := depicts_vertex depicts other (incident_known depicts u.task other met)
  rw [Prod.mk.injEq] at same
  rw [same.1] at there
  have product : w = u.weight * v.weight := by
    rw [← same.2, (depicts.numbered i u here).2, (depicts.numbered j v there).2, mul_comm]
  refine ⟨v, there, product, ?_⟩
  have forth := adj_count depicts i j u v here there
  have back := adj_count depicts j i v u there here
  rw [product, forth, mul_comm, back, Incidence.incident_count]

theorem neighbours_printed (depicts : Depicts weight s pairs) (i : Nat) (v : Vertex Task) (here : s.list[i]? = some v) :
    neighbours s v = v.adj.map fun entry => (entry.1 + 1, entry.2) := by
  rw [neighbours, ← List.filterMap_eq_map]
  apply List.filterMap_congr
  rintro ⟨j, w⟩ listed
  obtain ⟨other, there, -⟩ := adj_mutual depicts i j w v here listed
  simp [there, (depicts.numbered j other there).1]

-- The text of metis.graph, from the edges between tasks.
theorem metis_graph_lines (depicts : Depicts weight s pairs) :
    metisGraph s = (toString s.list.length ++ " " ++ toString pairs.length ++ " 11") :: s.list.map fun v =>
      " ".intercalate (toString (weight v.task) :: (Incidence.incident pairs v.task).map fun other =>
        toString (place s other + 1) ++ " " ++ toString (weight other * weight v.task)) := by
  rw [metisGraph, depicts.edges, List.length_map]
  congr 1
  apply List.map_congr_left
  intro v member
  obtain ⟨i, here⟩ := List.mem_iff_getElem?.mp member
  rw [metisInput, neighbours_printed depicts i v here, (depicts.numbered i v here).2, depicts.adjacent i v here, List.map_map,
    List.map_map]
  rfl

end Print

end VertexList

end Metis

end Pwrake
