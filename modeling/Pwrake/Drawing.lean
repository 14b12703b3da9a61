import Pwrake.Graphviz

set_option autoImplicit false

namespace Pwrake

namespace Graphviz

section Push

variable {Name : Type*}

def NodeOf (g : Graphviz Name) (name : Name) (tag : Nat) : Prop := g.filenodeId name = some tag ∨ g.tasknodeId name = some tag

def Joins (g : Graphviz Name) (tag next : Nat) : Prop := (some tag, some next) ∈ g.edges

-- The nodes and the edges drawn for some files, some files with actions and
-- some pairs of a file and its target. An owned file has the edge from its
-- task node to its file node.
structure Drawing (g : Graphviz Name) (files tasks owned : Finset Name) (links : Name → Name → Prop) : Prop where
  filenode : ∀ name, (g.filenodeId name).isSome ↔ name ∈ files
  tasknode : ∀ name, (g.tasknodeId name).isSome ↔ name ∈ tasks
  tags : g.nodes.map GraphNode.tag = List.range g.count
  owner : ∀ name tag, NodeOf g name tag → tag < g.count ∧ g.nodeName tag = some name
  edges : ∀ edge, edge ∈ g.edges ↔
    (∃ name ∈ owned, edge = (g.tasknodeId name, g.filenodeId name)) ∨ ∃ name target, links name target ∧ edge = fileedge g name target
  owners : ∀ name ∈ owned, name ∈ files ∧ name ∈ tasks
  ends : ∀ name target, links name target → name ∈ files ∧ target ∈ files

variable {g : Graphviz Name} {files tasks owned : Finset Name} {links : Name → Name → Prop}

theorem drawing_marks (drawing : Drawing g files tasks owned links) (traced : Finset Name) (visits : List (Name × Option Name)) :
    Drawing { g with traced := traced, visits := visits } files tasks owned links :=
  ⟨drawing.filenode, drawing.tasknode, drawing.tags, drawing.owner, drawing.edges, drawing.owners, drawing.ends⟩

theorem drawing_links (more : Name → Name → Prop) (same : ∀ name target, more name target ↔ links name target)
    (drawing : Drawing g files tasks owned links) : Drawing g files tasks owned more := by
  have equal : more = links := funext fun name => funext fun target => propext (same name target)
  exact equal ▸ drawing

theorem drawing_new_node [DecidableEq Name] (drawing : Drawing g files tasks owned links) (label : List Char) (shape : Shape)
    (name : Name) :
    (newNode label shape g name).nodes.map GraphNode.tag = List.range (newNode label shape g name).count ∧
      ∀ other tag, NodeOf g other tag ∨ (other = name ∧ tag = g.count) →
        tag < (newNode label shape g name).count ∧ (newNode label shape g name).nodeName tag = some other := by
  constructor
  · rw [newNode, List.map_append, drawing.tags, List.range_succ]
    rfl
  · rintro other tag (before | ⟨rfl, rfl⟩)
    · obtain ⟨small, named⟩ := drawing.owner other tag before
      exact ⟨Nat.lt_succ_of_lt small, (Function.update_of_ne (Nat.ne_of_lt small) _ _).trans named⟩
    · exact ⟨Nat.lt_succ_self _, Function.update_self _ _ _⟩

-- The edges stay what they are where the ends keep their nodes.
theorem drawing_edges (drawing : Drawing g files tasks owned links) (after : Graphviz Name) (same : after.edges = g.edges)
    (owners : ∀ name ∈ owned, after.tasknodeId name = g.tasknodeId name ∧ after.filenodeId name = g.filenodeId name)
    (ends : ∀ name target, links name target → fileedge after name target = fileedge g name target) (edge : Option Nat × Option Nat) :
    edge ∈ after.edges ↔ (∃ name ∈ owned, edge = (after.tasknodeId name, after.filenodeId name)) ∨
      ∃ name target, links name target ∧ edge = fileedge after name target := by
  rw [same, drawing.edges]
  apply or_congr
  · refine exists_congr fun name => and_congr_right fun member => ?_
    rw [(owners name member).1, (owners name member).2]
  · refine exists_congr fun name => exists_congr fun target => and_congr_right fun linked => ?_
    rw [ends name target linked]

variable [DecidableEq Name]

-- A table of nodes that gets one more entry.
theorem entered_known (table : Name → Option Nat) (names : Finset Name) (listed : ∀ name, (table name).isSome ↔ name ∈ names)
    (name : Name) (tag : Nat) (other : Name) : (Function.update table name (some tag) other).isSome ↔ other ∈ insert name names := by
  rw [Finset.mem_insert, ← listed, Function.update_apply]
  split
  · rename_i same
    simp [same]
  · rename_i different
    simp [different]

theorem entered_tag (table : Name → Option Nat) (name : Name) (tag : Nat) (other : Name) (here : Nat)
    (found : Function.update table name (some tag) other = some here) : table other = some here ∨ (other = name ∧ here = tag) := by
  rw [Function.update_apply] at found
  split at found
  · rename_i same
    exact .inr ⟨same, (Option.some.inj found).symm⟩
  · exact .inl found

theorem filenode_added (drawing : Drawing g files tasks owned links) (after : Graphviz Name) (name : Name) (new : name ∉ files)
    (filenodeId : after.filenodeId = Function.update g.filenodeId name (some g.count)) (tasknodeId : after.tasknodeId = g.tasknodeId)
    (edges : after.edges = g.edges) (tags : after.nodes.map GraphNode.tag = List.range after.count)
    (owner : ∀ other tag, NodeOf g other tag ∨ (other = name ∧ tag = g.count) → tag < after.count ∧ after.nodeName tag = some other) :
    Drawing after (insert name files) tasks owned links := by
  have kept : ∀ other ∈ files, after.filenodeId other = g.filenodeId other := by
    intro other member
    rw [filenodeId]
    apply Function.update_of_ne
    rintro rfl
    exact new member
  refine ⟨fun other => ?_, ?_, tags, fun other tag node => ?_, ?_, fun other member => ?_, fun other target linked => ?_⟩
  · rw [filenodeId]
    exact entered_known g.filenodeId files drawing.filenode name g.count other
  · rw [tasknodeId]
    exact drawing.tasknode
  · apply owner other tag
    rw [NodeOf, filenodeId, tasknodeId] at node
    rcases node with here | there
    · rcases entered_tag g.filenodeId name g.count other tag here with before | new
      · exact .inl (.inl before)
      · exact .inr new
    · exact .inl (.inr there)
  · apply drawing_edges drawing after edges
    · exact fun other member => ⟨congrFun tasknodeId other, kept other (drawing.owners other member).1⟩
    · intro other target linked
      obtain ⟨left, right⟩ := drawing.ends other target linked
      rw [fileedge, fileedge, kept other left, kept target right, tasknodeId]
  · exact ⟨Finset.mem_insert_of_mem (drawing.owners other member).1, (drawing.owners other member).2⟩
  · obtain ⟨left, right⟩ := drawing.ends other target linked
    exact ⟨Finset.mem_insert_of_mem left, Finset.mem_insert_of_mem right⟩

theorem push_filenode_drawing (drawing : Drawing g files tasks owned links) (text : Name → List Char) (name : Name) :
    Drawing (pushFilenode text g name) (insert name files) tasks owned links := by
  rw [pushFilenode]
  split
  · rename_i absent
    have new : name ∉ files := by
      rw [← drawing.filenode, Option.isNone_iff_eq_none.mp absent]
      simp
    obtain ⟨tags, owner⟩ := drawing_new_node drawing (trim (text name)) .box name
    exact filenode_added drawing _ name new rfl rfl rfl tags owner
  · rename_i known
    have member : name ∈ files := by
      rw [← drawing.filenode]
      simpa [← Option.isSome_iff_ne_none] using known
    rwa [Finset.insert_eq_of_mem member]

-- The new node is the task node of its name, which no edge has come to yet.
theorem tasknode_added (drawing : Drawing g files tasks owned links) (after : Graphviz Name) (name : Name) (new : name ∉ tasks)
    (apart : ∀ other target, links other target → other ≠ name ∧ target ≠ name) (filenodeId : after.filenodeId = g.filenodeId)
    (tasknodeId : after.tasknodeId = Function.update g.tasknodeId name (some g.count)) (edges : after.edges = g.edges)
    (tags : after.nodes.map GraphNode.tag = List.range after.count)
    (owner : ∀ other tag, NodeOf g other tag ∨ (other = name ∧ tag = g.count) → tag < after.count ∧ after.nodeName tag = some other) :
    Drawing after files (insert name tasks) owned links := by
  have kept : ∀ other, other ≠ name → after.tasknodeId other = g.tasknodeId other := by
    intro other different
    rw [tasknodeId]
    exact Function.update_of_ne different _ _
  refine ⟨?_, fun other => ?_, tags, fun other tag node => ?_, ?_, fun other member => ?_, drawing.ends⟩
  · rw [filenodeId]
    exact drawing.filenode
  · rw [tasknodeId]
    exact entered_known g.tasknodeId tasks drawing.tasknode name g.count other
  · apply owner other tag
    rw [NodeOf, filenodeId, tasknodeId] at node
    rcases node with there | here
    · exact .inl (.inl there)
    · rcases entered_tag g.tasknodeId name g.count other tag here with before | new
      · exact .inl (.inr before)
      · exact .inr new
  · apply drawing_edges drawing after edges
    · intro other member
      refine ⟨kept other ?_, congrFun filenodeId other⟩
      rintro rfl
      exact new (drawing.owners other member).2
    · intro other target linked
      obtain ⟨left, right⟩ := apart other target linked
      rw [fileedge, fileedge, kept other left, kept target right, filenodeId]
  · exact ⟨(drawing.owners other member).1, Finset.mem_insert_of_mem (drawing.owners other member).2⟩

theorem push_tasknode_drawing (drawing : Drawing g files tasks owned links) (label : List Char) (name : Name)
    (apart : ∀ other target, links other target → other ≠ name ∧ target ≠ name) :
    Drawing (pushTasknode label g name) files (insert name tasks) owned links := by
  rw [pushTasknode]
  split
  · rename_i absent
    have new : name ∉ tasks := by
      rw [← drawing.tasknode, Option.isNone_iff_eq_none.mp absent]
      simp
    obtain ⟨tags, owner⟩ := drawing_new_node drawing label .ellipse name
    exact tasknode_added drawing _ name new apart rfl rfl rfl tags owner
  · rename_i known
    have member : name ∈ tasks := by
      rw [← drawing.tasknode]
      simpa [← Option.isSome_iff_ne_none] using known
    rwa [Finset.insert_eq_of_mem member]

theorem push_taskedge_drawing (drawing : Drawing g files tasks owned links) (name : Name) (file : name ∈ files) (task : name ∈ tasks) :
    Drawing (pushTaskedge g name) files tasks (insert name owned) links := by
  rw [pushTaskedge, if_pos ((drawing.tasknode name).mpr task)]
  refine ⟨drawing.filenode, drawing.tasknode, drawing.tags, drawing.owner, fun edge => ?_, ?_, drawing.ends⟩
  · rw [List.mem_append, drawing.edges, List.mem_singleton, Finset.exists_mem_insert]
    constructor
    · rintro ((own | link) | new)
      · exact .inl (.inr own)
      · exact .inr link
      · exact .inl (.inl new)
    · rintro ((new | own) | link)
      · exact .inr new
      · exact .inl (.inl own)
      · exact .inl (.inr link)
  · intro other member
    rcases Finset.mem_insert.mp member with rfl | before
    · exact ⟨file, task⟩
    · exact drawing.owners other before

omit [DecidableEq Name] in
theorem push_fileedge_drawing (drawing : Drawing g files tasks owned links) (name target : Name) (file : name ∈ files)
    (aim : target ∈ files) :
    Drawing (pushFileedge g name (some target)) files tasks owned (fun x y => links x y ∨ (x = name ∧ y = target)) := by
  refine ⟨drawing.filenode, drawing.tasknode, drawing.tags, drawing.owner, fun edge => ?_, drawing.owners, ?_⟩
  · rw [pushFileedge, List.mem_append, drawing.edges, List.mem_singleton]
    constructor
    · rintro ((own | ⟨x, y, linked, rfl⟩) | rfl)
      · exact .inl own
      · exact .inr ⟨x, y, .inl linked, rfl⟩
      · exact .inr ⟨name, target, .inr ⟨rfl, rfl⟩, rfl⟩
    · rintro (own | ⟨x, y, linked | ⟨rfl, rfl⟩, rfl⟩)
      · exact .inl (.inl own)
      · exact .inl (.inr ⟨x, y, linked, rfl⟩)
      · exact .inr rfl
  · rintro x y (linked | ⟨rfl, rfl⟩)
    · exact drawing.ends x y linked
    · exact ⟨file, aim⟩

end Push

section Paths

variable {Name : Type*} {g : Graphviz Name} {files tasks owned : Finset Name} {links : Name → Name → Prop}

-- Every edge joins two declared nodes, of one file or of a file and its target.
theorem edge_ends (drawing : Drawing g files tasks owned links) (edge : Option Nat × Option Nat) (drawn : edge ∈ g.edges) :
    ∃ name target tag next, edge = (some tag, some next) ∧ NodeOf g name tag ∧ NodeOf g target next ∧
      (name = target ∨ links name target) := by
  have file : ∀ name ∈ files, ∃ tag, g.filenodeId name = some tag :=
    fun name member => Option.isSome_iff_exists.mp ((drawing.filenode name).mpr member)
  rcases (drawing.edges edge).mp drawn with ⟨name, own, rfl⟩ | ⟨name, target, linked, rfl⟩
  · obtain ⟨box, oval⟩ := drawing.owners name own
    obtain ⟨next, there⟩ := file name box
    obtain ⟨tag, here⟩ := Option.isSome_iff_exists.mp ((drawing.tasknode name).mpr oval)
    exact ⟨name, name, tag, next, by rw [here, there], .inr here, .inl there, .inl rfl⟩
  · obtain ⟨left, right⟩ := drawing.ends name target linked
    obtain ⟨tag, here⟩ := file name left
    obtain ⟨next, there⟩ := file target right
    rw [fileedge]
    split
    · rename_i busy
      obtain ⟨oval, at_oval⟩ := Option.isSome_iff_exists.mp busy
      exact ⟨name, target, tag, oval, by rw [here, at_oval], .inl here, .inr at_oval, .inr linked⟩
    · split
      · rename_i busy
        obtain ⟨oval, at_oval⟩ := Option.isSome_iff_exists.mp busy
        exact ⟨name, target, oval, next, by rw [at_oval, there], .inr at_oval, .inl there, .inr linked⟩
      · exact ⟨name, target, tag, next, by rw [here, there], .inl here, .inl there, .inr linked⟩

theorem node_declared (drawing : Drawing g files tasks owned links) (name : Name) (tag : Nat) (node : NodeOf g name tag) :
    tag ∈ g.nodes.map GraphNode.tag := by
  rw [drawing.tags, List.mem_range]
  exact (drawing.owner name tag node).1

-- Between the first two lines and the last the file has the nodes, then edges
-- whose tags all have a node.
theorem write_lines (drawing : Drawing g files tasks owned links) :
    ∃ arrows, write g = ["digraph sample \x7b", "graph [size=\"70,70\", rankdir=LR];"] ++ g.nodes.map nodeText ++ arrows ++ ["\x7d"] ∧
      ∀ line ∈ arrows, ∃ source ∈ g.nodes, ∃ sink ∈ g.nodes,
        line = "T" ++ toString source.tag ++ " -> " ++ ("T" ++ toString sink.tag) ++ ";" := by
  refine ⟨g.edges.map edgeText, rfl, fun line member => ?_⟩
  obtain ⟨edge, drawn, rfl⟩ := List.mem_map.mp member
  obtain ⟨name, target, tag, next, rfl, here, there, -⟩ := edge_ends drawing edge drawn
  obtain ⟨source, first, rfl⟩ := List.mem_map.mp (node_declared drawing name tag here)
  obtain ⟨sink, second, rfl⟩ := List.mem_map.mp (node_declared drawing target next there)
  exact ⟨source, first, sink, second, rfl⟩

theorem node_owner (drawing : Drawing g files tasks owned links) (name other : Name) (tag : Nat) (node : NodeOf g name tag)
    (also : NodeOf g other tag) : name = other :=
  Option.some.inj ((drawing.owner name tag node).2.symm.trans (drawing.owner other tag also).2)

-- A path over the nodes goes along the links of their files.
theorem path_links (drawing : Drawing g files tasks owned links) (name : Name) (tag next : Nat) (node : NodeOf g name tag)
    (path : Relation.ReflTransGen (Joins g) tag next) : ∃ target, NodeOf g target next ∧ Relation.ReflTransGen links name target := by
  induction path with
  | refl => exact ⟨name, node, .refl⟩
  | tail _ joins ih =>
      obtain ⟨between, here, along⟩ := ih
      obtain ⟨source, target, start, stop, same, first, second, moved⟩ := edge_ends drawing _ joins
      cases same
      cases node_owner drawing between source _ here first
      rcases moved with rfl | linked
      · exact ⟨between, second, along⟩
      · exact ⟨target, second, along.tail linked⟩

-- Where the edges into a file arrive.
def arrival (g : Graphviz Name) (name : Name) : Option Nat := (g.tasknodeId name).or (g.filenodeId name)

theorem arrival_node (name : Name) (tag : Nat) (here : arrival g name = some tag) : NodeOf g name tag := by
  rw [arrival, Option.or_eq_some_iff] at here
  exact here.elim .inr fun box => .inl box.2

-- From there an edge out of the file can be taken, since its task node leads
-- to its file node.
theorem arrival_reaches (drawing : Drawing g files tasks tasks links) (name : Name) (tag next : Nat) (here : arrival g name = some tag)
    (node : NodeOf g name next) : Relation.ReflTransGen (Joins g) tag next := by
  rw [arrival] at here
  cases oval : g.tasknodeId name with
  | none =>
      rw [oval, Option.none_or] at here
      rcases node with box | other
      · cases here.symm.trans box
        exact .refl
      · cases oval.symm.trans other
  | some task =>
      rw [oval, Option.some_or] at here
      cases here
      rcases node with box | other
      · have busy : name ∈ tasks := by rw [← drawing.tasknode, oval]; rfl
        have own : (g.tasknodeId name, g.filenodeId name) ∈ g.edges := (drawing.edges _).mpr (.inl ⟨name, busy, rfl⟩)
        rw [oval, box] at own
        exact .single own
      · cases oval.symm.trans other
        exact .refl

theorem link_arrives (drawing : Drawing g files tasks tasks links) (name target : Name) (linked : links name target) :
    ∃ tag next, NodeOf g name tag ∧ arrival g target = some next ∧ Joins g tag next := by
  have drawn : fileedge g name target ∈ g.edges := (drawing.edges _).mpr (.inr ⟨name, target, linked, rfl⟩)
  obtain ⟨left, right⟩ := drawing.ends name target linked
  obtain ⟨tag, here⟩ := Option.isSome_iff_exists.mp ((drawing.filenode name).mpr left)
  obtain ⟨next, there⟩ := Option.isSome_iff_exists.mp ((drawing.filenode target).mpr right)
  rw [fileedge] at drawn
  rw [arrival]
  cases oval : g.tasknodeId target with
  | some task =>
      rw [oval, if_pos Option.isSome_some, here] at drawn
      exact ⟨tag, task, .inl here, rfl, drawn⟩
  | none =>
      rw [oval, if_neg (by simp)] at drawn
      cases own : g.tasknodeId name with
      | some task =>
          rw [own, if_pos Option.isSome_some, there] at drawn
          exact ⟨task, next, .inr own, there, drawn⟩
      | none =>
          rw [own, if_neg (by simp), here, there] at drawn
          exact ⟨tag, next, .inl here, there, drawn⟩

theorem links_path (drawing : Drawing g files tasks tasks links) (name target : Name) (along : Relation.TransGen links name target) :
    ∃ tag next, NodeOf g name tag ∧ arrival g target = some next ∧ Relation.ReflTransGen (Joins g) tag next := by
  induction along with
  | single linked =>
      obtain ⟨tag, next, node, arrives, joins⟩ := link_arrives drawing name _ linked
      exact ⟨tag, next, node, arrives, .single joins⟩
  | tail _ linked ih =>
      obtain ⟨tag, between, node, halfway, path⟩ := ih
      obtain ⟨start, next, departs, arrives, joins⟩ := link_arrives drawing _ _ linked
      exact ⟨tag, next, node, arrives, (path.trans (arrival_reaches drawing _ between start halfway departs)).tail joins⟩

-- The drawn paths between two files are the chains of links between them.
theorem path_iff_links (drawing : Drawing g files tasks tasks links) (name target : Name) (different : name ≠ target) :
    (∃ tag next, NodeOf g name tag ∧ NodeOf g target next ∧ Relation.ReflTransGen (Joins g) tag next) ↔
      Relation.TransGen links name target := by
  constructor
  · rintro ⟨tag, next, node, last, path⟩
    obtain ⟨other, also, along⟩ := path_links drawing name tag next node path
    cases node_owner drawing other target next also last
    exact (Relation.reflTransGen_iff_eq_or_transGen.mp along).resolve_left fun same => different same.symm
  · intro along
    obtain ⟨tag, next, node, arrives, path⟩ := links_path drawing name target along
    exact ⟨tag, next, node, arrival_node target next arrives, path⟩

end Paths

end Graphviz

end Pwrake
