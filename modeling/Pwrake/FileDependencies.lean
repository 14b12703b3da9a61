import Pwrake.FileGraph

set_option autoImplicit false

namespace Pwrake

namespace Graphviz

variable {Task : Type*} [DecidableEq Task] {edges : Task → List Task} {recipe : Recipe Task} {text : Task → List Char}

def files (recipe : Recipe Task) (tasks : Finset Task) : Finset Task := tasks.filter fun task => recipe.isFile task

def made (recipe : Recipe Task) (tasks : Finset Task) : Finset Task :=
    (files recipe tasks).filter fun task => recipe.hasActions task

-- A file task that was traced with a target.
def Aims (recipe : Recipe Task) (visits : List (Task × Option Task)) (file target : Task) : Prop :=
  recipe.isFile file = true ∧ (file, some target) ∈ visits

-- The drawing of what was visited so far.
def Pictures (recipe : Recipe Task) (g : Graphviz Task) : Prop :=
  Drawing g (files recipe g.traced) (made recipe g.traced) (made recipe g.traced) (Aims recipe g.visits)

def Aimed (recipe : Recipe Task) (g : Graphviz Task) (target : Option Task) : Prop :=
  ∀ file, target = some file → file ∈ files recipe g.traced

section Invariant

omit [DecidableEq Task] in
theorem mem_files (tasks : Finset Task) (task : Task) : task ∈ files recipe tasks ↔ task ∈ tasks ∧ recipe.isFile task = true := by
  simp [files]

theorem files_insert (tasks : Finset Task) (task : Task) (file : recipe.isFile task = true) :
    files recipe (insert task tasks) = insert task (files recipe tasks) := by rw [files, files, Finset.filter_insert, if_pos file]

theorem files_insert_plain (tasks : Finset Task) (task : Task) (plain : ¬ recipe.isFile task = true) :
    files recipe (insert task tasks) = files recipe tasks := by rw [files, files, Finset.filter_insert, if_neg plain]

theorem made_insert (tasks : Finset Task) (task : Task) (file : recipe.isFile task = true)
    (acts : recipe.hasActions task = true) :
    made recipe (insert task tasks) = insert task (made recipe tasks) := by
  rw [made, files_insert tasks task file, Finset.filter_insert, if_pos acts, made]

theorem made_insert_idle (tasks : Finset Task) (task : Task) (file : recipe.isFile task = true)
    (idle : ¬ recipe.hasActions task = true) :
    made recipe (insert task tasks) = made recipe tasks := by
  rw [made, files_insert tasks task file, Finset.filter_insert, if_neg idle, made]

omit [DecidableEq Task] in
theorem blank_pictures : Pictures recipe (blank : Graphviz Task) :=
  ⟨by simp [blank, files], by simp [blank, made, files], rfl, by simp [blank, NodeOf], by simp [blank, made, files, Aims],
    by simp [blank, made, files], by simp [blank, Aims]⟩

theorem draw_nodes (text : Task → List Char) (g : Graphviz Task) (task : Task) (pictures : Pictures recipe g)
    (file : recipe.isFile task = true) :
    Drawing (drawNodes text recipe task task g) (files recipe (insert task g.traced)) (made recipe (insert task g.traced))
      (made recipe (insert task g.traced)) (Aims recipe g.visits) := by
  rw [drawNodes]
  have box := push_filenode_drawing pictures text task
  rw [← files_insert g.traced task file] at box
  split
  · rename_i opens
    have apart : ∀ other target, Aims recipe g.visits other target → other ≠ task ∧ target ≠ task := by
      intro other target aims
      obtain ⟨left, right⟩ := pictures.ends other target aims
      refine ⟨?_, ?_⟩
      · rintro rfl
        exact opens.2 ((mem_files g.traced other).mp left).1
      · rintro rfl
        exact opens.2 ((mem_files g.traced target).mp right).1
    have oval := push_tasknode_drawing box (recipe.comment task) task apart
    rw [made_insert g.traced task file opens.1]
    apply push_taskedge_drawing oval task
    · rw [files_insert g.traced task file]
      exact Finset.mem_insert_self task _
    · exact Finset.mem_insert_self task _
  · rename_i closed
    have same : made recipe (insert task g.traced) = made recipe g.traced := by
      by_cases acts : recipe.hasActions task = true
      · have known : task ∈ g.traced := by
          by_contra unknown
          exact closed ⟨acts, unknown⟩
        rw [Finset.insert_eq_of_mem known]
      · exact made_insert_idle g.traced task file acts
    rwa [same]

theorem draw_file_pictures (g : Graphviz Task) (task : Task) (target : Option Task) (pictures : Pictures recipe g)
    (aimed : Aimed recipe g target) (file : recipe.isFile task = true) :
    Drawing (drawFile text recipe task task target g) (files recipe (insert task g.traced)) (made recipe (insert task g.traced))
      (made recipe (insert task g.traced)) (Aims recipe (g.visits ++ [(task, target)])) := by
  have nodes := draw_nodes text g task pictures file
  cases target with
  | none =>
      apply drawing_links _ _ nodes
      intro other aim
      simp [Aims]
  | some target =>
      have itself : task ∈ files recipe (insert task g.traced) := (mem_files _ task).mpr ⟨Finset.mem_insert_self task _, file⟩
      have known : target ∈ files recipe (insert task g.traced) := by
        rw [files_insert g.traced task file]
        exact Finset.mem_insert_of_mem (aimed target rfl)
      apply drawing_links _ _ (push_fileedge_drawing nodes task target itself known)
      intro other aim
      simp only [Aims, List.mem_append, List.mem_singleton, Prod.mk.injEq, Option.some.injEq]
      constructor
      · rintro ⟨kind, before | here⟩
        · exact .inl ⟨kind, before⟩
        · exact .inr here
      · rintro (⟨kind, before⟩ | here)
        · exact ⟨kind, .inl before⟩
        · exact ⟨here.1 ▸ file, .inr here⟩

theorem arrive_pictures (text : Task → List Char) (g : Graphviz Task) (task : Task) (target : Option Task)
    (pictures : Pictures recipe g)
    (aimed : Aimed recipe g target) : Pictures recipe (arrive text recipe task task target g) := by
  rw [Pictures, arrive_traced]
  by_cases file : recipe.isFile task = true
  · rw [arrive, if_pos file]
    exact drawing_marks (draw_file_pictures g task target pictures aimed file) _ _
  · have same : made recipe (insert task g.traced) = made recipe g.traced := by
      rw [made, files_insert_plain g.traced task file, made]
    rw [arrive, if_neg file, files_insert_plain g.traced task file, same]
    apply drawing_marks
    apply drawing_links _ _ pictures
    intro other aim
    have different : ¬ (recipe.isFile other = true ∧ (other, some aim) = (task, target)) := by
      rintro ⟨kind, here⟩
      exact file ((Prod.mk.inj here).1 ▸ kind)
    simp only [Aims, List.mem_append, List.mem_singleton]
    tauto

omit [DecidableEq Task] in
theorem follow_pictures (g : Graphviz Task) (prereq task : Task) (pictures : Pictures recipe g) :
    Pictures recipe (follow g prereq task) :=
  ⟨pictures.filenode, pictures.tasknode, pictures.tags, pictures.owner, pictures.edges, pictures.owners, pictures.ends⟩

omit [DecidableEq Task] in
theorem aimed_grows (g after : Graphviz Task) (grows : g.traced ⊆ after.traced) (target : Option Task)
    (aimed : Aimed recipe g target) :
    Aimed recipe after target := by
  intro file same
  obtain ⟨known, kind⟩ := (mem_files g.traced file).mp (aimed file same)
  exact (mem_files after.traced file).mpr ⟨grows known, kind⟩

theorem each_trace_pictures (depth : Nat) (task : Task) (target : Option Task)
    (calls : ∀ prereq (g after : Graphviz Task), Pictures recipe g → Aimed recipe g target →
      trace (Tracer.graph edges) text recipe depth prereq target g = some after → Pictures recipe after)
    (prereqs : List Task) (g after : Graphviz Task) (pictures : Pictures recipe g) (aimed : Aimed recipe g target)
    (ran : prereqs.foldlM (fun g prereq => trace (Tracer.graph edges) text recipe depth prereq target (follow g prereq task)) g =
      some after) : Pictures recipe after := by
  induction prereqs generalizing g with
  | nil =>
      cases ran
      exact pictures
  | cons prereq prereqs ih =>
      rw [List.foldlM_cons] at ran
      obtain ⟨between, traced, rest⟩ := Option.bind_eq_some_iff.mp ran
      have follows := trace_follows depth prereq target (follow g prereq task) between traced
      have drawn := calls prereq (follow g prereq task) between (follow_pictures g prereq task pictures) aimed traced
      exact ih between drawn (aimed_grows g between follows.grows target aimed) rest

theorem trace_pictures (depth : Nat) (task : Task) (target : Option Task) (g after : Graphviz Task) (pictures : Pictures recipe g)
    (aimed : Aimed recipe g target) (ran : trace (Tracer.graph edges) text recipe depth task target g = some after) :
    Pictures recipe after := by
  induction depth generalizing task target g after with
  | zero => cases ran
  | succ depth ih =>
      rw [trace] at ran
      obtain ⟨_, found, ran⟩ := Option.bind_eq_some_iff.mp ran
      cases found
      have arrived := arrive_pictures text g task target pictures aimed
      have grows : g.traced ⊆ (arrive text recipe task task target g).traced := Finset.subset_insert task g.traced
      split at ran
      · cases ran
        exact arrived
      · have passed : Aimed recipe (arrive text recipe task task target g) (aim recipe task task target) := by
          rw [aim]
          split
          · rename_i file
            rintro _ ⟨⟩
            exact (mem_files _ task).mpr ⟨Finset.mem_insert_self task g.traced, file⟩
          · exact aimed_grows g _ grows target aimed
        exact each_trace_pictures depth task _ (fun prereq g after => ih prereq _ g after) (edges task) _ after arrived passed ran

end Invariant

-- The drawing of the graph below start shows its file dependencies.
structure Shows (edges : Task → List Task) (recipe : Recipe Task) (start : Task) (g : Graphviz Task) : Prop where
  paths : ∀ file target, recipe.isFile file = true → recipe.isFile target = true → Leads edges start file →
    Leads edges start target → file ≠ target →
    ((∃ tag next, NodeOf g file tag ∧ NodeOf g target next ∧ Relation.ReflTransGen (Joins g) tag next) ↔
      Relation.TransGen (Lists edges) target file)
  declared : ∀ edge ∈ g.edges, ∃ tag next, edge = (some tag, some next) ∧
    tag ∈ g.nodes.map GraphNode.tag ∧ next ∈ g.nodes.map GraphNode.tag

def Adjacent (edges : Task → List Task) (recipe : Recipe Task) (target file : Task) : Prop :=
  Relation.TransGen (Lists edges) target file ∧ ∀ between, recipe.isFile between = true →
    Relation.TransGen (Lists edges) target between → ¬ Relation.TransGen (Lists edges) between file

-- A direct prerequisite of the target, or of a plain task to which trace comes
-- first from the target.
def Direct (edges : Task → List Task) (recipe : Recipe Task) (start target file : Task) : Prop :=
  file ∈ edges target ∨ ∃ plain, recipe.isFile plain = false ∧ file ∈ edges plain ∧
    FirstTarget edges recipe plain start none (some target)

section Result

theorem trace_draws [Fintype Task] (text : Task → List Char) (recipe : Recipe Task)
    (acyclic : ∀ task, ¬ Relation.TransGen (Lists edges) task task) (start : Task) :
    ∃ g, trace (Tracer.graph edges) text recipe (Fintype.card Task + 1) start none blank = some g ∧
      Comes edges recipe blank g start none ∧ Pictures recipe g := by
  have search := trace_search text recipe (Tracer.graph edges) (Fintype.card Task + 1) start none
    blank [] rfl (by simp)
  have ends : (Search.visit (listed (Tracer.graph edges)) (Fintype.card Task + 1) start []).isSome := by
    apply Search.visit_ends Finset.univ _ start [] (fun _ _ => Finset.mem_univ _) (fun _ _ => rfl)
    exact (Finset.card_le_univ _).trans_lt (Nat.lt_succ_self _)
  rw [← Option.isSome_map, ← search, Option.isSome_map] at ends
  obtain ⟨g, ran⟩ := Option.isSome_iff_exists.mp ends
  refine ⟨g, ran, trace_comes acyclic _ start none blank g ?_ ran, trace_pictures _ start none blank g blank_pictures ?_ ran⟩
  · exact fun other marked => absurd marked (Finset.notMem_empty other)
  · exact fun file same => by cases same

omit [DecidableEq Task] in
theorem direct_below (start target file : Task) (direct : Direct edges recipe start target file) :
    Relation.TransGen (Lists edges) target file := by
  rcases direct with listed | ⟨plain, -, listed, first⟩
  · exact .single listed
  · rcases first_target_source plain start none (some target) first with same | ⟨other, same, -, -, above⟩
    · cases same
    · cases same
      exact above.tail listed

omit [DecidableEq Task] in
theorem aims_iff [Fintype Task] (acyclic : ∀ task, ¬ Relation.TransGen (Lists edges) task task) (start : Task) (g : Graphviz Task)
    (comes : Comes edges recipe blank g start none) (file target : Task) :
    Aims recipe g.visits file target ↔
      recipe.isFile file = true ∧ recipe.isFile target = true ∧ Leads edges start target ∧
        Direct edges recipe start target file := by
  have visits : (file, some target) ∈ g.visits ↔
      ∃ other result, FirstTarget edges recipe other start none result ∧
        Opening edges recipe other result (file, some target) := by
    rw [comes.visits]
    constructor
    · rintro (before | here | ⟨other, result, -, first, opening⟩)
      · exact absurd before List.not_mem_nil
      · cases here
      · exact ⟨other, result, first, opening⟩
    · rintro ⟨other, result, first, opening⟩
      exact .inr (.inr ⟨other, result, Finset.notMem_empty other, first, opening⟩)
  rw [Aims, visits]
  apply and_congr_right
  intro kind
  constructor
  · rintro ⟨other, result, first, prereq, listed, same⟩
    rw [Prod.mk.injEq, aim] at same
    obtain ⟨rfl, aimed⟩ := same
    split at aimed
    · rename_i box
      cases aimed
      exact ⟨box, first_target_leads target start none result first, .inl listed⟩
    · rename_i plain
      subst aimed
      rcases first_target_source other start none _ first with same | ⟨above, same, box, leads, -⟩
      · cases same
      · cases same
        exact ⟨box, leads, .inr ⟨other, by simpa using plain, listed, first⟩⟩
  · rintro ⟨box, leads, listed | ⟨plain, kind, listed, first⟩⟩
    · obtain ⟨result, first⟩ := first_target_exists recipe acyclic target start leads none
      exact ⟨target, result, first, file, listed, by rw [aim, if_pos box]⟩
    · exact ⟨plain, some target, first, file, listed, by rw [aim, if_neg (by simp [kind])]⟩

theorem drawn_graph_shows_iff [Fintype Task] (edges : Task → List Task) (text : Task → List Char)
    (recipe : Recipe Task) (start : Task)
    (acyclic : ∀ task, ¬ Relation.TransGen (Lists edges) task task) :
    ∃ g, trace (Tracer.graph edges) text recipe (Fintype.card Task + 1) start none blank = some g ∧
      (Shows edges recipe start g ↔
        ∀ file target, recipe.isFile file = true → recipe.isFile target = true → Leads edges start target →
          Adjacent edges recipe target file → Direct edges recipe start target file) := by
  obtain ⟨g, ran, comes, pictures⟩ := trace_draws text recipe acyclic start
  have aims := aims_iff acyclic start g comes
  have path := path_iff_links pictures
  have chain : ∀ file target, Relation.TransGen (Aims recipe g.visits) file target →
    Relation.TransGen (Lists edges) target file := by
    intro file target along
    induction along with
    | single linked => exact direct_below start _ file ((aims _ _).mp linked).2.2.2
    | tail _ linked ih => exact (direct_below start _ _ ((aims _ _).mp linked).2.2.2).trans ih
  refine ⟨g, ran, ?_, ?_⟩
  · intro shows file target kind box leads adjacent
    have different : file ≠ target := by
      rintro rfl
      exact acyclic file adjacent.1
    have below : Leads edges start file := leads.trans adjacent.1.to_reflTransGen
    have along := (path file target different).mp ((shows.paths file target kind box below leads different).mpr adjacent.1)
    obtain ⟨next, linked, rest⟩ := Relation.TransGen.head'_iff.mp along
    rcases Relation.reflTransGen_iff_eq_or_transGen.mp rest with rfl | further
    · exact ((aims file target).mp linked).2.2.2
    · obtain ⟨-, middle, -, direct⟩ := (aims file next).mp linked
      exact absurd (direct_below start next file direct) (adjacent.2 next middle (chain next target further))
  · intro condition
    refine ⟨fun file target kind box _ leads different => ?_, fun edge drawn => ?_⟩
    · rw [path file target different]
      refine ⟨chain file target, fun below => ?_⟩
      refine Dag.between_induction acyclic (fun task => recipe.isFile task = true) (fun upper lower =>
        recipe.isFile upper = true → recipe.isFile lower = true → Leads edges start upper →
          Relation.TransGen (Aims recipe g.visits) lower upper) ?_ ?_ target file below box kind leads
      · intro upper lower below apart box kind leads
        exact .single ((aims lower upper).mpr ⟨kind, box, leads, condition lower upper kind box leads ⟨below, apart⟩⟩)
      · intro upper between lower middle above beneath first second box kind leads
        exact (second middle kind (leads.trans above.to_reflTransGen)).trans (first box middle leads)
    · obtain ⟨name, target, tag, next, rfl, source, sink, -⟩ := edge_ends pictures edge drawn
      exact ⟨tag, next, rfl, node_declared pictures name tag source, node_declared pictures target next sink⟩

-- Two files without actions that share a plain task over a third file.
inductive Twins where
  | start
  | first
  | second
  | shared
  | source
deriving DecidableEq

instance : Fintype Twins := ⟨{.start, .first, .second, .shared, .source}, by rintro ⟨⟩ <;> decide⟩

def twins : Twins → List Twins
  | .start => [.first, .second]
  | .first => [.shared]
  | .second => [.shared]
  | .shared => [.source]
  | .source => []

def twinHeight : Twins → Nat
  | .start => 3
  | .first => 2
  | .second => 2
  | .shared => 1
  | .source => 0

def twinRecipe : Recipe Twins := ⟨fun task => task ≠ .start ∧ task ≠ .shared, fun _ => false, fun _ => []⟩

theorem twins_shown_iff :
    ∃ g, trace (Tracer.graph twins) (fun _ => []) twinRecipe (Fintype.card Twins + 1) .start none blank = some g ∧
      (Shows twins twinRecipe .start g ↔
        ∀ file target, twinRecipe.isFile file = true → twinRecipe.isFile target = true → Leads twins .start target →
          Adjacent twins twinRecipe target file → Direct twins twinRecipe .start target file) := by
  apply drawn_graph_shows_iff
  exact Dag.ranked_acyclic twinHeight (by unfold Lists; decide)

-- The third file is drawn below the first of the two only.
theorem second_target_missed :
    ∃ g, trace (Tracer.graph twins) (fun _ => []) twinRecipe (Fintype.card Twins + 1) .start none blank = some g ∧
      ¬ Shows twins twinRecipe .start g := by
  have drawn : (trace (Tracer.graph twins) (fun _ => []) twinRecipe (Fintype.card Twins + 1) .start none blank).map
      (fun g => (g.edges, g.filenodeId .source, g.filenodeId .second, g.tasknodeId .source, g.tasknodeId .second)) =
      some ([(some 1, some 0)], some 1, some 2, none, none) := by decide +kernel
  obtain ⟨g, ran, same⟩ := Option.map_eq_some_iff.mp drawn
  simp only [Prod.mk.injEq] at same
  obtain ⟨edges, box, other, idle, idler⟩ := same
  refine ⟨g, ran, fun shows => ?_⟩
  have listed : Lists twins .second .shared ∧ Lists twins .shared .source ∧ Lists twins .start .second := by
    unfold Lists
    decide
  have below : Relation.TransGen (Lists twins) .second .source := .tail (.single listed.1) listed.2.1
  have reached : Leads twins .start .second := .single listed.2.2
  obtain ⟨tag, next, node, last, path⟩ := (shows.paths .source .second rfl rfl (reached.trans below.to_reflTransGen) reached
    (by decide)).mpr below
  rw [NodeOf, box, idle] at node
  rw [NodeOf, other, idler] at last
  have stays : ∀ later, Relation.ReflTransGen (Joins g) 1 later → later ≤ 1 := by
    intro later path
    induction path with
    | refl => exact le_rfl
    | tail _ joins _ =>
        rw [Joins, edges, List.mem_singleton, Prod.mk.injEq, Option.some.injEq, Option.some.injEq] at joins
        omega
  have begins : tag = 1 := by simpa [eq_comm] using node
  have ends : next = 2 := by simpa [eq_comm] using last
  subst begins ends
  exact absurd (stays 2 path) (by decide)

end Result

end Graphviz

end Pwrake
