import Pwrake.DagTrace
import Pwrake.Following
import Pwrake.Graphviz
import Pwrake.TaskTable

set_option autoImplicit false

namespace Pwrake

namespace TaskTable

open Metis.VertexList (Requires prereqTasks dagTraceTask)
open Tracer (Needs Reach Buildable availableTask followed)

section Top

variable {Task Name Scope : Type*} [DecidableEq Task] [Fintype Task] {app : Application Task Name Scope}

theorem dag_trace_task_graph (weight : Task → Int) (name : Name) (root : Task) (named : app.lookup name none = some root)
    (s : Metis.VertexList Task) (ran : dagTraceTask app weight (Fintype.card Task + 1) name .blank = some s) :
    (∀ task, Relation.ReflTransGen (Requires app) root task → (prereqTasks app task).isSome) ∧
      (∀ task, task ∈ s.dagTraced ↔ Relation.ReflTransGen (Requires app) root task) ∧
      ∀ prereq task, (prereq, task) ∈ s.followed ↔ Relation.ReflTransGen (Requires app) root task ∧ Requires app task prereq := by
  have search := Metis.VertexList.dag_trace_task_search app weight (Fintype.card Task + 1) name []
  rw [named, Option.bind_some] at search
  obtain ⟨opened, visited, traced⟩ := Option.map_eq_some_iff.mp (search.symm.trans ran)
  have complete := Search.visit_complete _ root opened visited
  have inside : ∀ task, Search.Reaches (prereqTasks app) root task → task ∈ opened :=
    fun task path => (complete.opened task).mpr ⟨root, List.mem_singleton_self root, path⟩
  have given : ∀ task, Relation.ReflTransGen (Requires app) root task → (prereqTasks app task).isSome := by
    intro task path
    suffices reached : Search.Reaches (prereqTasks app) root task from complete.given task (inside task reached)
    induction path with
    | refl => exact .refl
    | tail _ needs ih =>
        obtain ⟨prereqs, found⟩ := Option.isSome_iff_exists.mp (complete.given _ (inside _ ih))
        exact ih.tail ⟨prereqs, found, (Metis.VertexList.mem_lookup_all app _ prereqs found _).mpr needs⟩
  have reached : ∀ task, task ∈ opened ↔ Relation.ReflTransGen (Requires app) root task := by
    intro task
    rw [complete.opened, ← Metis.VertexList.reaches_iff root given]
    simp
  subst traced
  refine ⟨given, fun task => ?_, fun prereq task => ?_⟩
  · rw [Metis.VertexList.traced_marked, reached]
  · rw [Metis.VertexList.traced_followed, Metis.VertexList.mem_calls opened complete.given, reached]

theorem dag_trace_task_ends (weight : Task → Int) (name : Name) (root : Task) (named : app.lookup name none = some root)
    (given : ∀ task, Relation.ReflTransGen (Requires app) root task → (prereqTasks app task).isSome) :
    (dagTraceTask app weight (Fintype.card Task + 1) name .blank).isSome := by
  have search := Metis.VertexList.dag_trace_task_search app weight (Fintype.card Task + 1) name []
  have ends : (Search.visit (prereqTasks app) (Fintype.card Task + 1) root []).isSome := by
    apply Search.visit_ends Finset.univ _ root [] (fun _ _ => Finset.mem_univ _)
    · exact fun task path => given task ((Metis.VertexList.reaches_iff root given task).mp path)
    · exact (Finset.card_le_univ _).trans_lt (Nat.lt_succ_self _)
  rw [named, Option.bind_some] at search
  obtain ⟨opened, visited⟩ := Option.isSome_iff_exists.mp ends
  rw [visited] at search
  exact Option.isSome_iff_exists.mpr ⟨_, search⟩

end Top

section Names

variable {table : TaskTable}

theorem requires_listed (task prereq : table.names) :
    Requires table.application task prereq ↔ prereq.1 ∈ table.prerequisites task.1 := by
  constructor
  · rintro ⟨name, listed, found⟩
    rwa [find_some table name prereq found]
  · exact fun listed => ⟨prereq.1, listed, lookup_self table prereq⟩

theorem prereq_tasks_known (task : table.names) (given : (prereqTasks table.application task).isSome) (name : TaskName)
    (listed : name ∈ table.prerequisites task.1) : name ∈ table.names := by
  obtain ⟨prereq, found⟩ := Option.isSome_iff_exists.mp (Metis.VertexList.lookup_all_resolves _ _ given name listed)
  exact find_some table name prereq found ▸ prereq.2

theorem known_prereq_tasks (task : table.names) (known : ∀ name ∈ table.prerequisites task.1, name ∈ table.names) :
    (prereqTasks table.application task).isSome := by
  apply Metis.VertexList.lookup_all_some
  intro name listed
  exact Option.isSome_iff_exists.mpr ⟨⟨name, known name listed⟩, lookup_self table ⟨name, known name listed⟩⟩

theorem listed_some (name : TaskName) (names : List TaskName) (given : Graphviz.listed table.application name = some names) :
    name ∈ table.names ∧ names = table.prerequisites name := by
  obtain ⟨task, found, rfl⟩ := Option.map_eq_some_iff.mp given
  obtain rfl := find_some table name task found
  exact ⟨task.2, rfl⟩

theorem listed_self (task : table.names) : Graphviz.listed table.application task.1 = some (table.prerequisites task.1) := by
  rw [Graphviz.listed, lookup_self]
  rfl

-- The search over names goes where the search over tasks goes, as far as the
-- names belong to tasks.
theorem reaches_task (root task : table.names) (path : Relation.ReflTransGen (Requires table.application) root task) :
    Search.Reaches (Graphviz.listed table.application) root.1 task.1 := by
  induction path with
  | refl => exact .refl
  | tail _ needs ih => exact ih.tail ⟨_, listed_self _, (requires_listed _ _).mp needs⟩

theorem reaches_names (root : table.names)
    (known : ∀ task, Relation.ReflTransGen (Requires table.application) root task →
      ∀ name ∈ table.prerequisites task.1, name ∈ table.names)
    (name : TaskName) :
    Search.Reaches (Graphviz.listed table.application) root.1 name ↔
      ∃ task : table.names, task.1 = name ∧ Relation.ReflTransGen (Requires table.application) root task := by
  constructor
  · intro path
    induction path with
    | refl => exact ⟨root, rfl, .refl⟩
    | tail _ edge ih =>
        obtain ⟨task, rfl, path⟩ := ih
        obtain ⟨names, given, member⟩ := edge
        obtain ⟨-, rfl⟩ := listed_some task.1 names given
        exact ⟨⟨_, known task path _ member⟩, rfl, path.tail ((requires_listed task _).mpr member)⟩
  · rintro ⟨task, rfl, path⟩
    exact reaches_task root task path

variable {text : TaskName → List Char} {recipe : Recipe table.names}

theorem trace_graph (root : table.names) (g : Graphviz TaskName)
    (ran : Graphviz.trace table.application text recipe (table.names.card + 1) root.1 none .blank = some g) :
    (∀ name, name ∈ g.traced ↔
      ∃ task : table.names, task.1 = name ∧ Relation.ReflTransGen (Requires table.application) root task) ∧
    ∀ prereq name, (prereq, name) ∈ g.followed ↔
      ∃ task : table.names, task.1 = name ∧ Relation.ReflTransGen (Requires table.application) root task ∧
        prereq ∈ table.prerequisites name := by
  have search := Graphviz.trace_search text recipe table.application (table.names.card + 1) root.1 none .blank [] rfl (by simp)
  have follows := Graphviz.trace_follows _ root.1 none .blank g ran
  rw [ran, Option.map_some] at search
  obtain ⟨opened, visited, marks⟩ := Option.map_eq_some_iff.mp search.symm
  have complete := Search.visit_complete _ root.1 opened visited
  have known : ∀ task, Relation.ReflTransGen (Requires table.application) root task →
      ∀ name ∈ table.prerequisites task.1, name ∈ table.names := by
    intro task path name listed
    have reached := (reaches_task root task path).tail ⟨_, listed_self task, listed⟩
    have member := (complete.opened name).mpr ⟨root.1, List.mem_singleton_self root.1, reached⟩
    obtain ⟨names, given⟩ := Option.isSome_iff_exists.mp (complete.given name member)
    exact (listed_some name names given).1
  have traced : ∀ name, name ∈ g.traced ↔
      ∃ task : table.names, task.1 = name ∧ Relation.ReflTransGen (Requires table.application) root task := by
    intro name
    rw [← marks, List.mem_toFinset, complete.opened, ← reaches_names root known]
    simp
  refine ⟨traced, fun prereq name => ?_⟩
  rw [follows.calls, traced]
  constructor
  · rintro (before | ⟨⟨task, rfl, path⟩, -, other, found, listed⟩)
    · exact absurd before List.not_mem_nil
    · rw [lookup_self, Option.some.injEq] at found
      exact ⟨task, rfl, path, found ▸ listed⟩
  · rintro ⟨task, rfl, path, listed⟩
    exact .inr ⟨⟨task, rfl, path⟩, Finset.notMem_empty _, task, lookup_self table task, listed⟩

theorem trace_ends (text : TaskName → List Char) (recipe : Recipe table.names) (root : table.names)
    (known : ∀ task, Relation.ReflTransGen (Requires table.application) root task →
      ∀ name ∈ table.prerequisites task.1, name ∈ table.names) :
    (Graphviz.trace table.application text recipe (table.names.card + 1) root.1 none .blank).isSome := by
  have ends : (Search.visit (Graphviz.listed table.application) (table.names.card + 1) root.1 []).isSome := by
    apply Search.visit_ends table.names
    · intro name path
      obtain ⟨task, rfl, -⟩ := (reaches_names root known name).mp path
      exact task.2
    · intro name path
      obtain ⟨task, rfl, -⟩ := (reaches_names root known name).mp path
      rw [listed_self]
      rfl
    · exact (Finset.card_le_card Finset.sdiff_subset).trans_lt (Nat.lt_succ_self _)
  have search := Graphviz.trace_search text recipe table.application (table.names.card + 1) root.1 none .blank [] rfl (by simp)
  rw [← Option.isSome_map, ← search, Option.isSome_map] at ends
  exact ends

-- The three traversals from one root, with nothing invoked or fetched and all
-- tasks needed: each comes to its end, and they reach and follow the same. A
-- search that raises an error reaches less than the two that do not.
def Agree (table : TaskTable) (weight : table.names → Int) (text : TaskName → List Char) (recipe : Recipe table.names)
    (root : table.names) : Prop :=
  ∃ status after s g, availableTask table.application (fun _ => true) root Tracer.blank = (.ok status, after) ∧
    dagTraceTask table.application weight (Fintype.card table.names + 1) root.1 .blank = some s ∧
    Graphviz.trace table.application text recipe (table.names.card + 1) root.1 none .blank = some g ∧
    s.dagTraced = after.footprint ∧ g.traced = after.footprint.image Subtype.val ∧
    (∀ pair, pair ∈ s.followed ↔
      pair ∈ followed table.application (fun _ => true) (Fintype.card table.names + 1) root [] Tracer.blank) ∧
    ∀ pair, pair ∈ g.followed ↔
      ∃ prereq task, pair = (prereq.1, task.1) ∧
        (prereq, task) ∈ followed table.application (fun _ => true) (Fintype.card table.names + 1) root [] Tracer.blank

-- A name means the same in the namespaces of the task as at the top level.
def Unshadowed (table : TaskTable) (task : table.names) : Prop :=
  ∀ name ∈ table.prerequisites task.1, table.application.lookup name none = Tracer.resolve table.application task name

theorem unshadowed_needs (task : table.names) (plain : Unshadowed table task) (prereq : table.names) :
    Needs table.application task prereq ↔ Requires table.application task prereq := by
  constructor
  · rintro ⟨name, listed, found⟩
    exact ⟨name, listed, (plain name listed).trans found⟩
  · rintro ⟨name, listed, found⟩
    exact ⟨name, listed, (plain name listed).symm.trans found⟩

theorem unshadowed_reach (root : table.names) (plain : ∀ task, Reach table.application root task → Unshadowed table task)
    (task : table.names) : Reach table.application root task ↔ Relation.ReflTransGen (Requires table.application) root task := by
  constructor
  · intro path
    induction path with
    | refl => exact .refl
    | tail path needs ih => exact ih.tail ((unshadowed_needs _ (plain _ path) _).mp needs)
  · intro path
    induction path with
    | refl => exact .refl
    | tail _ needs ih => exact ih.tail ((unshadowed_needs _ (plain _ ih) _).mpr needs)

theorem unshadowed_known (root : table.names) (buildable : Buildable table.application root)
    (plain : ∀ task, Reach table.application root task → Unshadowed table task) (task : table.names)
    (path : Reach table.application root task) (name : TaskName) (listed : name ∈ table.prerequisites task.1) :
    name ∈ table.names := by
  obtain ⟨prereq, found⟩ := buildable.resolves task path name listed
  have top := (plain task path name listed).trans found
  exact find_some table name prereq top ▸ prereq.2

-- A task whose names lead to the same tasks in its namespaces and at the top
-- level: no name can lead to a longer one, since they would outgrow the list.
theorem same_prereqs_unshadowed (task : table.names) (known : ∀ name ∈ table.prerequisites task.1, name ∈ table.names)
    (same : ∀ prereq, Needs table.application task prereq ↔ Requires table.application task prereq) : Unshadowed table task := by
  let inner : TaskName → TaskName := fun name => ((Tracer.resolve table.application task name).map Subtype.val).getD name
  have resolves : ∀ name ∈ table.prerequisites task.1, ∃ prereq, Tracer.resolve table.application task name = some prereq := by
    intro name listed
    exact Option.isSome_iff_exists.mp (lookup_in_scope_some table name _ _ (known name listed))
  have onto : (table.prerequisites task.1).toFinset.image inner = (table.prerequisites task.1).toFinset := by
    ext name
    simp only [Finset.mem_image, List.mem_toFinset]
    constructor
    · rintro ⟨outer, listed, rfl⟩
      obtain ⟨prereq, found⟩ := resolves outer listed
      have needs := (requires_listed task prereq).mp ((same prereq).mp ⟨outer, listed, found⟩)
      simpa only [inner, found, Option.map_some, Option.getD_some] using needs
    · intro listed
      obtain ⟨outer, also, found⟩ := (same ⟨name, known name listed⟩).mpr ((requires_listed task _).mpr listed)
      exact ⟨outer, also, by simp only [inner, found, Option.map_some, Option.getD_some]⟩
  have fixed := onto_fixed _ inner List.length onto fun name listed => by
    obtain ⟨prereq, found⟩ := resolves name (List.mem_toFinset.mp listed)
    simp only [inner, found, Option.map_some, Option.getD_some]
    exact lookup_in_scope_longer table name _ _ prereq found
  intro name listed
  obtain ⟨prereq, found⟩ := resolves name listed
  have itself := fixed name (List.mem_toFinset.mpr listed)
  simp only [inner, found, Option.map_some, Option.getD_some] at itself
  rw [found, ← itself]
  exact lookup_self table prereq

theorem traversals_agree_iff (table : TaskTable) (weight : table.names → Int) (text : TaskName → List Char)
    (recipe : Recipe table.names) (root : table.names) :
    Agree table weight text recipe root ↔
      Buildable table.application root ∧ ∀ task, Reach table.application root task → Unshadowed table task := by
  constructor
  · rintro ⟨status, after, s, g, searched, ran, -, marks, -, pairs, -⟩
    obtain ⟨buildable, reached, calls⟩ := Tracer.available_task_graph root after status searched
    obtain ⟨given, traced, followed⟩ := dag_trace_task_graph weight root.1 root (lookup_self table root) s ran
    have both : ∀ task, Reach table.application root task ↔ Relation.ReflTransGen (Requires table.application) root task := by
      intro task
      rw [← reached, ← marks, traced]
    refine ⟨buildable, fun task path => ?_⟩
    have top := (both task).mp path
    refine same_prereqs_unshadowed task (prereq_tasks_known task (given task top)) fun prereq => ?_
    have pair := pairs (prereq, task)
    rw [followed, calls] at pair
    constructor
    · exact fun needs => (pair.mpr ⟨path, needs⟩).2
    · exact fun needs => (pair.mp ⟨top, needs⟩).2
  · rintro ⟨buildable, plain⟩
    obtain ⟨status, fine⟩ := Tracer.available_task_ok table.application (fun _ => true) root Tracer.blank buildable
    rcases searched : availableTask table.application (fun _ => true) root Tracer.blank with ⟨result, after⟩
    rw [searched] at fine
    subst fine
    obtain ⟨-, reached, calls⟩ := Tracer.available_task_graph root after status searched
    have both := unshadowed_reach root plain
    have known : ∀ task, Relation.ReflTransGen (Requires table.application) root task →
        ∀ name ∈ table.prerequisites task.1, name ∈ table.names := by
      intro task path
      exact unshadowed_known root buildable plain task ((both task).mpr path)
    have given : ∀ task, Relation.ReflTransGen (Requires table.application) root task →
      (prereqTasks table.application task).isSome := by
      intro task path
      exact known_prereq_tasks task (known task path)
    obtain ⟨s, ran⟩ := Option.isSome_iff_exists.mp (dag_trace_task_ends weight root.1 root (lookup_self table root) given)
    obtain ⟨g, drawn⟩ := Option.isSome_iff_exists.mp (trace_ends text recipe root known)
    obtain ⟨-, traced, followed⟩ := dag_trace_task_graph weight root.1 root (lookup_self table root) s ran
    obtain ⟨names, named⟩ := trace_graph root g drawn
    refine ⟨status, after, s, g, searched, ran, drawn, ?_, ?_, ?_, ?_⟩
    · ext task
      rw [traced, reached, both]
    · ext name
      simp only [names, Finset.mem_image, reached, both, and_comm]
    · rintro ⟨prereq, task⟩
      rw [followed, calls, both]
      exact and_congr_right fun path => (unshadowed_needs task (plain task ((both task).mpr path)) prereq).symm
    · rintro ⟨prereq, name⟩
      rw [named]
      constructor
      · rintro ⟨task, rfl, path, listed⟩
        refine ⟨⟨prereq, known task path prereq listed⟩, task, rfl, ?_⟩
        rw [calls, unshadowed_needs task (plain task ((both task).mpr path))]
        exact ⟨(both task).mpr path, (requires_listed task _).mpr listed⟩
      · rintro ⟨lower, task, same, call⟩
        obtain ⟨rfl, rfl⟩ := Prod.mk.inj same
        rw [calls] at call
        have needs := (unshadowed_needs task (plain task call.1) lower).mp call.2
        exact ⟨task, rfl, (both task).mp call.1, (requires_listed task lower).mp needs⟩

-- Task b of the namespace ns needs a, which there is in ns and outside.
def shadowed : TaskTable where
  names := {"a".toList, "ns:a".toList, "ns:b".toList}
  prerequisites := fun name => if name = "ns:b".toList then ["a".toList] else []
  scope := fun name => if name = "a".toList then [] else ["ns".toList]

theorem shadowed_apart :
    ¬ Agree shadowed (fun _ => 1) id ⟨fun _ => false, fun _ => true, fun _ => []⟩ ⟨"ns:b".toList, by decide⟩ := by
  have searched : (availableTask shadowed.application (fun _ => true) ⟨"ns:b".toList, by decide⟩ Tracer.blank).2.footprint =
      {⟨"ns:a".toList, by decide⟩, ⟨"ns:b".toList, by decide⟩} := by decide +kernel
  have partitioned : (dagTraceTask shadowed.application (fun _ => 1) (Fintype.card shadowed.names + 1) "ns:b".toList .blank).map
      Metis.VertexList.dagTraced = some {⟨"a".toList, by decide⟩, ⟨"ns:b".toList, by decide⟩} := by decide +kernel
  rintro ⟨status, after, s, g, traced, ran, -, marks, -⟩
  rw [ran, Option.map_some, Option.some.injEq, marks] at partitioned
  rw [traced, partitioned] at searched
  exact absurd searched (by decide +kernel)

end Names

end TaskTable

end Pwrake
