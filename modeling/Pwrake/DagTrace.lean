import Pwrake.Lib.Search
import Pwrake.Tracer
import Pwrake.VertexList

set_option autoImplicit false

namespace Pwrake

namespace Metis

namespace VertexList

variable {Task Name Scope : Type*}

-- Rake.application[name] for each name of a list. No scope is given here.
def lookupAll (app : Application Task Name Scope) (names : List Name) : Option (List Task) :=
  names.mapM fun name => app.lookup name none

def prereqTasks (app : Application Task Name Scope) (task : Task) : Option (List Task) := lookupAll app (app.prerequisites task)

def Requires (app : Application Task Name Scope) (task prereq : Task) : Prop :=
  ∃ name ∈ app.prerequisites task, app.lookup name none = some prereq

theorem lookup_all_cons (app : Application Task Name Scope) (name : Name) (names : List Name) :
    lookupAll app (name :: names) = (app.lookup name none).bind fun task => (lookupAll app names).map (task :: ·) := by
  rw [lookupAll, List.mapM_cons]
  cases app.lookup name none with
  | none => rfl
  | some task =>
      cases rest : lookupAll app names with
      | none => rw [lookupAll] at rest; rw [rest]; rfl
      | some tasks => rw [lookupAll] at rest; rw [rest]; rfl

theorem mem_lookup_all (app : Application Task Name Scope) (names : List Name) (tasks : List Task)
    (found : lookupAll app names = some tasks) (task : Task) :
    task ∈ tasks ↔ ∃ name ∈ names, app.lookup name none = some task := by
  induction names generalizing tasks with
  | nil =>
      cases found
      simp
  | cons name names ih =>
      rw [lookup_all_cons] at found
      obtain ⟨first, here, later⟩ := Option.bind_eq_some_iff.mp found
      obtain ⟨rest, there, rfl⟩ := Option.map_eq_some_iff.mp later
      rw [List.mem_cons, ih rest there, List.exists_mem_cons_iff, here, Option.some.injEq, eq_comm]

theorem lookup_all_resolves (app : Application Task Name Scope) (names : List Name) (given : (lookupAll app names).isSome) :
    ∀ name ∈ names, (app.lookup name none).isSome := by
  induction names with
  | nil => simp
  | cons name names ih =>
      obtain ⟨tasks, found⟩ := Option.isSome_iff_exists.mp given
      rw [lookup_all_cons] at found
      obtain ⟨task, here, later⟩ := Option.bind_eq_some_iff.mp found
      obtain ⟨rest, there, -⟩ := Option.map_eq_some_iff.mp later
      intro other member
      rcases List.mem_cons.mp member with rfl | behind
      · rw [here]
        rfl
      · exact ih (by rw [there]; rfl) other behind

theorem lookup_all_some (app : Application Task Name Scope) (names : List Name)
    (resolves : ∀ name ∈ names, (app.lookup name none).isSome) : (lookupAll app names).isSome := by
  induction names with
  | nil => rfl
  | cons name names ih =>
      obtain ⟨task, here⟩ := Option.isSome_iff_exists.mp (resolves name List.mem_cons_self)
      obtain ⟨tasks, there⟩ := Option.isSome_iff_exists.mp
        (ih fun other member => resolves other (List.mem_cons_of_mem name member))
      rw [lookup_all_cons, here, there]
      rfl

theorem edge_requires (app : Application Task Name Scope) (task prereq : Task)
    (edge : Search.Edge (prereqTasks app) task prereq) :
    Requires app task prereq := by
  obtain ⟨tasks, found, listed⟩ := edge
  exact (mem_lookup_all app _ tasks found prereq).mp listed

variable [DecidableEq Task]

-- The first loop over the prerequisites.
def addEdges (app : Application Task Name Scope) (weight : Task → Int) (task : Task) (names : List Name) (s : VertexList Task) :
    Option (VertexList Task) :=
  names.foldlM (fun s name => (app.lookup name none).map fun prereq => addEdge weight s prereq task) s

-- none is the error Rake raises for a name it cannot build. depth bounds the
-- recursion; dag_trace_ends shows that card + 1 is never used up.
def dagTraceTask (app : Application Task Name Scope) (weight : Task → Int) : Nat → Name → VertexList Task →
    Option (VertexList Task)
  | 0, _, _ => none
  | depth + 1, name, s =>
      (app.lookup name none).bind fun task =>
        if task ∈ s.dagTraced then some s
        else
          (addEdges app weight task (app.prerequisites task) { s with dagTraced := insert task s.dagTraced }).bind fun s =>
            (app.prerequisites task).foldlM (fun s name => dagTraceTask app weight depth name s) s

-- It sets @dag_traced to nil in the end, which nothing reads.
def dagTrace [Fintype Task] (app : Application Task Name Scope) (weight : Task → Int) (topLevelTasks : List Name) :
    Option (VertexList Task) :=
  topLevelTasks.foldlM (fun s name => dagTraceTask app weight (Fintype.card Task + 1) name s) blank

section Simulation

variable (app : Application Task Name Scope) (weight : Task → Int)

-- The calls of add_edge at a task and at all the tasks opened so far.
def callsAt (task : Task) : List (Task × Task) := ((prereqTasks app task).getD []).map fun prereq => (prereq, task)

def callEdge (s : VertexList Task) (pair : Task × Task) : VertexList Task := addEdge weight s pair.1 pair.2

-- What stands in the list after a search that opened these tasks.
def traced (opened : List Task) : VertexList Task :=
  { (opened.flatMap (callsAt app)).foldl (callEdge weight) blank with dagTraced := opened.toFinset }

theorem traced_marked (opened : List Task) (task : Task) : task ∈ (traced app weight opened).dagTraced ↔ task ∈ opened :=
  List.mem_toFinset

-- No call of add_edge looks at the marks.
theorem add_vertex_marks (marks : Finset Task) (s : VertexList Task) (x : Task) :
    addVertex weight { s with dagTraced := marks } x = { addVertex weight s x with dagTraced := marks } := by
  rw [addVertex, addVertex]
  split
  · rfl
  · rfl

theorem call_edge_marks (marks : Finset Task) (s : VertexList Task) (pair : Task × Task) :
    callEdge weight { s with dagTraced := marks } pair = { callEdge weight s pair with dagTraced := marks } := by
  have both := add_vertex_marks weight marks
    (addVertex weight { s with followed := s.followed ++ [(pair.1, pair.2)] } pair.1) pair.2
  rw [← add_vertex_marks weight marks { s with followed := s.followed ++ [(pair.1, pair.2)] } pair.1] at both
  rw [callEdge, callEdge, addEdge, addEdge]
  simp only
  split
  · rw [both]
    split
    · rfl
    · rfl
  · rfl

theorem calls_marks (marks : Finset Task) (calls : List (Task × Task)) (s : VertexList Task) :
    calls.foldl (callEdge weight) { s with dagTraced := marks } =
      { calls.foldl (callEdge weight) s with dagTraced := marks } := by
  induction calls generalizing s with
  | nil => rfl
  | cons pair calls ih => rw [List.foldl_cons, List.foldl_cons, call_edge_marks, ih]

theorem add_edges_calls (task : Task) (names : List Name) (s : VertexList Task) :
    addEdges app weight task names s =
      (lookupAll app names).map fun prereqs => (prereqs.map fun prereq => (prereq, task)).foldl (callEdge weight) s := by
  induction names generalizing s with
  | nil => rfl
  | cons name names ih =>
      rw [lookup_all_cons, addEdges, List.foldlM_cons]
      cases app.lookup name none with
      | none => rfl
      | some prereq =>
          refine (ih (addEdge weight s prereq task)).trans ?_
          cases lookupAll app names with
          | none => rfl
          | some prereqs => rfl

theorem traced_open (task : Task) (opened prereqs : List Task) (found : prereqTasks app task = some prereqs) :
    (prereqs.map fun prereq => (prereq, task)).foldl (callEdge weight)
        { traced app weight opened with dagTraced := insert task (traced app weight opened).dagTraced } =
      traced app weight (opened ++ [task]) := by
  have marks : insert task opened.toFinset = (opened ++ [task]).toFinset := by
    ext other
    simp
  have calls : callsAt app task = prereqs.map fun prereq => (prereq, task) := by rw [callsAt, found, Option.getD_some]
  rw [traced, traced, List.flatMap_append, List.foldl_append, List.flatMap_singleton, calls, marks]
  exact calls_marks weight (opened ++ [task]).toFinset (prereqs.map fun prereq => (prereq, task))
    ((opened.flatMap (callsAt app)).foldl (callEdge weight) blank)

theorem each_search (depth : Nat) (names : List Name) (opened : List Task)
    (calls : ∀ name opened, dagTraceTask app weight depth name (traced app weight opened) =
      (app.lookup name none).bind fun task => (Search.visit (prereqTasks app) depth task opened).map (traced app weight)) :
    names.foldlM (fun s name => dagTraceTask app weight depth name s) (traced app weight opened) =
      (lookupAll app names).bind fun tasks =>
        (Search.visitAll (Search.visit (prereqTasks app) depth) tasks opened).map (traced app weight) := by
  induction names generalizing opened with
  | nil => rfl
  | cons name names ih =>
      rw [List.foldlM_cons, calls, lookup_all_cons]
      cases app.lookup name none with
      | none => rfl
      | some task =>
          cases visited : Search.visit (prereqTasks app) depth task opened with
          | none => cases lookupAll app names <;> simp [Search.visitAll, visited]
          | some after =>
              simp only [Option.bind_eq_bind, Option.bind_some, visited, Option.map_some, ih after]
              cases lookupAll app names <;> simp [Search.visitAll, visited]

-- dag_trace_task is a depth-first search: the list it leaves is the one that
-- belongs to the tasks the search opens.
theorem dag_trace_task_search (depth : Nat) (name : Name) (opened : List Task) :
    dagTraceTask app weight depth name (traced app weight opened) =
      (app.lookup name none).bind fun task => (Search.visit (prereqTasks app) depth task opened).map (traced app weight) := by
  induction depth generalizing name opened with
  | zero => cases app.lookup name none <;> rfl
  | succ depth ih =>
      rw [dagTraceTask]
      cases app.lookup name none with
      | none => rfl
      | some task =>
          rw [Option.bind_some, Option.bind_some, Search.visit]
          by_cases known : task ∈ opened
          · rw [if_pos known, if_pos ((traced_marked app weight opened task).mpr known), Option.map_some]
          · rw [if_neg known, if_neg (mt (traced_marked app weight opened task).mp known), add_edges_calls]
            cases found : prereqTasks app task with
            | none =>
                rw [prereqTasks] at found
                rw [found]
                rfl
            | some prereqs =>
                have opens := traced_open app weight task opened prereqs found
                have again := each_search app weight depth (app.prerequisites task) (opened ++ [task]) ih
                rw [prereqTasks] at found
                rw [found, Option.bind_some] at again
                rw [found, Option.map_some, Option.bind_some, opens, again, Option.bind_some]

theorem dag_trace_search [Fintype Task] (topLevelTasks : List Name) :
    dagTrace app weight topLevelTasks = (lookupAll app topLevelTasks).bind fun roots =>
      (Search.visitAll (Search.visit (prereqTasks app) (Fintype.card Task + 1)) roots []).map (traced app weight) :=
  each_search app weight _ topLevelTasks [] (dag_trace_task_search app weight _)

theorem calls_followed (calls : List (Task × Task)) (s : VertexList Task) :
    (calls.foldl (callEdge weight) s).followed = s.followed ++ calls := by
  induction calls generalizing s with
  | nil => simp
  | cons pair calls ih => rw [List.foldl_cons, ih, callEdge, add_edge_followed, List.append_assoc, List.singleton_append]

theorem traced_followed (opened : List Task) : (traced app weight opened).followed = opened.flatMap (callsAt app) := by
  rw [traced, calls_followed]
  rfl

theorem calls_depict (calls : List (Task × Task)) (s : VertexList Task) (depicts : Depicts weight s (drawn weight s.followed)) :
    Depicts weight (calls.foldl (callEdge weight) s) (drawn weight (calls.foldl (callEdge weight) s).followed) := by
  induction calls generalizing s with
  | nil => exact depicts
  | cons pair calls ih => exact ih (callEdge weight s pair) (add_edge_depicts pair.1 pair.2 depicts)

theorem traced_depicts (opened : List Task) :
    Depicts weight (traced app weight opened) (drawn weight (opened.flatMap (callsAt app))) := by
  have depicts := calls_depict weight (opened.flatMap (callsAt app)) blank (blank_depicts weight)
  rw [calls_followed] at depicts
  exact ⟨depicts.placed, depicts.numbered, depicts.covered, depicts.edges, depicts.adjacent⟩

end Simulation

section Calls

variable {app : Application Task Name Scope}

omit [DecidableEq Task] in
theorem mem_calls (opened : List Task) (given : ∀ task ∈ opened, (prereqTasks app task).isSome) (prereq task : Task) :
    (prereq, task) ∈ opened.flatMap (callsAt app) ↔ task ∈ opened ∧ Requires app task prereq := by
  have own : ∀ other ∈ opened, (prereq, task) ∈ callsAt app other ↔ task = other ∧ Requires app other prereq := by
    intro other member
    obtain ⟨prereqs, found⟩ := Option.isSome_iff_exists.mp (given other member)
    rw [callsAt, found, Option.getD_some, List.mem_map, Requires, ← mem_lookup_all app _ prereqs found]
    simp [eq_comm, and_comm]
  rw [List.mem_flatMap]
  constructor
  · rintro ⟨other, member, call⟩
    obtain ⟨rfl, needs⟩ := (own other member).mp call
    exact ⟨member, needs⟩
  · rintro ⟨member, needs⟩
    exact ⟨task, member, (own task member).mpr ⟨rfl, needs⟩⟩

end Calls

section Graph

variable {app : Application Task Name Scope}

omit [DecidableEq Task] in
theorem reaches_iff (root : Task) (given : ∀ task, Relation.ReflTransGen (Requires app) root task → (prereqTasks app task).isSome)
    (task : Task) : Search.Reaches (prereqTasks app) root task ↔ Relation.ReflTransGen (Requires app) root task := by
  constructor
  · exact Relation.ReflTransGen.mono (edge_requires app) root task
  · intro path
    induction path with
    | refl => exact .refl
    | tail path needs ih =>
        obtain ⟨prereqs, found⟩ := Option.isSome_iff_exists.mp (given _ path)
        exact ih.tail ⟨prereqs, found, (mem_lookup_all app _ prereqs found _).mpr needs⟩

-- Two tasks that need each other, one that weighs nothing and one below both.
inductive Knotted where
  | top
  | back
  | light
  | leaf
deriving DecidableEq

instance : Fintype Knotted := ⟨{.top, .back, .light, .leaf}, by rintro ⟨⟩ <;> decide⟩

def knottedPrereqs : Knotted → List Knotted
  | .top => [.back, .light]
  | .back => [.top, .leaf]
  | .light => [.leaf]
  | .leaf => []

def knottedWeight : Knotted → Int
  | .top => 1
  | .back => 2
  | .light => 0
  | .leaf => 4

end Graph

end VertexList

end Metis

end Pwrake
