import Pwrake.Lib.Search
import Pwrake.Tracer

set_option autoImplicit false

namespace Pwrake

-- What trace asks of a task: whether it is a Rake::FileTask, whether it has
-- actions, and its comment.
structure Recipe (Task : Type*) where
  isFile : Task → Bool
  hasActions : Task → Bool
  comment : Task → List Char

inductive Shape where
  | box
  | ellipse
deriving DecidableEq

structure GraphNode where
  tag : Nat
  label : List Char
  shape : Shape
deriving DecidableEq

-- A tag T0, T1, ... is its number. An edge from or to nil has no tag there.
-- followed and visits are not in the source: they keep the calls of trace, the
-- one with the name of the task that makes the call, the other with the target.
structure Graphviz (Name : Type*) where
  nodes : List GraphNode
  edges : List (Option Nat × Option Nat)
  filenodeId : Name → Option Nat
  tasknodeId : Name → Option Nat
  nodeName : Nat → Option Name
  count : Nat
  traced : Finset Name
  followed : List (Name × Name)
  visits : List (Name × Option Name)

namespace Graphviz

-- sub(pattern, ''): the first match goes. A match is the word and the digits
-- after it, of which there is at least one.
def subDigits (word : List Char) : List Char → List Char
  | [] => []
  | c :: rest =>
      if word <+: c :: rest ∧ (((c :: rest).drop word.length).head?.any Char.isDigit) then
        ((c :: rest).drop word.length).dropWhile Char.isDigit
      else c :: subDigits word rest

-- The part after the last slash, without slashes at the end.
def basename (name : List Char) : List Char :=
  if name ≠ [] ∧ name.all (· == '/') then ['/']
  else (((name.reverse.dropWhile (· == '/')).takeWhile (· != '/'))).reverse

def trim (name : List Char) : List Char := subDigits "object".toList (subDigits ['H'] (basename name))

section Trace

variable {Task Name Scope : Type*} [DecidableEq Name]

def blank : Graphviz Name := ⟨[], [], fun _ => none, fun _ => none, fun _ => none, 0, ∅, [], []⟩

def newNode (label : List Char) (shape : Shape) (g : Graphviz Name) (name : Name) : Graphviz Name :=
  { g with
    count := g.count + 1
    nodeName := Function.update g.nodeName g.count (some name)
    nodes := g.nodes ++ [⟨g.count, label, shape⟩] }

def pushFilenode (text : Name → List Char) (g : Graphviz Name) (name : Name) : Graphviz Name :=
  if (g.filenodeId name).isNone then
    { newNode (trim (text name)) .box g name with filenodeId := Function.update g.filenodeId name (some g.count) }
  else g

def pushTasknode (label : List Char) (g : Graphviz Name) (name : Name) : Graphviz Name :=
  if (g.tasknodeId name).isNone then
    { newNode label .ellipse g name with tasknodeId := Function.update g.tasknodeId name (some g.count) }
  else g

def fileedge (g : Graphviz Name) (name target : Name) : Option Nat × Option Nat :=
  if (g.tasknodeId target).isSome then (g.filenodeId name, g.tasknodeId target)
  else if (g.tasknodeId name).isSome then (g.tasknodeId name, g.filenodeId target)
  else (g.filenodeId name, g.filenodeId target)

def pushFileedge (g : Graphviz Name) (name : Name) (target : Option Name) : Graphviz Name :=
  match target with
  | none => g
  | some target => { g with edges := g.edges ++ [fileedge g name target] }

def pushTaskedge (g : Graphviz Name) (name : Name) : Graphviz Name :=
  if (g.tasknodeId name).isSome then { g with edges := g.edges ++ [(g.tasknodeId name, g.filenodeId name)] } else g

-- What trace draws of a file task before it goes on to the prerequisites.
def drawNodes (text : Name → List Char) (recipe : Recipe Task) (task : Task) (name : Name) (g : Graphviz Name) : Graphviz Name :=
  if recipe.hasActions task ∧ name ∉ g.traced then
    pushTaskedge (pushTasknode (recipe.comment task) (pushFilenode text g name) name) name
  else pushFilenode text g name

def drawFile (text : Name → List Char) (recipe : Recipe Task) (task : Task) (name : Name) (target : Option Name)
    (g : Graphviz Name) : Graphviz Name :=
  pushFileedge (drawNodes text recipe task name g) name target

def arrive (text : Name → List Char) (recipe : Recipe Task) (task : Task) (name : Name) (target : Option Name)
    (g : Graphviz Name) : Graphviz Name :=
  { (if recipe.isFile task then drawFile text recipe task name target g else g) with
    traced := insert name g.traced
    visits := g.visits ++ [(name, target)] }

-- target = name
def aim (recipe : Recipe Task) (task : Task) (name : Name) (target : Option Name) : Option Name :=
  if recipe.isFile task then some name else target

def follow (g : Graphviz Name) (prereq name : Name) : Graphviz Name := { g with followed := g.followed ++ [(prereq, name)] }

-- none is the error Rake raises for a name it cannot build. depth bounds the
-- recursion; trace_search shows when it is not used up.
def trace (app : Application Task Name Scope) (text : Name → List Char) (recipe : Recipe Task) :
    Nat → Name → Option Name → Graphviz Name → Option (Graphviz Name)
  | 0, _, _, _ => none
  | depth + 1, name, target, g =>
      (app.lookup name none).bind fun task =>
        if name ∈ g.traced then some (arrive text recipe task name target g)
        else
          (app.prerequisites task).foldlM
            (fun g prereq => trace app text recipe depth prereq (aim recipe task name target) (follow g prereq name))
            (arrive text recipe task name target g)

def tagText (tag : Option Nat) : String :=
  match tag with
  | none => ""
  | some n => "T" ++ toString n

def nodeText (node : GraphNode) : String :=
  tagText (some node.tag) ++ " [label=\"" ++ String.ofList node.label ++ "\", shape=" ++
    (match node.shape with
      | .box => "box"
      | .ellipse => "ellipse") ++ "];"

def edgeText (edge : Option Nat × Option Nat) : String := tagText edge.1 ++ " -> " ++ tagText edge.2 ++ ";"

def write (g : Graphviz Name) : List String :=
  ["digraph sample \x7b", "graph [size=\"70,70\", rankdir=LR];"] ++ g.nodes.map nodeText ++ g.edges.map edgeText ++ ["\x7d"]

end Trace

section Follow

variable {Task Name Scope : Type*} [DecidableEq Name] (text : Name → List Char) (recipe : Recipe Task)

-- The drawing does not look at what is traced and followed, and leaves it.
theorem draw_file_followed (task : Task) (name : Name) (target : Option Name) (g : Graphviz Name) :
    (drawFile text recipe task name target g).followed = g.followed := by
  have filenode : (pushFilenode text g name).followed = g.followed := by
    rw [pushFilenode]
    split
    · rfl
    · rfl
  have tasknode : ∀ (g : Graphviz Name) label, (pushTasknode label g name).followed = g.followed := by
    intro g label
    rw [pushTasknode]
    split
    · rfl
    · rfl
  have taskedge : ∀ g : Graphviz Name, (pushTaskedge g name).followed = g.followed := by
    intro g
    rw [pushTaskedge]
    split
    · rfl
    · rfl
  have fileedge : ∀ g : Graphviz Name, (pushFileedge g name target).followed = g.followed := by
    intro g
    cases target with
    | none => rfl
    | some target => rfl
  rw [drawFile, fileedge, drawNodes]
  split
  · rw [taskedge, tasknode, filenode]
  · exact filenode

theorem arrive_followed (task : Task) (name : Name) (target : Option Name) (g : Graphviz Name) :
    (arrive text recipe task name target g).followed = g.followed := by
  rw [arrive]
  simp only
  split
  · exact draw_file_followed text recipe task name target g
  · rfl

theorem arrive_traced (task : Task) (name : Name) (target : Option Name) (g : Graphviz Name) :
    (arrive text recipe task name target g).traced = insert name g.traced := rfl

variable (app : Application Task Name Scope)

def listed (name : Name) : Option (List Name) := (app.lookup name none).map app.prerequisites

-- The names trace marks are those a depth-first search opens.
theorem each_trace_search (depth : Nat) (below : Option Name) (name : Name)
    (calls : ∀ prereq (g : Graphviz Name) opened, g.traced = opened.toFinset → (∀ other ∈ opened, (app.lookup other none).isSome) →
      (trace app text recipe depth prereq below g).map Graphviz.traced =
        (Search.visit (listed app) depth prereq opened).map List.toFinset)
    (prereqs : List Name) (g : Graphviz Name) (opened : List Name) (marks : g.traced = opened.toFinset)
    (resolved : ∀ other ∈ opened, (app.lookup other none).isSome) :
    (prereqs.foldlM (fun g prereq => trace app text recipe depth prereq below (follow g prereq name)) g).map Graphviz.traced =
      (Search.visitAll (Search.visit (listed app) depth) prereqs opened).map List.toFinset := by
  induction prereqs generalizing g opened with
  | nil => exact congrArg some marks
  | cons prereq prereqs ih =>
      have call := calls prereq (follow g prereq name) opened marks resolved
      rw [List.foldlM_cons, Search.visitAll]
      cases visited : Search.visit (listed app) depth prereq opened with
      | none =>
          rw [visited, Option.map_none, Option.map_eq_none_iff] at call
          simp [call]
      | some after =>
          rw [visited, Option.map_some, Option.map_eq_some_iff] at call
          obtain ⟨between, traced, same⟩ := call
          obtain ⟨added, rfl, explored⟩ := Search.visit_explored depth prereq opened after visited
          rw [traced, Option.bind_some]
          refine ih between (opened ++ added) same fun other member => ?_
          rcases List.mem_append.mp member with early | late
          · exact resolved other early
          · obtain ⟨names, given, -⟩ := explored.closed other late
            obtain ⟨task, found, -⟩ := Option.map_eq_some_iff.mp given
            rw [found]
            rfl

theorem trace_search (depth : Nat) (name : Name) (target : Option Name) (g : Graphviz Name) (opened : List Name)
    (marks : g.traced = opened.toFinset) (resolved : ∀ other ∈ opened, (app.lookup other none).isSome) :
    (trace app text recipe depth name target g).map Graphviz.traced =
      (Search.visit (listed app) depth name opened).map List.toFinset := by
  induction depth generalizing name target g opened with
  | zero => rfl
  | succ depth ih =>
      rw [trace, Search.visit]
      by_cases known : name ∈ opened
      · obtain ⟨task, found⟩ := Option.isSome_iff_exists.mp (resolved name known)
        have inside : name ∈ g.traced := by simp [marks, known]
        rw [found, Option.bind_some, if_pos inside, if_pos known, Option.map_some, arrive_traced, Finset.insert_eq_of_mem inside,
          marks, Option.map_some]
      · have outside : name ∉ g.traced := by simp [marks, known]
        rw [if_neg known, listed]
        cases found : app.lookup name none with
        | none => rfl
        | some task =>
            rw [Option.bind_some, if_neg outside, Option.map_some, Option.bind_some]
            apply each_trace_search text recipe app depth _ name fun prereq g opened => ih prereq _ g opened
            · rw [arrive_traced, marks]
              ext other
              simp
            · intro other member
              rcases List.mem_append.mp member with early | itself
              · exact resolved other early
              · rw [List.mem_singleton.mp itself, found]
                rfl

variable {text : Name → List Char} {recipe : Recipe Task} {app : Application Task Name Scope}

-- A call of trace for each prerequisite of each name that it marks.
structure Follows (app : Application Task Name Scope) (g after : Graphviz Name) : Prop where
  grows : g.traced ⊆ after.traced
  calls : ∀ prereq name, (prereq, name) ∈ after.followed ↔ (prereq, name) ∈ g.followed ∨
    (name ∈ after.traced ∧ name ∉ g.traced ∧ ∃ task, app.lookup name none = some task ∧ prereq ∈ app.prerequisites task)

-- The loop over the prerequisites of a name, from the state in which the name
-- has just been marked.
theorem each_trace_follows (depth : Nat) (below : Option Name) (name : Name)
    (calls : ∀ prereq (g after : Graphviz Name), trace app text recipe depth prereq below g = some after → Follows app g after)
    (prereqs : List Name) (g after : Graphviz Name) (marked : name ∈ g.traced)
    (ran : prereqs.foldlM (fun g prereq => trace app text recipe depth prereq below (follow g prereq name)) g = some after) :
    g.traced ⊆ after.traced ∧ ∀ prereq upper, (prereq, upper) ∈ after.followed ↔
      (prereq, upper) ∈ g.followed ∨ (upper = name ∧ prereq ∈ prereqs) ∨ (upper ∈ after.traced ∧ upper ∉ g.traced ∧
        ∃ task, app.lookup upper none = some task ∧ prereq ∈ app.prerequisites task) := by
  induction prereqs generalizing g with
  | nil =>
      cases ran
      exact ⟨subset_rfl, fun prereq upper => by simp +contextual⟩
  | cons first prereqs ih =>
      rw [List.foldlM_cons] at ran
      obtain ⟨between, traced, rest⟩ := Option.bind_eq_some_iff.mp ran
      obtain ⟨grows, called⟩ := calls first (follow g first name) between traced
      obtain ⟨later, calls⟩ := ih between (grows marked) rest
      refine ⟨Finset.Subset.trans grows later, fun prereq upper => ?_⟩
      have here : (prereq, upper) ∈ (follow g first name).followed ↔ (prereq, upper) ∈ g.followed ∨ (upper = name ∧ prereq = first) := by
        simp [follow, and_comm]
      have same : (follow g first name).traced = g.traced := rfl
      have before : upper ∈ g.traced → upper ∈ between.traced := fun member => grows member
      have behind : upper ∈ between.traced → upper ∈ after.traced := fun member => later member
      rw [calls, called, here, same, List.mem_cons]
      generalize (∃ task, app.lookup upper none = some task ∧ prereq ∈ app.prerequisites task) = resolves
      grind

theorem trace_follows (depth : Nat) (name : Name) (target : Option Name) (g after : Graphviz Name)
    (ran : trace app text recipe depth name target g = some after) : Follows app g after := by
  induction depth generalizing name target g after with
  | zero => cases ran
  | succ depth ih =>
      rw [trace] at ran
      obtain ⟨task, found, ran⟩ := Option.bind_eq_some_iff.mp ran
      have followed := arrive_followed text recipe task name target g
      split at ran
      · rename_i known
        cases ran
        refine ⟨Finset.subset_insert name _, fun prereq upper => ?_⟩
        rw [followed, arrive_traced, Finset.insert_eq_of_mem known]
        tauto
      · rename_i unknown
        obtain ⟨grows, calls⟩ := each_trace_follows depth _ name (fun prereq => ih prereq _) _ _ after
          (Finset.mem_insert_self name g.traced) ran
        refine ⟨(Finset.subset_insert name _).trans grows, fun prereq upper => ?_⟩
        have marked := grows (Finset.mem_insert_self name g.traced)
        rw [calls, followed, arrive_traced, Finset.mem_insert, not_or]
        by_cases itself : upper = name
        · subst itself
          simp [found, marked, unknown]
        · simp [itself]

end Follow

end Graphviz

end Pwrake
