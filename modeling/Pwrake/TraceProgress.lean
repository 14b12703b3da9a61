import Pwrake.Tracer
import Mathlib.Data.List.Chain

set_option autoImplicit false

namespace Pwrake

namespace Tracer

variable {Task Name Scope : Type*} [DecidableEq Task]

-- Some task below is fetched and its already_invoked flag is still down: the
-- trace has to come back after it ran.
def Blocked (app : Application Task Name Scope) (s : TraceState Task) (task : Task) : Prop :=
  ∃ lower, Reach app task lower ∧ lower ∈ s.fetched ∧ lower ∉ s.invoked

-- What the marks of a trace that started with an empty @footprint say: a
-- marked task is on the chain, done with, or blocked.
def Accounted (app : Application Task Name Scope) (chain : List Task) (s : TraceState Task) : Prop :=
  ∀ task ∈ s.footprint, task ∈ chain ∨ task ∈ s.invoked ∨ Blocked app s task

section Progress

variable {app : Application Task Name Scope} {needed : Task → Bool} {allowed : Task → Prop}

omit [DecidableEq Task] in
theorem blocked_above (s : TraceState Task) (task prereq : Task) (edge : Needs app task prereq)
    (blocked : Blocked app s prereq) : Blocked app s task := by
  obtain ⟨lower, below, fetched, uninvoked⟩ := blocked
  exact ⟨lower, below.head edge, fetched, uninvoked⟩

-- A trace lowers no flag and invokes only what it fetches, so what is blocked
-- stays blocked.
theorem explores_blocked (s after : TraceState Task) (task : Task) (explored : Explores app needed allowed s after)
    (blocked : Blocked app s task) : Blocked app after task := by
  refine explores_induction (fun state => Blocked app state task) s after explored blocked ?_
  rintro before next moved ⟨lower, below, fetched, uninvoked⟩
  cases moved with
  | mark other => exact ⟨lower, below, fetched, uninvoked⟩
  | fetch other => exact ⟨lower, below, Finset.mem_insert_of_mem fetched, uninvoked⟩
  | drop other _ unfetched =>
      have different : lower ≠ other := fun same => unfetched (same ▸ fetched)
      exact ⟨lower, below, Finset.mem_insert_of_mem fetched, by simp [different, uninvoked]⟩

theorem explores_accounted (chain : List Task) (s after : TraceState Task) (explored : Explores app needed allowed s after)
    (same : after.footprint = s.footprint) (accounted : Accounted app chain s) : Accounted app chain after := by
  intro task marked
  rcases accounted task (same ▸ marked) with onChain | invoked | blocked
  · exact .inl onChain
  · exact .inr (.inl ((explores_grows s after explored).1 invoked))
  · exact .inr (.inr (explores_blocked s after task explored blocked))

-- The state a successful find_task leaves, and what its status says.
structure Settled (app : Application Task Name Scope) (chain : List Task) (task : Task)
    (result : Traced Task Name (Option Status)) : Prop where
  accounted : Accounted app chain result.2
  blocked : ∀ status, result.1 = .ok (some status) → Blocked app result.2 task

theorem find_prereqs_settled (task : Task) (chain : List Task)
    (find : Task → TraceState Task → Traced Task Name (Option Status))
    (finds : ∀ prereq s, Needs app task prereq → Found app needed prereq s (find prereq s))
    (settles : ∀ prereq s status, Accounted app chain s → (find prereq s).1 = .ok status → Settled app chain prereq (find prereq s))
    (names : List Name) (listed : ∀ name ∈ names, name ∈ app.prerequisites task) (allInvoked : Bool)
    (s : TraceState Task) (accounted : Accounted app chain s) (known : allInvoked = false → Blocked app s task)
    (verdict : Bool) (looped : (findPrereqs app find task names allInvoked s).1 = .ok verdict) :
    Accounted app chain (findPrereqs app find task names allInvoked s).2 ∧
      (verdict = false → Blocked app (findPrereqs app find task names allInvoked s).2 task) := by
  induction names generalizing allInvoked s with
  | nil =>
      simp only [findPrereqs, Except.ok.injEq] at looped
      exact ⟨accounted, fun blocked => known (looped.trans blocked)⟩
  | cons name rest ih =>
      have restListed : ∀ other ∈ rest, other ∈ app.prerequisites task :=
        fun other member => listed other (List.mem_cons_of_mem name member)
      cases resolved : resolve app task name with
      | none => simp [findPrereqs, resolved] at looped
      | some prereq =>
          have edge : Needs app task prereq := ⟨name, listed name List.mem_cons_self, resolved⟩
          rcases found : find prereq s with ⟨error | (none | status), after⟩
          · simp [findPrereqs, resolved, found] at looped
          · have settled := settles prereq s none accounted (by rw [found])
            have explored := (finds prereq s edge).explores
            rw [found] at settled explored
            simp only [findPrereqs, resolved, found] at looped ⊢
            exact ih restListed allInvoked after settled.accounted
              (fun seen => explores_blocked s after task explored (known seen)) looped
          · have settled := settles prereq s (some status) accounted (by rw [found])
            rw [found] at settled
            simp only [findPrereqs, resolved, found] at looped ⊢
            exact ih restListed false after settled.accounted
              (fun _ => blocked_above after task prereq edge (settled.blocked status rfl)) looped

theorem accounted_enter (chain : List Task) (s : TraceState Task) (task : Task) (accounted : Accounted app chain s) :
    Accounted app (chain ++ [task]) { s with footprint := insert task s.footprint } := by
  intro other marked
  rcases Finset.mem_insert.mp marked with rfl | earlier
  · exact .inl (List.mem_append_right chain List.mem_cons_self)
  · exact (accounted other earlier).imp_left (List.mem_append_left [task])

omit [DecidableEq Task] in
theorem accounted_leave (chain : List Task) (s : TraceState Task) (task : Task) (accounted : Accounted app (chain ++ [task]) s)
    (outcome : task ∈ s.invoked ∨ Blocked app s task) : Accounted app chain s := by
  intro other marked
  rcases accounted other marked with onChain | settled
  · rcases List.mem_append.mp onChain with above | itself
    · exact .inl above
    · rw [List.mem_singleton.mp itself]
      exact .inr outcome
  · exact .inr settled

theorem find_task_settled (depth : Nat) (task : Task) (chain : List Task) (s : TraceState Task)
    (accounted : Accounted app chain s) (status : Option Status)
    (found : (findTask app needed depth task chain s).1 = .ok status) :
    Settled app chain task (findTask app needed depth task chain s) := by
  induction depth generalizing task chain s status with
  | zero => simp [findTask] at found
  | succ depth ih =>
      have finds := fun prereq s => find_task_found app needed depth prereq (chain ++ [task]) s
      have loop := fun verdict => find_prereqs_settled task (chain ++ [task]) _ (fun prereq s _ => finds prereq s)
        (fun prereq s status accounted found => ih prereq (chain ++ [task]) s accounted status found)
        (app.prerequisites task) (fun _ member => member) true _ (accounted_enter chain s task accounted) (by simp) verdict
      have touched := below_looped app needed depth task chain s finds
      have way := find_task_way app needed depth task chain s
      generalize findTask app needed (depth + 1) task chain s = result at way found ⊢
      rw [← below] at loop
      cases way with
      | invoked member => exact ⟨accounted, by simp⟩
      | circular => cases found
      | traced uninvoked off known =>
          refine ⟨accounted, fun _ _ => ?_⟩
          rcases known with marked | fetched
          · exact ((accounted task marked).resolve_left off).resolve_left uninvoked
          · exact ⟨task, .refl, fetched, uninvoked⟩
      | failed => cases found
      | pending after opened looped =>
          rw [looped] at loop
          obtain ⟨inside, blocked⟩ := loop false rfl
          exact ⟨accounted_leave chain after task inside (.inr (blocked rfl)), fun _ _ => blocked rfl⟩
      | fetched after opened looped wanted =>
          rw [looped] at loop
          obtain ⟨-, uninvoked, unfetched, ready, -⟩ := looped ▸ touched opened
          have moved : Explores app needed (fun _ => True) after
              { after with fetched := insert task after.fetched, fetchedTasks := after.fetchedTasks ++ [task] } :=
            .single (.fetch task trivial unfetched uninvoked (ready rfl) wanted)
          have inside := explores_accounted (chain ++ [task]) after _ moved rfl (loop true rfl).1
          have blocked : Blocked app
              { after with fetched := insert task after.fetched, fetchedTasks := after.fetchedTasks ++ [task] } task :=
            ⟨task, .refl, Finset.mem_insert_self task _, uninvoked⟩
          exact ⟨accounted_leave chain _ task inside (.inr blocked), fun _ _ => blocked⟩
      | dropped after opened looped unwanted =>
          rw [looped] at loop
          obtain ⟨-, uninvoked, unfetched, ready, -⟩ := looped ▸ touched opened
          have moved : Explores app needed (fun _ => True) after
              { after with fetched := insert task after.fetched, invoked := insert task after.invoked } :=
            .single (.drop task trivial unfetched uninvoked (ready rfl) unwanted)
          have inside := explores_accounted (chain ++ [task]) after _ moved rfl (loop true rfl).1
          exact ⟨accounted_leave chain _ task inside (.inl (Finset.mem_insert_self task _)), by simp⟩

end Progress

-- What can be wrong with the graph below a task.
def Faulty (app : Application Task Name Scope) (root : Task) : Prop :=
  ∃ task, Reach app root task ∧
    (Relation.TransGen (Needs app) task task ∨ ∃ name ∈ app.prerequisites task, resolve app task name = none)

section Errors

variable {app : Application Task Name Scope} {needed : Task → Bool}

-- What an error tells of the graph: the names of a circular one are a path
-- from the root that comes back to itself.
inductive Reported (app : Application Task Name Scope) (root : Task) : TraceError Task Name → Prop where
  | circular (chain : List Task) (name : Task) (starts : chain.head? = some root)
      (path : (chain ++ [name]).IsChain (Needs app)) (again : name ∈ chain) : Reported app root (.circular chain name)
  | unresolved (task : Task) (name : Name) (below : Reach app root task) (listed : name ∈ app.prerequisites task)
      (missing : resolve app task name = none) : Reported app root (.unresolved name)

omit [DecidableEq Task] in
theorem find_prereqs_failed (task : Task) (find : Task → TraceState Task → Traced Task Name (Option Status))
    (names : List Name) (listed : ∀ name ∈ names, name ∈ app.prerequisites task) (allInvoked : Bool) (s : TraceState Task)
    (error : TraceError Task Name) (failed : (findPrereqs app find task names allInvoked s).1 = .error error) :
    (∃ name ∈ app.prerequisites task, resolve app task name = none ∧ error = .unresolved name) ∨
      ∃ prereq state, Needs app task prereq ∧ (find prereq state).1 = .error error := by
  induction names generalizing allInvoked s with
  | nil => simp [findPrereqs] at failed
  | cons name rest ih =>
      have restListed : ∀ other ∈ rest, other ∈ app.prerequisites task :=
        fun other member => listed other (List.mem_cons_of_mem name member)
      cases resolved : resolve app task name with
      | none =>
          simp only [findPrereqs, resolved, Except.error.injEq] at failed
          exact .inl ⟨name, listed name List.mem_cons_self, resolved, failed.symm⟩
      | some prereq =>
          have edge : Needs app task prereq := ⟨name, listed name List.mem_cons_self, resolved⟩
          rcases found : find prereq s with ⟨inner | (none | status), after⟩
          · simp only [findPrereqs, resolved, found, Except.error.injEq] at failed
            exact .inr ⟨prereq, s, edge, by rw [found, failed]⟩
          · simp only [findPrereqs, resolved, found] at failed
            exact ih restListed allInvoked after failed
          · simp only [findPrereqs, resolved, found] at failed
            exact ih restListed false after failed

omit [DecidableEq Task] in
theorem path_reach (chain : List Task) (root task : Task) (starts : (chain ++ [task]).head? = some root)
    (path : (chain ++ [task]).IsChain (Needs app)) : Reach app root task := by
  induction chain generalizing root with
  | nil =>
      have same : task = root := by simpa using starts
      exact same ▸ .refl
  | cons upper rest ih =>
      have same : upper = root := by simpa using starts
      subst same
      rw [List.cons_append, List.isChain_cons] at path
      cases below : rest ++ [task] with
      | nil => simp at below
      | cons next tail =>
          have step : Needs app upper next := path.1 next (by simp [below])
          exact (ih next (by simp [below]) path.2).head step

omit [DecidableEq Task] in
theorem path_cycle (chain : List Task) (root name : Task) (starts : chain.head? = some root)
    (path : (chain ++ [name]).IsChain (Needs app)) (again : name ∈ chain) :
    Reach app root name ∧ Relation.TransGen (Needs app) name name := by
  obtain ⟨front, back, rfl⟩ := List.append_of_mem again
  have split : front ++ name :: back ++ [name] = (front ++ [name]) ++ (back ++ [name]) := by simp
  rw [split, List.isChain_append] at path
  have first : (front ++ [name]).head? = some root := by
    cases front <;> simpa using starts
  refine ⟨path_reach front root name first path.1, ?_⟩
  cases below : back ++ [name] with
  | nil => simp at below
  | cons next rest =>
      have step : Needs app name next := path.2.2 name (by simp) next (by simp [below])
      exact Relation.TransGen.head' step (path_reach back next name (by simp [below]) path.2.1)

-- The chain never repeats a task, so it is never longer than the task table
-- and the depth lasts.
theorem find_task_reported [Fintype Task] (depth : Nat) (root task : Task) (chain : List Task) (s : TraceState Task)
    (distinct : chain.Nodup) (starts : (chain ++ [task]).head? = some root)
    (path : (chain ++ [task]).IsChain (Needs app)) (enough : Fintype.card Task < depth + chain.length)
    (error : TraceError Task Name) (failed : (findTask app needed depth task chain s).1 = .error error) :
    Reported app root error := by
  induction depth generalizing task chain s with
  | zero =>
      have short := distinct.length_le_card
      omega
  | succ depth ih =>
      have way := find_task_way app needed depth task chain s
      generalize findTask app needed (depth + 1) task chain s = result at way failed
      cases way with
      | circular again =>
          cases failed
          have first : chain.head? = some root := by
            cases chain with
            | nil => simp at again
            | cons upper rest => simpa using starts
          exact .circular chain task first path again
      | failed inner after opened looped =>
          cases failed
          rcases find_prereqs_failed task _ (app.prerequisites task) (fun _ member => member) true _ error
              (by rw [← below, looped]) with ⟨name, listed, missing, rfl⟩ | ⟨prereq, state, edge, failed⟩
          · exact .unresolved task name (path_reach chain root task starts path) listed missing
          · apply ih prereq (chain ++ [task]) state _ _ _ _ failed
            · exact distinct.append (List.nodup_singleton task) (by simpa using opened.off)
            · cases chain <;> simpa using starts
            · rw [List.isChain_append]
              refine ⟨path, List.isChain_singleton prereq, ?_⟩
              intro last ends next begins
              simp only [List.getLast?_append, List.getLast?_singleton, Option.some_or, Option.mem_def,
                Option.some.injEq, List.head?_cons] at ends begins
              exact ends ▸ begins ▸ edge
            · simp only [List.length_append, List.length_singleton]
              omega
      | _ => cases failed

theorem find_task_error [Fintype Task] (depth : Nat) (root : Task) (s : TraceState Task)
    (enough : Fintype.card Task < depth) (error : TraceError Task Name)
    (failed : (findTask app needed depth root [] s).1 = .error error) : Faulty app root := by
  cases find_task_reported depth root root [] s List.nodup_nil rfl (List.isChain_singleton root) (by simpa using enough) error
      failed with
  | circular chain name starts path again =>
      obtain ⟨below, cycle⟩ := path_cycle chain root name starts path again
      exact ⟨name, below, .inl cycle⟩
  | unresolved task name below listed missing => exact ⟨task, below, .inr ⟨name, listed, missing⟩⟩

end Errors

section AvailableTask

variable [Fintype Task] (app : Application Task Name Scope)

theorem available_task_found (needed : Task → Bool) (root : Task) (s : TraceState Task) :
    Found app needed root s (availableTask app needed root s) := find_task_found app needed _ root [] s

theorem available_task_ok (needed : Task → Bool) (root : Task) (s : TraceState Task) (buildable : Buildable app root) :
    ∃ status, (availableTask app needed root s).1 = .ok status := by
  cases result : (availableTask app needed root s).1 with
  | ok status => exact ⟨status, rfl⟩
  | error error =>
      obtain ⟨task, below, cycle | ⟨name, listed, missing⟩⟩ :=
        find_task_error _ root s (Nat.lt_succ_self _) error result
      · exact absurd cycle (buildable.acyclic task below)
      · obtain ⟨prereq, resolved⟩ := buildable.resolves task below name listed
        simp [missing] at resolved

theorem available_task_no_error (needed : Task → Bool) (root : Task) (s after : TraceState Task) (buildable : Buildable app root)
    (error : TraceError Task Name) : availableTask app needed root s ≠ (.error error, after) := by
  obtain ⟨status, ok⟩ := available_task_ok app needed root s buildable
  intro failed
  rw [failed] at ok
  cases ok

-- A status other than nil, after a fresh @footprint, is owed to some task that
-- has been fetched and has not been started.
theorem available_task_blocked (needed : Task → Bool) (root : Task) (s : TraceState Task) (fresh : s.footprint = ∅)
    (status : Status) (found : (availableTask app needed root s).1 = .ok (some status)) :
    Blocked app (availableTask app needed root s).2 root :=
  have settled : Settled app [] root (availableTask app needed root s) :=
    find_task_settled _ root [] s (by simp [Accounted, fresh]) (some status) found
  settled.blocked status found

end AvailableTask

end Tracer

end Pwrake
