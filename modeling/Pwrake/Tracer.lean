import Pwrake.Lib.Dag

set_option autoImplicit false

namespace Pwrake

-- Rake keeps its tasks in a Hash from full name to task, so a task stands for
-- its name here. lookup is application[name, scope]; none is the error Rake
-- raises for a name it cannot build.
structure Application (Task Name Scope : Type*) where
  prerequisites : Task → List Name
  scope : Task → Scope
  lookup : Name → Option Scope → Option Task

-- What find_task reads and writes: the already_invoked flags of the tasks and
-- the three instance variables of the Tracer.
structure TraceState (Task : Type*) where
  invoked : Finset Task
  footprint : Finset Task
  fetched : Finset Task
  fetchedTasks : List Task

inductive Status where
  | traced
  | fetched
deriving DecidableEq, Repr

inductive TraceError (Task Name : Type*) where
  | circular (chain : List Task) (name : Task)
  | unresolved (name : Name)
  | tooDeep

def TraceError.message {Task Name : Type*} (display : Task → String) : TraceError Task Name → Option String
  | .circular chain name =>
      some ("Circular dependency detected: " ++ " => ".intercalate (chain.map display) ++ " => " ++ display name)
  | .unresolved _ => none
  | .tooDeep => none

namespace Tracer

variable {Task Name Scope : Type*}

def resolve (app : Application Task Name Scope) (task : Task) (name : Name) : Option Task :=
  app.lookup name (some (app.scope task))

def Needs (app : Application Task Name Scope) (task prereq : Task) : Prop :=
  ∃ name ∈ app.prerequisites task, resolve app task name = some prereq

def Reach (app : Application Task Name Scope) (root task : Task) : Prop := Relation.ReflTransGen (Needs app) root task

-- What Rake promises of a root it can build: no cycle below it and no
-- prerequisite without a task.
structure Buildable (app : Application Task Name Scope) (root : Task) : Prop where
  acyclic : Dag.AcyclicFrom (Needs app) root
  resolves : ∀ task, Reach app root task → ∀ name ∈ app.prerequisites task, ∃ prereq, resolve app task name = some prereq

-- A graph given by its edges, where every task is found under its own name.
def graph (edges : Task → List Task) : Application Task Task Unit := ⟨edges, fun _ => (), fun name _ => some name⟩

theorem graph_needs (edges : Task → List Task) (task prereq : Task) :
    Needs (graph edges) task prereq ↔ prereq ∈ edges task := by
  simp [Needs, resolve, graph]

theorem graph_buildable (edges : Task → List Task) (rank : Task → Nat)
    (descends : ∀ task, ∀ prereq ∈ edges task, rank prereq < rank task) (root : Task) :
    Buildable (graph edges) root := by
  refine ⟨fun task _ => Dag.ranked_acyclic rank (fun upper lower needs => ?_) task, fun task _ name _ => ⟨name, rfl⟩⟩
  exact descends upper lower ((graph_needs edges upper lower).mp needs)

abbrev Traced (Task Name Result : Type*) := Except (TraceError Task Name) Result × TraceState Task

-- The while loop of find_task over the prerequisites' names. An error leaves
-- the Tracer as it was when it was raised.
def findPrereqs (app : Application Task Name Scope) (find : Task → TraceState Task → Traced Task Name (Option Status))
    (task : Task) : List Name → Bool → TraceState Task → Traced Task Name Bool
  | [], allInvoked, s => (.ok allInvoked, s)
  | name :: rest, allInvoked, s =>
      match resolve app task name with
      | none => (.error (.unresolved name), s)
      | some prereq =>
          match find prereq s with
          | (.error error, s) => (.error error, s)
          | (.ok (some _), s) => findPrereqs app find task rest false s
          | (.ok none, s) => findPrereqs app find task rest allInvoked s

variable [DecidableEq Task]

-- needed holds the answers of task.needed? in this trace. depth bounds the
-- recursion; find_task_reported shows that card + 1 is never used up.
def findTask (app : Application Task Name Scope) (needed : Task → Bool) :
    Nat → Task → List Task → TraceState Task → Traced Task Name (Option Status)
  | 0, _, _, s => (.error .tooDeep, s)
  | depth + 1, task, chain, s =>
      if task ∈ s.invoked then (.ok none, s)
      else if task ∈ chain then (.error (.circular chain task), s)
      else if task ∈ s.footprint ∨ task ∈ s.fetched then (.ok (some .traced), s)
      else
        match findPrereqs app (fun prereq => findTask app needed depth prereq (chain ++ [task])) task
            (app.prerequisites task) true { s with footprint := insert task s.footprint } with
        | (.error error, s) => (.error error, s)
        | (.ok false, s) => (.ok (some .fetched), s)
        | (.ok true, s) =>
            if needed task then
              (.ok (some .fetched),
                { s with fetched := insert task s.fetched, fetchedTasks := s.fetchedTasks ++ [task] })
            else (.ok none, { s with fetched := insert task s.fetched, invoked := insert task s.invoked })

-- available_task under the mutex: nil exactly when the status is nil, and the
-- array it returns otherwise is the one @fetched_tasks names.
def availableTask [Fintype Task] (app : Application Task Name Scope) (needed : Task → Bool) (root : Task)
    (s : TraceState Task) : Traced Task Name (Option Status) :=
  findTask app needed (Fintype.card Task + 1) root [] s

-- All that find_task does to the state, one write at a time.
inductive Move (app : Application Task Name Scope) (needed : Task → Bool) (allowed : Task → Prop)
    (s : TraceState Task) : TraceState Task → Prop where
  | mark (task : Task) (permitted : allowed task) :
      Move app needed allowed s { s with footprint := insert task s.footprint }
  | fetch (task : Task) (permitted : allowed task) (unfetched : task ∉ s.fetched) (uninvoked : task ∉ s.invoked)
      (ready : ∀ prereq, Needs app task prereq → prereq ∈ s.invoked) (wanted : needed task = true) :
      Move app needed allowed s
        { s with fetched := insert task s.fetched, fetchedTasks := s.fetchedTasks ++ [task] }
  | drop (task : Task) (permitted : allowed task) (unfetched : task ∉ s.fetched) (uninvoked : task ∉ s.invoked)
      (ready : ∀ prereq, Needs app task prereq → prereq ∈ s.invoked) (unwanted : needed task = false) :
      Move app needed allowed s { s with fetched := insert task s.fetched, invoked := insert task s.invoked }

def Explores (app : Application Task Name Scope) (needed : Task → Bool) (allowed : Task → Prop) :
    TraceState Task → TraceState Task → Prop :=
  Relation.ReflTransGen (Move app needed allowed)

-- find_task goes on to the prerequisites of a task only where none of the
-- three marks stops it.
def Opens (app : Application Task Name Scope) (s : TraceState Task) (task prereq : Task) : Prop :=
  task ∉ s.invoked ∧ task ∉ s.footprint ∧ task ∉ s.fetched ∧ Needs app task prereq

def Sees (app : Application Task Name Scope) (s : TraceState Task) (root task : Task) : Prop :=
  Relation.ReflTransGen (Opens app s) root task

omit [DecidableEq Task] in
theorem sees_reach (app : Application Task Name Scope) (s : TraceState Task) (root task : Task)
    (seen : Sees app s root task) : Reach app root task :=
  Relation.ReflTransGen.mono (fun _ _ opens => opens.2.2.2) root task seen

omit [DecidableEq Task] in
theorem sees_earlier (app : Application Task Name Scope) (s after : TraceState Task) (root task : Task)
    (grows : s.invoked ⊆ after.invoked ∧ s.footprint ⊆ after.footprint ∧ s.fetched ⊆ after.fetched)
    (seen : Sees app after root task) : Sees app s root task :=
  Relation.ReflTransGen.mono (fun _ _ ⟨uninvoked, unmarked, unfetched, edge⟩ =>
    ⟨fun member => uninvoked (grows.1 member), fun member => unmarked (grows.2.1 member),
      fun member => unfetched (grows.2.2 member), edge⟩) root task seen

section Moves

variable {app : Application Task Name Scope} {needed : Task → Bool} {allowed : Task → Prop}

theorem explores_mono (wider : Task → Prop) (s after : TraceState Task)
    (implies : ∀ task, allowed task → wider task) (explored : Explores app needed allowed s after) :
    Explores app needed wider s after := by
  refine Relation.ReflTransGen.mono (fun before next moved => ?_) s after explored
  cases moved with
  | mark task permitted => exact .mark task (implies task permitted)
  | fetch task permitted unfetched uninvoked ready wanted =>
      exact .fetch task (implies task permitted) unfetched uninvoked ready wanted
  | drop task permitted unfetched uninvoked ready unwanted =>
      exact .drop task (implies task permitted) unfetched uninvoked ready unwanted

-- Every invariant of a trace is shown one write at a time.
theorem explores_induction (property : TraceState Task → Prop) (s after : TraceState Task)
    (explored : Explores app needed allowed s after) (initially : property s)
    (preserved : ∀ before next, Move app needed allowed before next → property before → property next) :
    property after := by
  induction explored with
  | refl => exact initially
  | tail _ moved ih => exact preserved _ _ moved ih

theorem explores_grows (s after : TraceState Task) (explored : Explores app needed allowed s after) :
    s.invoked ⊆ after.invoked ∧ s.footprint ⊆ after.footprint ∧ s.fetched ⊆ after.fetched := by
  refine explores_induction
    (fun state => s.invoked ⊆ state.invoked ∧ s.footprint ⊆ state.footprint ∧ s.fetched ⊆ state.fetched) s after
    explored ⟨subset_rfl, subset_rfl, subset_rfl⟩ ?_
  rintro before next moved ⟨invoked, footprint, fetched⟩
  cases moved with
  | mark task => exact ⟨invoked, footprint.trans (Finset.subset_insert task _), fetched⟩
  | fetch task => exact ⟨invoked, footprint, fetched.trans (Finset.subset_insert task _)⟩
  | drop task => exact ⟨invoked.trans (Finset.subset_insert task _), footprint, fetched.trans (Finset.subset_insert task _)⟩

theorem explores_elsewhere (task : Task) (forbidden : ¬ allowed task) (s after : TraceState Task)
    (explored : Explores app needed allowed s after) :
    (task ∈ after.invoked ↔ task ∈ s.invoked) ∧ (task ∈ after.fetched ↔ task ∈ s.fetched) := by
  refine explores_induction
    (fun state => (task ∈ state.invoked ↔ task ∈ s.invoked) ∧ (task ∈ state.fetched ↔ task ∈ s.fetched)) s after
    explored ⟨Iff.rfl, Iff.rfl⟩ ?_
  rintro before next moved ⟨invoked, fetched⟩
  cases moved with
  | mark other => exact ⟨invoked, fetched⟩
  | fetch other permitted =>
      have different : task ≠ other := fun same => forbidden (same ▸ permitted)
      exact ⟨invoked, by simpa [different] using fetched⟩
  | drop other permitted =>
      have different : task ≠ other := fun same => forbidden (same ▸ permitted)
      exact ⟨by simpa [different] using invoked, by simpa [different] using fetched⟩

-- A task whose flag a trace can find or put up without running anything.
inductive Resolved (app : Application Task Name Scope) (needed : Task → Bool) (s : TraceState Task) : Task → Prop where
  | invoked (task : Task) (member : task ∈ s.invoked) : Resolved app needed s task
  | unneeded (task : Task) (unwanted : needed task = false) (unmarked : task ∉ s.footprint) (unfetched : task ∉ s.fetched)
      (below : ∀ prereq, Needs app task prereq → Resolved app needed s prereq) : Resolved app needed s task

-- A whole trace, with what it appended to @fetched_tasks kept apart from the
-- tasks it found not needed.
structure Outcome (app : Application Task Name Scope) (needed : Task → Bool) (allowed : Task → Prop)
    (s after : TraceState Task) (added : List Task) : Prop where
  appended : after.fetchedTasks = s.fetchedTasks ++ added
  distinct : added.Nodup
  invoked : s.invoked ⊆ after.invoked
  fetched : ∀ task, task ∈ after.fetched ↔ task ∈ s.fetched ∨ task ∈ added ∨ (task ∈ after.invoked ∧ task ∉ s.invoked)
  chosen : ∀ task ∈ added, allowed task ∧ task ∉ s.fetched ∧ task ∉ after.invoked ∧ needed task = true ∧
    ∀ prereq, Needs app task prereq → prereq ∈ after.invoked
  dropped : ∀ task ∈ after.invoked, task ∉ s.invoked → allowed task ∧ task ∉ s.fetched ∧ needed task = false ∧
    ∀ prereq, Needs app task prereq → prereq ∈ after.invoked
  resolved : ∀ task ∈ after.invoked, Resolved app needed s task

theorem explores_outcome (s after : TraceState Task) (unmarked : ∀ task, allowed task → task ∉ s.footprint)
    (explored : Explores app needed allowed s after) :
    ∃ added, Outcome app needed allowed s after added := by
  refine explores_induction (fun state => ∃ added, Outcome app needed allowed s state added) s after explored
    ⟨[], by simp, List.nodup_nil, subset_rfl, by simp, by simp, fun _ member absent => absurd member absent,
      fun task member => .invoked task member⟩ ?_
  rintro before next moved ⟨added, outcome⟩
  cases moved with
  | mark task => exact ⟨added, { outcome with }⟩
  | fetch task permitted unfetched uninvoked ready wanted =>
      have fresh : task ∉ added := fun member => unfetched ((outcome.fetched task).mpr (.inr (.inl member)))
      refine ⟨added ++ [task], ?_, ?_, outcome.invoked, ?_, ?_, outcome.dropped, outcome.resolved⟩
      · simp [outcome.appended]
      · exact outcome.distinct.append (List.nodup_singleton task) (by simpa using fresh)
      · intro other
        simp only [Finset.mem_insert, outcome.fetched other, List.mem_append, List.mem_singleton]
        rw [or_left_comm, or_assoc]
        exact or_congr_right or_left_comm
      · intro other member
        rcases List.mem_append.mp member with earlier | itself
        · exact outcome.chosen other earlier
        · rw [List.mem_singleton.mp itself]
          exact ⟨permitted, fun member => unfetched ((outcome.fetched task).mpr (.inl member)), uninvoked, wanted, ready⟩
  | drop task permitted unfetched uninvoked ready unwanted =>
      have fresh : task ∉ added := fun member => unfetched ((outcome.fetched task).mpr (.inr (.inl member)))
      have before : task ∉ s.invoked := fun member => uninvoked (outcome.invoked member)
      have never : task ∉ s.fetched := fun member => unfetched ((outcome.fetched task).mpr (.inl member))
      refine ⟨added, outcome.appended, outcome.distinct, outcome.invoked.trans (Finset.subset_insert task _), ?_, ?_, ?_, ?_⟩
      · intro other
        simp only [Finset.mem_insert, outcome.fetched other]
        constructor
        · rintro (rfl | earlier | appended | ⟨invoked, absent⟩)
          · exact .inr (.inr ⟨.inl rfl, before⟩)
          · exact .inl earlier
          · exact .inr (.inl appended)
          · exact .inr (.inr ⟨.inr invoked, absent⟩)
        · rintro (earlier | appended | ⟨rfl | invoked, absent⟩)
          · exact .inr (.inl earlier)
          · exact .inr (.inr (.inl appended))
          · exact .inl rfl
          · exact .inr (.inr (.inr ⟨invoked, absent⟩))
      · intro other member
        obtain ⟨permitted, unfetched, uninvoked, wanted, ready⟩ := outcome.chosen other member
        have different : other ≠ task := fun same => fresh (same ▸ member)
        exact ⟨permitted, unfetched, by simp [different, uninvoked], wanted,
          fun prereq edge => Finset.mem_insert_of_mem (ready prereq edge)⟩
      · intro other member absent
        rcases Finset.mem_insert.mp member with rfl | earlier
        · exact ⟨permitted, never, unwanted, fun prereq edge => Finset.mem_insert_of_mem (ready prereq edge)⟩
        · obtain ⟨permitted, unfetched, unwanted, ready⟩ := outcome.dropped other earlier absent
          exact ⟨permitted, unfetched, unwanted, fun prereq edge => Finset.mem_insert_of_mem (ready prereq edge)⟩
      · intro other member
        rcases Finset.mem_insert.mp member with rfl | earlier
        · exact .unneeded other unwanted (unmarked other permitted) never fun prereq edge => outcome.resolved prereq (ready prereq edge)
        · exact outcome.resolved other earlier

end Moves

-- The loop of find_task on a task that none of its tests stopped.
def below (app : Application Task Name Scope) (needed : Task → Bool) (depth : Nat) (task : Task) (chain : List Task)
    (s : TraceState Task) : Traced Task Name Bool :=
  findPrereqs app (fun prereq => findTask app needed depth prereq (chain ++ [task])) task (app.prerequisites task) true
    { s with footprint := insert task s.footprint }

structure Opened (task : Task) (chain : List Task) (s : TraceState Task) : Prop where
  uninvoked : task ∉ s.invoked
  off : task ∉ chain
  unmarked : task ∉ s.footprint
  unfetched : task ∉ s.fetched

-- The ways through find_task. Proofs about it go through this relation.
inductive Way (app : Application Task Name Scope) (needed : Task → Bool) (depth : Nat) (task : Task) (chain : List Task)
    (s : TraceState Task) : Traced Task Name (Option Status) → Prop where
  | invoked (member : task ∈ s.invoked) : Way app needed depth task chain s (.ok none, s)
  | circular (again : task ∈ chain) : Way app needed depth task chain s (.error (.circular chain task), s)
  | traced (uninvoked : task ∉ s.invoked) (off : task ∉ chain) (known : task ∈ s.footprint ∨ task ∈ s.fetched) :
      Way app needed depth task chain s (.ok (some .traced), s)
  | failed (error : TraceError Task Name) (after : TraceState Task) (opened : Opened task chain s)
      (looped : below app needed depth task chain s = (.error error, after)) :
      Way app needed depth task chain s (.error error, after)
  | pending (after : TraceState Task) (opened : Opened task chain s)
      (looped : below app needed depth task chain s = (.ok false, after)) :
      Way app needed depth task chain s (.ok (some .fetched), after)
  | fetched (after : TraceState Task) (opened : Opened task chain s)
      (looped : below app needed depth task chain s = (.ok true, after)) (wanted : needed task = true) :
      Way app needed depth task chain s
        (.ok (some .fetched), { after with fetched := insert task after.fetched, fetchedTasks := after.fetchedTasks ++ [task] })
  | dropped (after : TraceState Task) (opened : Opened task chain s)
      (looped : below app needed depth task chain s = (.ok true, after)) (unwanted : needed task = false) :
      Way app needed depth task chain s
        (.ok none, { after with fetched := insert task after.fetched, invoked := insert task after.invoked })

theorem find_task_way (app : Application Task Name Scope) (needed : Task → Bool) (depth : Nat) (task : Task)
    (chain : List Task) (s : TraceState Task) :
    Way app needed depth task chain s (findTask app needed (depth + 1) task chain s) := by
  rw [findTask]
  by_cases invoked : task ∈ s.invoked
  · rw [if_pos invoked]
    exact .invoked invoked
  · rw [if_neg invoked]
    by_cases circular : task ∈ chain
    · rw [if_pos circular]
      exact .circular circular
    · rw [if_neg circular]
      by_cases known : task ∈ s.footprint ∨ task ∈ s.fetched
      · rw [if_pos known]
        exact .traced invoked circular known
      · rw [if_neg known]
        obtain ⟨unmarked, unfetched⟩ := not_or.mp known
        have opened : Opened task chain s := ⟨invoked, circular, unmarked, unfetched⟩
        rcases looped : below app needed depth task chain s with ⟨error | (_ | _), after⟩
        · rw [← below, looped]
          exact .failed error after opened looped
        · rw [← below, looped]
          exact .pending after opened looped
        · rw [← below, looped]
          cases wanted : needed task with
          | true => exact .fetched after opened looped wanted
          | false => exact .dropped after opened looped wanted

-- find_task touches only what it sees and has not marked yet; nil means that
-- the task is invoked and that nothing was fetched on the way.
structure Found (app : Application Task Name Scope) (needed : Task → Bool) (task : Task) (s : TraceState Task)
    (result : Traced Task Name (Option Status)) : Prop where
  explores : Explores app needed (fun other => Sees app s task other ∧ other ∉ s.footprint) s result.2
  invoked : result.1 = .ok none → task ∈ result.2.invoked
  nothing : result.1 = .ok none → result.2.fetchedTasks = s.fetchedTasks

theorem find_prereqs_found (app : Application Task Name Scope) (needed : Task → Bool) (task : Task)
    (find : Task → TraceState Task → Traced Task Name (Option Status))
    (finds : ∀ prereq s, Needs app task prereq → Found app needed prereq s (find prereq s))
    (names : List Name) (listed : ∀ name ∈ names, name ∈ app.prerequisites task) (allInvoked : Bool)
    (s : TraceState Task) :
    Explores app needed
        (fun other => (∃ prereq, Needs app task prereq ∧ Sees app s prereq other) ∧ other ∉ s.footprint) s
        (findPrereqs app find task names allInvoked s).2 ∧
      ((findPrereqs app find task names allInvoked s).1 = .ok true → allInvoked = true ∧
        (∀ name ∈ names, ∀ prereq, resolve app task name = some prereq →
          prereq ∈ (findPrereqs app find task names allInvoked s).2.invoked) ∧
        (findPrereqs app find task names allInvoked s).2.fetchedTasks = s.fetchedTasks) := by
  induction names generalizing allInvoked s with
  | nil => exact ⟨.refl, by simp [findPrereqs]⟩
  | cons name rest ih =>
      have restListed : ∀ other ∈ rest, other ∈ app.prerequisites task :=
        fun other member => listed other (List.mem_cons_of_mem name member)
      cases resolved : resolve app task name with
      | none => exact ⟨by simpa only [findPrereqs, resolved] using .refl, by simp [findPrereqs, resolved]⟩
      | some prereq =>
          have edge : Needs app task prereq := ⟨name, listed name List.mem_cons_self, resolved⟩
          obtain ⟨explored, invoked, nothing⟩ := finds prereq s edge
          have head := explores_mono
            (fun other => (∃ prereq, Needs app task prereq ∧ Sees app s prereq other) ∧ other ∉ s.footprint) s _
            (fun other permitted => ⟨⟨prereq, edge, permitted.1⟩, permitted.2⟩) explored
          have grows := explores_grows _ _ head
          have later : ∀ known, Explores app needed
              (fun other => (∃ prereq, Needs app task prereq ∧ Sees app s prereq other) ∧ other ∉ s.footprint) s
              (findPrereqs app find task rest known (find prereq s).2).2 := by
            intro known
            refine head.trans (explores_mono _ _ _ ?_ (ih restListed known (find prereq s).2).1)
            rintro other ⟨⟨target, edge, seen⟩, unmarked⟩
            exact ⟨⟨target, edge, sees_earlier app s _ target other grows seen⟩, fun marked => unmarked (grows.2.1 marked)⟩
          match found : find prereq s with
          | (.error error, after) =>
              rw [found] at head
              exact ⟨by simpa only [findPrereqs, resolved, found] using head, by simp [findPrereqs, resolved, found]⟩
          | (.ok (some status), after) =>
              rw [found] at later
              simp only [findPrereqs, resolved, found]
              exact ⟨later false, fun known => by simpa using ((ih restListed false after).2 known).1⟩
          | (.ok none, after) =>
              rw [found] at later invoked nothing
              simp only [findPrereqs, resolved, found]
              refine ⟨later allInvoked, fun known => ?_⟩
              obtain ⟨all, others, same⟩ := (ih restListed allInvoked after).2 known
              refine ⟨all, fun other member target resolvedOther => ?_, same.trans (nothing rfl)⟩
              rcases List.mem_cons.mp member with rfl | member
              · cases resolved.symm.trans resolvedOther
                exact (explores_grows _ _ (ih restListed allInvoked after).1).1 (invoked rfl)
              · exact others other member target resolvedOther

-- What the loop leaves. The mark keeps every call below away from the task
-- itself, and a loop that finds every prerequisite invoked fetches nothing.
structure Looped (app : Application Task Name Scope) (needed : Task → Bool) (task : Task) (s : TraceState Task)
    (result : Traced Task Name Bool) : Prop where
  explores : Explores app needed (fun other => Sees app s task other ∧ other ∉ s.footprint) s result.2
  uninvoked : task ∉ result.2.invoked
  unfetched : task ∉ result.2.fetched
  ready : result.1 = .ok true → ∀ prereq, Needs app task prereq → prereq ∈ result.2.invoked
  nothing : result.1 = .ok true → result.2.fetchedTasks = s.fetchedTasks

theorem below_looped (app : Application Task Name Scope) (needed : Task → Bool) (depth : Nat) (task : Task)
    (chain : List Task) (s : TraceState Task)
    (finds : ∀ prereq s, Found app needed prereq s (findTask app needed depth prereq (chain ++ [task]) s))
    (opened : Opened task chain s) : Looped app needed task s (below app needed depth task chain s) := by
  obtain ⟨explored, settled⟩ := find_prereqs_found app needed task _ (fun prereq s _ => finds prereq s)
    (app.prerequisites task) (fun _ member => member) true { s with footprint := insert task s.footprint }
  have untouched := explores_elsewhere task (fun permitted => permitted.2 (Finset.mem_insert_self task _)) _ _ explored
  have marked : Move app needed (fun other => Sees app s task other ∧ other ∉ s.footprint) s
      { s with footprint := insert task s.footprint } := .mark task ⟨.refl, opened.unmarked⟩
  refine ⟨(Relation.ReflTransGen.single marked).trans (explores_mono _ _ _ ?_ explored),
    fun member => opened.uninvoked (untouched.1.mp member), fun member => opened.unfetched (untouched.2.mp member), ?_, ?_⟩
  · rintro other ⟨⟨prereq, edge, seen⟩, fresh⟩
    have earlier := sees_earlier app s { s with footprint := insert task s.footprint } prereq other
      ⟨subset_rfl, Finset.subset_insert task _, subset_rfl⟩ seen
    exact ⟨earlier.head ⟨opened.uninvoked, opened.unmarked, opened.unfetched, edge⟩,
      fun member => fresh (Finset.mem_insert_of_mem member)⟩
  · rintro all prereq ⟨name, listed, resolved⟩
    exact (settled all).2.1 name listed prereq resolved
  · exact fun all => (settled all).2.2

theorem find_task_found (app : Application Task Name Scope) (needed : Task → Bool) (depth : Nat) (task : Task)
    (chain : List Task) (s : TraceState Task) : Found app needed task s (findTask app needed depth task chain s) := by
  induction depth generalizing task chain s with
  | zero => exact ⟨.refl, by simp [findTask], by simp [findTask]⟩
  | succ depth ih =>
      have loop := below_looped app needed depth task chain s fun prereq s => ih prereq (chain ++ [task]) s
      have way := find_task_way app needed depth task chain s
      generalize findTask app needed (depth + 1) task chain s = result at way ⊢
      cases way with
      | invoked member => exact ⟨.refl, fun _ => member, fun _ => rfl⟩
      | circular => exact ⟨.refl, by simp, by simp⟩
      | traced => exact ⟨.refl, by simp, by simp⟩
      | failed error after opened looped => exact ⟨(looped ▸ loop opened).explores, by simp, by simp⟩
      | pending after opened looped => exact ⟨(looped ▸ loop opened).explores, by simp, by simp⟩
      | fetched after opened looped wanted =>
          obtain ⟨explored, uninvoked, unfetched, ready, -⟩ := looped ▸ loop opened
          exact ⟨explored.tail (.fetch task ⟨.refl, opened.unmarked⟩ unfetched uninvoked (ready rfl) wanted), by simp, by simp⟩
      | dropped after opened looped unwanted =>
          obtain ⟨explored, uninvoked, unfetched, ready, nothing⟩ := looped ▸ loop opened
          exact ⟨explored.tail (.drop task ⟨.refl, opened.unmarked⟩ unfetched uninvoked (ready rfl) unwanted),
            fun _ => Finset.mem_insert_self task _, fun _ => nothing rfl⟩

end Tracer

end Pwrake
