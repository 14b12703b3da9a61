import Mathlib.Data.Fintype.Prod
import Pwrake.Frontier
import Pwrake.Lib.Machine

set_option autoImplicit false

namespace Pwrake

-- A Tracer between calls of available_task that nothing interrupts: the
-- batches it returned and the tasks that workers started.
structure Tracing (Task : Type*) where
  trace : TraceState Task
  batches : List (List Task)
  executed : List Task

inductive TracingLabel (Task : Type*) where
  | call (root : Task) (needed : Task → Bool)
  | execute (task : Task)

namespace Tracing

open Tracer

variable {Task Name Scope : Type*}

def new : Tracing Task := ⟨⟨∅, ∅, ∅, []⟩, [], []⟩

def returned (s : Tracing Task) : List Task := s.batches.flatten

-- available_task renews @footprint and @fetched_tasks before the trace.
def cleared (s : TraceState Task) : TraceState Task := { s with footprint := ∅, fetchedTasks := [] }

variable [DecidableEq Task] [Fintype Task]

def step (app : Application Task Name Scope) (s : Tracing Task) : TracingLabel Task → Option (Tracing Task)
  | .call root needed =>
      match availableTask app needed root (cleared s.trace) with
      | (.ok (some _), after) => some { s with trace := after, batches := s.batches ++ [after.fetchedTasks] }
      | (.ok none, after) => some { s with trace := after }
      | (.error _, after) => some { s with trace := after }
  | .execute task =>
      if s.executed.count task < s.returned.count task then
        some { s with trace := { s.trace with invoked := insert task s.trace.invoked }, executed := s.executed ++ [task] }
      else none

inductive Effect (app : Application Task Name Scope) (s : Tracing Task) : TracingLabel Task → Tracing Task → Prop where
  | batch (root : Task) (needed : Task → Bool) (status : Status) (after : TraceState Task)
      (traced : availableTask app needed root (cleared s.trace) = (.ok (some status), after)) :
      Effect app s (.call root needed) { s with trace := after, batches := s.batches ++ [after.fetchedTasks] }
  | finished (root : Task) (needed : Task → Bool) (after : TraceState Task)
      (traced : availableTask app needed root (cleared s.trace) = (.ok none, after)) :
      Effect app s (.call root needed) { s with trace := after }
  | failed (root : Task) (needed : Task → Bool) (error : TraceError Task Name) (after : TraceState Task)
      (traced : availableTask app needed root (cleared s.trace) = (.error error, after)) :
      Effect app s (.call root needed) { s with trace := after }
  | execute (task : Task) (queued : s.executed.count task < s.returned.count task) :
      Effect app s (.execute task)
        { s with trace := { s.trace with invoked := insert task s.trace.invoked }, executed := s.executed ++ [task] }

theorem step_effect (app : Application Task Name Scope) (s next : Tracing Task) (label : TracingLabel Task)
    (taken : s.step app label = some next) : Effect app s label next := by
  cases label with
  | call root needed =>
      rcases traced : availableTask app needed root (cleared s.trace) with ⟨error | (none | status), after⟩
      · simp only [step, traced, Option.some.injEq] at taken
        exact taken ▸ .failed root needed error after traced
      · simp only [step, traced, Option.some.injEq] at taken
        exact taken ▸ .finished root needed after traced
      · simp only [step, traced, Option.some.injEq] at taken
        exact taken ▸ .batch root needed status after traced
  | execute task =>
      by_cases queued : s.executed.count task < s.returned.count task
      · simp only [step, if_pos queued, Option.some.injEq] at taken
        exact taken ▸ .execute task queued
      · simp [step, queued] at taken

-- What was returned is fetched, was returned once, and is started at most as
-- often as it was returned.
structure Booked (s : Tracing Task) : Prop where
  listed : ∀ task ∈ s.returned, task ∈ s.trace.fetched
  distinct : s.returned.Nodup
  started : ∀ task, s.executed.count task ≤ s.returned.count task
  flagged : ∀ task ∈ s.executed, task ∈ s.trace.invoked

def NothingLost (s : Tracing Task) : Prop := ∀ task ∈ s.trace.fetched, task ∈ s.returned ∨ task ∈ s.trace.invoked

section Calls

variable {app : Application Task Name Scope}

theorem call_outcome (needed : Task → Bool) (root : Task) (s after : TraceState Task)
    (result : Except (TraceError Task Name) (Option Status))
    (traced : availableTask app needed root (cleared s) = (result, after)) :
    Outcome app needed (fun other => Sees app (cleared s) root other ∧ other ∉ (cleared s).footprint) (cleared s) after
      after.fetchedTasks := by
  have found := available_task_found app needed root (cleared s)
  rw [traced] at found
  obtain ⟨added, outcome⟩ := explores_outcome (cleared s) after (fun _ permitted => permitted.2) found.explores
  have same : after.fetchedTasks = added := outcome.appended
  rw [same]
  exact outcome

-- The flags only go up, and what was returned stays fetched.
theorem booked_traced (needed : Task → Bool) (root : Task) (s : Tracing Task) (after : TraceState Task)
    (result : Except (TraceError Task Name) (Option Status))
    (traced : availableTask app needed root (cleared s.trace) = (result, after)) (booked : Booked s) :
    Booked { s with trace := after } := by
  have outcome := call_outcome needed root s.trace after result traced
  exact ⟨fun task member => (outcome.fetched task).mpr (.inl (booked.listed task member)), booked.distinct, booked.started,
    fun task member => outcome.invoked (booked.flagged task member)⟩

theorem booked_step (s next : Tracing Task) (label : TracingLabel Task) (booked : Booked s)
    (effect : Effect app s label next) : Booked next := by
  cases effect with
  | batch root needed status after traced =>
      have outcome := call_outcome needed root s.trace after _ traced
      have grown : (Tracing.mk after (s.batches ++ [after.fetchedTasks]) s.executed).returned = s.returned ++ after.fetchedTasks := by
        simp [returned]
      refine ⟨?_, ?_, ?_, fun task member => outcome.invoked (booked.flagged task member)⟩
      · intro task member
        rw [grown] at member
        rcases List.mem_append.mp member with earlier | now
        · exact (outcome.fetched task).mpr (.inl (booked.listed task earlier))
        · exact (outcome.fetched task).mpr (.inr (.inl now))
      · rw [grown]
        refine List.nodup_append.mpr ⟨booked.distinct, outcome.distinct, ?_⟩
        rintro task earlier _ now rfl
        exact (outcome.chosen task now).2.1 (booked.listed task earlier)
      · intro task
        rw [grown, List.count_append]
        exact (booked.started task).trans (Nat.le_add_right _ _)
  | finished root needed after traced => exact booked_traced needed root s after _ traced booked
  | failed root needed error after traced => exact booked_traced needed root s after _ traced booked
  | execute task queued =>
      refine ⟨booked.listed, booked.distinct, ?_, ?_⟩
      · intro other
        by_cases same : other = task
        · subst same
          simp only [List.count_append, List.count_singleton_self]
          exact queued
        · have unchanged : (s.executed ++ [task]).count other = s.executed.count other := by simp [Ne.symm same]
          exact unchanged.le.trans (booked.started other)
      · intro other member
        rcases List.mem_append.mp member with earlier | now
        · exact Finset.mem_insert_of_mem (booked.flagged other earlier)
        · rw [List.mem_singleton.mp now]
          exact Finset.mem_insert_self task _

theorem booked_run (guard : Tracing Task → TracingLabel Task → Prop) (s : Tracing Task)
    (run : Machine.Run (step app) guard new s) : Booked s :=
  Machine.run_invariant Booked new ⟨by simp [returned, new], by simp [returned, new], by simp [new], by simp [new]⟩
    (fun before after label _ booked _ taken => booked_step before after label booked (step_effect app before after label taken))
    s run

theorem lost_step (s next : Tracing Task) (label : TracingLabel Task) (kept : NothingLost s)
    (returns : ∀ root needed, label = .call root needed →
      ∃ status, (availableTask app needed root (cleared s.trace)).1 = .ok status)
    (effect : Effect app s label next) : NothingLost next := by
  cases effect with
  | batch root needed status after traced =>
      have outcome := call_outcome needed root s.trace after _ traced
      intro task member
      rcases (outcome.fetched task).mp member with before | now | ⟨invoked, -⟩
      · exact (kept task before).imp (fun earlier => by simp [returned] at earlier ⊢; exact .inl earlier)
          (fun invoked => outcome.invoked invoked)
      · exact .inl (by simp [returned, now])
      · exact .inr invoked
  | finished root needed after traced =>
      have outcome := call_outcome needed root s.trace after _ traced
      have found := available_task_found app needed root (cleared s.trace)
      rw [traced] at found
      have nothing : after.fetchedTasks = [] := found.nothing rfl
      intro task member
      rcases (outcome.fetched task).mp member with before | now | ⟨invoked, -⟩
      · exact (kept task before).imp_right fun invoked => outcome.invoked invoked
      · simp [nothing] at now
      · exact .inr invoked
  | failed root needed error after traced =>
      obtain ⟨status, fine⟩ := returns root needed rfl
      rw [traced] at fine
      cases fine
  | execute task queued =>
      intro other member
      exact (kept other member).imp_right Finset.mem_insert_of_mem

theorem nothing_lost_run (buildable : ∀ root, Buildable app root) (guard : Tracing Task → TracingLabel Task → Prop)
    (s : Tracing Task) (run : Machine.Run (step app) guard new s) : NothingLost s :=
  Machine.run_invariant NothingLost new (by simp [NothingLost, new])
    (fun before after label _ kept _ taken => lost_step before after label kept
      (fun root needed _ => available_task_ok app needed root _ (buildable root)) (step_effect app before after label taken))
    s run

end Calls

-- Neither already_invoked nor returned by an earlier call.
def Untouched (s : Tracing Task) (task : Task) : Prop := task ∉ s.trace.invoked ∧ task ∉ s.returned

def Visible (app : Application Task Name Scope) (s : Tracing Task) (root task : Task) : Prop :=
  Relation.ReflTransGen (fun upper lower => Untouched s upper ∧ Needs app upper lower) root task ∧ Untouched s task

omit [Fintype Task] in
theorem visible_iff (app : Application Task Name Scope) (s : Tracing Task) (booked : Booked s) (kept : NothingLost s)
    (root task : Task) :
    Visible app s root task ↔
      Sees app (cleared s.trace) root task ∧ task ∉ s.trace.invoked ∧ task ∉ s.trace.fetched := by
  have marks : ∀ other, Untouched s other ↔ other ∉ s.trace.invoked ∧ other ∉ s.trace.fetched := by
    intro other
    constructor
    · rintro ⟨uninvoked, unreturned⟩
      exact ⟨uninvoked, fun member => (kept other member).elim unreturned uninvoked⟩
    · rintro ⟨uninvoked, unfetched⟩
      exact ⟨uninvoked, fun member => unfetched (booked.listed other member)⟩
  have edges : (fun upper lower => Untouched s upper ∧ Needs app upper lower) = Opens app (cleared s.trace) := by
    funext upper lower
    simp [Opens, cleared, marks, and_assoc]
  rw [Visible, edges, marks]
  rfl

theorem available_task_frontier (app : Application Task Name Scope) (buildable : ∀ root, Buildable app root)
    (s : Tracing Task) (run : Machine.Run (step app) (fun _ _ => True) new s) (root : Task) (needed : Task → Bool) :
    s.returned.Nodup ∧
    ∃ status after, availableTask app needed root (cleared s.trace) = (.ok status, after) ∧
      (∀ task, task ∈ after.invoked ↔ task ∈ s.trace.invoked ∨
        Visible app s root task ∧ needed task = false ∧ ∀ prereq, Needs app task prereq → prereq ∈ after.invoked) ∧
      (∀ task, task ∈ after.fetchedTasks ↔
        Visible app s root task ∧ needed task = true ∧ ∀ prereq, Needs app task prereq → prereq ∈ after.invoked) ∧
      after.fetchedTasks.Nodup ∧ (status = none ↔ root ∈ after.invoked) := by
  have booked := booked_run _ s run
  have kept := nothing_lost_run buildable _ s run
  refine ⟨booked.distinct, ?_⟩
  obtain ⟨status, fine⟩ := available_task_ok app needed root (cleared s.trace) (buildable root)
  rcases traced : availableTask app needed root (cleared s.trace) with ⟨result, after⟩
  rw [traced] at fine
  subst fine
  obtain ⟨verdicts, finished⟩ := available_task_verdicts app needed root (cleared s.trace) after rfl rfl status traced
  have visible := visible_iff app s booked kept root
  refine ⟨status, after, rfl, ?_, ?_, verdicts.distinct, finished⟩
  · intro task
    constructor
    · intro member
      by_cases before : task ∈ s.trace.invoked
      · exact .inl before
      · obtain ⟨seen, uninvoked, unfetched, unwanted, ready⟩ := (verdicts.dropped task).mp ⟨member, before⟩
        exact .inr ⟨(visible task).mpr ⟨seen, uninvoked, unfetched⟩, unwanted, ready⟩
    · rintro (before | ⟨seen, unwanted, ready⟩)
      · exact verdicts.kept before
      · obtain ⟨path, uninvoked, unfetched⟩ := (visible task).mp seen
        exact ((verdicts.dropped task).mpr ⟨path, uninvoked, unfetched, unwanted, ready⟩).1
  · intro task
    rw [verdicts.batch task, visible task]
    simp only [cleared, and_assoc]

-- The top needs two tasks that both need the bottom.
def diamond : Bool × Bool → List (Bool × Bool)
  | (true, true) => [(true, false), (false, true)]
  | (true, false) => [(false, false)]
  | (false, true) => [(false, false)]
  | (false, false) => []

theorem diamond_buildable (root : Bool × Bool) : Buildable (graph diamond) root :=
  graph_buildable diamond (fun task => task.1.toNat + task.2.toNat) (by decide) root

-- With the bottom done and one of the two up to date, the second call finds the
-- other alone.
theorem available_task_frontier_diamond :
    ∃ s : Tracing (Bool × Bool), s.executed = [(false, false)] ∧
      ∃ status after, availableTask (graph diamond) (fun task => task ≠ (true, false)) (true, true) (cleared s.trace) =
          (.ok status, after) ∧
        ∀ task, task ∈ after.fetchedTasks ↔
          Visible (graph diamond) s (true, true) task ∧ decide (task ≠ (true, false)) = true ∧
            ∀ prereq, Needs (graph diamond) task prereq → prereq ∈ after.invoked := by
  obtain ⟨s, run, ran⟩ := Machine.run_of_exec (step (graph diamond)) (fun _ _ => True)
    (fun s : Tracing (Bool × Bool) => s.executed = [(false, false)])
    [.call (true, true) fun _ => true, .execute (false, false)] new (by decide)
  obtain ⟨-, status, after, traced, -, batch, -⟩ :=
    available_task_frontier (graph diamond) diamond_buildable s run (true, true) fun task => task ≠ (true, false)
  exact ⟨s, ran, status, after, traced, batch⟩

end Tracing

end Pwrake
