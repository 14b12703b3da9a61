import Mathlib.Data.Fintype.Option
import Pwrake.Tracing

set_option autoImplicit false

namespace Pwrake

namespace Tracing

open Tracer

variable {Task Name Scope : Type*} [DecidableEq Task] [Fintype Task] {app : Application Task Name Scope}

-- Below what a call sees, the flags it can put up without running anything are
-- exactly the ones that are up when it returns.
omit [Fintype Task] in
theorem resolved_after (needed : Task → Bool) (root : Task) (start after : TraceState Task)
    (verdicts : Verdicts app needed start root after) (task : Task) (seen : Sees app start root task)
    (resolved : Resolved app needed start task) : task ∈ after.invoked := by
  induction resolved with
  | invoked task member => exact verdicts.kept member
  | unneeded task unwanted unmarked unfetched below ih =>
      by_cases before : task ∈ start.invoked
      · exact verdicts.kept before
      · apply ((verdicts.dropped task).mpr ⟨seen, before, unfetched, unwanted, ?_⟩).1
        intro prereq edge
        exact ih prereq edge (seen.tail ⟨before, unmarked, unfetched, edge⟩)

-- A call that is not told nil gets an empty array exactly when it can come to
-- no needed task whose prerequisites are settled.
theorem batch_nonempty_iff (app : Application Task Name Scope) (buildable : ∀ root, Buildable app root) (s : Tracing Task)
    (run : Machine.Run (step app) (fun _ _ => True) new s) (root : Task) (needed : Task → Bool) (status : Status)
    (after : TraceState Task)
    (traced : availableTask app needed root (cleared s.trace) = (.ok (some status), after)) :
    after.fetchedTasks ≠ [] ↔
      ∃ task, Visible app s root task ∧ needed task = true ∧
        ∀ prereq, Needs app task prereq → Resolved app needed (cleared s.trace) prereq := by
  have booked := booked_run _ s run
  have kept := nothing_lost_run buildable _ s run
  have visible := visible_iff app s booked kept root
  obtain ⟨verdicts, -⟩ := available_task_verdicts app needed root (cleared s.trace) after rfl rfl _ traced
  have outcome := call_outcome needed root s.trace after _ traced
  constructor
  · intro nonempty
    obtain ⟨task, member⟩ := List.exists_mem_of_ne_nil _ nonempty
    obtain ⟨seen, uninvoked, unfetched, wanted, ready⟩ := (verdicts.batch task).mp member
    exact ⟨task, (visible task).mpr ⟨seen, uninvoked, unfetched⟩, wanted, fun prereq edge =>
      outcome.resolved prereq (ready prereq edge)⟩
  · rintro ⟨task, found, wanted, settled⟩
    obtain ⟨seen, uninvoked, unfetched⟩ := (visible task).mp found
    apply List.ne_nil_of_mem (a := task)
    refine (verdicts.batch task).mpr ⟨seen, uninvoked, unfetched, wanted, fun prereq edge => ?_⟩
    have opens : Opens app (cleared s.trace) task prereq := ⟨uninvoked, Finset.notMem_empty task, unfetched, edge⟩
    exact resolved_after needed root (cleared s.trace) after verdicts prereq (seen.tail opens) (settled prereq edge)

def fork : Option Bool → List (Option Bool)
  | none => [some false, some true]
  | some _ => []

theorem fork_buildable (root : Option Bool) : Buildable (graph fork) root :=
  graph_buildable fork (fun task => if task = none then 1 else 0) (by decide) root

def emptyAnswer : Traced (Option Bool) (Option Bool) (Option Status) → Bool
  | (.ok (some _), after) => after.fetchedTasks.isEmpty
  | _ => false

-- Both leaves are handed out. The action of the first invokes the second while
-- it is queued.
theorem empty_batch_returned :
    ¬ ∀ (app : Application (Option Bool) (Option Bool) Unit), (∀ root, Buildable app root) → ∀ s : Tracing (Option Bool),
      Machine.Run (step app) (fun _ _ => True) new s → ∀ root needed status after,
        availableTask app needed root (cleared s.trace) = (.ok (some status), after) → after.fetchedTasks ≠ [] := by
  intro claimed
  obtain ⟨s, run, empty⟩ := Machine.run_of_exec (step (graph fork)) (fun _ _ => True)
    (fun s : Tracing (Option Bool) =>
      emptyAnswer (availableTask (graph fork) (fun _ => true) (some true) (cleared s.trace)) = true)
    [.call none fun _ => true, .execute (some false)] new (by decide)
  rcases traced : availableTask (graph fork) (fun _ => true) (some true) (cleared s.trace) with ⟨error | (none | status), after⟩
  · simp [traced, emptyAnswer] at empty
  · simp [traced, emptyAnswer] at empty
  · rw [traced] at empty
    exact claimed (graph fork) fork_buildable s run (some true) _ status after traced (List.isEmpty_iff.mp empty)

def batchOf {Task Name : Type*} : Traced Task Name (Option Status) → Option (List Task)
  | (.ok (some _), after) => some after.fetchedTasks
  | _ => none

theorem batch_of_some {Task Name : Type*} (answer : Traced Task Name (Option Status)) (batch : List Task)
    (given : batchOf answer = some batch) : ∃ status after, answer = (.ok (some status), after) ∧ after.fetchedTasks = batch := by
  rcases answer with ⟨error | (none | status), after⟩
  · cases given
  · cases given
  · exact ⟨status, after, rfl, Option.some.inj given⟩

-- One invoker has been given the bottom, which is executed, and then one of
-- the two above it, which is still queued. Another that comes for the top gets
-- the other of the two; one that comes for the queued task gets nothing.
theorem diamond_later_batches :
    ∃ s : Tracing (Bool × Bool), s.batches = [[(false, false)], [(true, false)]] ∧ s.executed = [(false, false)] ∧
      (∃ task, Visible (graph diamond) s (true, true) task ∧
        ∀ prereq, Needs (graph diamond) task prereq → Resolved (graph diamond) (fun _ => true) (cleared s.trace) prereq) ∧
      ¬ ∃ task, Visible (graph diamond) s (true, false) task ∧
        ∀ prereq, Needs (graph diamond) task prereq → Resolved (graph diamond) (fun _ => true) (cleared s.trace) prereq := by
  obtain ⟨s, run, batches, ran, other, queued⟩ := Machine.run_of_exec (step (graph diamond)) (fun _ _ => True)
    (fun s : Tracing (Bool × Bool) => s.batches = [[(false, false)], [(true, false)]] ∧ s.executed = [(false, false)] ∧
      batchOf (availableTask (graph diamond) (fun _ => true) (true, true) (cleared s.trace)) = some [(false, true)] ∧
      batchOf (availableTask (graph diamond) (fun _ => true) (true, false) (cleared s.trace)) = some [])
    [.call (true, false) fun _ => true, .execute (false, false), .call (true, false) fun _ => true] new (by decide)
  obtain ⟨status, after, traced, full⟩ := batch_of_some _ _ other
  obtain ⟨status', after', traced', vacant⟩ := batch_of_some _ _ queued
  have later := batch_nonempty_iff (graph diamond) diamond_buildable s run (true, true) (fun _ => true) status after traced
  have idle := batch_nonempty_iff (graph diamond) diamond_buildable s run (true, false) (fun _ => true) status' after' traced'
  refine ⟨s, batches, ran, ?_, ?_⟩
  · obtain ⟨task, seen, -, settled⟩ := later.mp (by simp [full])
    exact ⟨task, seen, settled⟩
  · rintro ⟨task, seen, settled⟩
    exact idle.mpr ⟨task, seen, rfl, settled⟩ vacant

end Tracing

end Pwrake
