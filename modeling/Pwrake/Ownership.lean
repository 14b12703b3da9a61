import Pwrake.Routing

set_option autoImplicit false

namespace Pwrake

namespace Operator

open Tracer

variable {Task Name Scope : Type*} [DecidableEq Task]

structure Books (app : Application Task Name Scope) (s : Operator Task Name) : Prop where
  shape : Shape app s
  ledger : Ledger s
  routing : Routing s

def FreshCalls (app : Application Task Name Scope) (s : Operator Task Name) (label : OperatorLabel Task) : Prop :=
  Fresh s label ∧ BuildableCalls app label

-- No task is in the batches of two calls of available_task, and a task whose
-- action has run is waited for at the output queue it is about to be put in.
structure SoleOwner (s : Operator Task Name) : Prop where
  batches : ∀ (i j : Nat) call other, s.calls[i]? = some call → s.calls[j]? = some other →
    ∀ task ∈ s.batch call.array, task ∈ s.batch other.array → i = j
  pushed : s.pushed.Nodup
  started : s.started.Nodup
  delivered : ∀ (w : Nat) task, s.threads[w]? = some (.executed task) →
    ∃ (v : Nat) (inv : Invocation Task) (a taken : Nat), s.threads[v]? = some (.invoking inv (.collect a taken)) ∧
      task ∈ s.batch a ∧ s.outputQueue task = some inv.outputQueue

theorem books_sole_owner {app : Application Task Name Scope} {s : Operator Task Name} (books : Books app s) :
    SoleOwner s where
  batches := by
    intro i j call other readCall readOther task member shared
    have same := batch_owner books.ledger call other (List.mem_of_getElem? readCall) (List.mem_of_getElem? readOther)
      task member shared
    subst same
    have distinct : s.calls.Nodup := books.shape.arrays.of_map
    exact (List.getElem?_inj (List.getElem?_eq_some_iff.mp readCall).1 distinct).mp (readCall.trans readOther.symm)
  pushed := pushed_nodup books.ledger
  started := started_nodup books.ledger
  delivered := by
    intro w task stands
    obtain ⟨pushed, uncollected⟩ := executed_pending books.ledger w task stands
    obtain ⟨v, inv, a, taken, there, inside, -, queue⟩ :=
      pending_owner books.shape books.ledger books.routing task pushed uncollected
    exact ⟨v, inv, a, taken, there, inside, queue⟩

section Runs

variable [Fintype Task] {app : Application Task Name Scope}

theorem books_step (s after : Operator Task Name) (label : OperatorLabel Task) (books : Books app s)
    (fresh : FreshCalls app s label) (effect : Effect app s label after) : Books app after where
  shape := shape_step s after label books.shape fresh.1 fresh.2 effect
  ledger := ledger_step s after label books.shape books.ledger fresh.1 effect
  routing := routing_step s after label books.shape books.ledger books.routing fresh.1 effect

omit [Fintype Task] in
theorem books_new (n : Nat) (names : List Name) (buildable : BuildableNames app names) :
    Books app (new n names : Operator Task Name) :=
  ⟨shape_new n names buildable, ledger_new n names, routing_new n names⟩

theorem books_run (n : Nat) (names : List Name) (buildable : BuildableNames app names)
    (guard : Operator Task Name → OperatorLabel Task → Prop)
    (fresh : ∀ s label, guard s label → FreshCalls app s label) (s : Operator Task Name)
    (run : Machine.Run (step app) guard (new n names) s) : Books app s :=
  Machine.run_invariant (Books app) (new n names) (books_new n names buildable)
    (fun before after label _ books allowed taken =>
      books_step before after label books (fresh before label allowed) (step_effect app before after label taken))
    s run

-- As long as every trace writes to an array of its own, each task has one
-- invoker.
theorem each_task_one_invoker (n : Nat) (names : List Name) (buildable : ∀ root, Buildable app root)
    (s : Operator Task Name) (run : Machine.Run (step app) Fresh (new n names) s) : SoleOwner s :=
  books_sole_owner (books_run n names (fun _ _ root _ => buildable root) Fresh
    (fun _ _ fresh => ⟨fresh, fun _ root _ => buildable root⟩) s run)

end Runs

-- Task 0 needs 1 and 2.
def twoLeaves (task : Fin 5) : List (Fin 5) := ([[1, 2]] : List (List (Fin 5))).getD task []

theorem two_leaves_buildable (root : Fin 5) : Buildable (graph twoLeaves) root :=
  graph_buildable twoLeaves (fun task => if task = 0 then 1 else 0) (by decide) root

theorem each_task_one_invoker_nested :
    ∃ s : Operator (Fin 5) (Fin 5),
      s.calls = [⟨0, 0⟩, ⟨1, 1⟩] ∧ s.threads[2]? = some (.executed 2) ∧ SoleOwner s := by
  obtain ⟨s, run, facts⟩ := Machine.run_of_exec (step (graph twoLeaves)) Fresh
    (fun s => s.calls = [⟨0, 0⟩, ⟨1, 1⟩] ∧ s.threads[2]? = some (.executed 2))
    [.invokeTask, .reset 0, .trace 0 allNeeded, .assign 0, .push 0 none, .pop 1 none, .start 1, .call 1 3, .reset 1,
      .trace 1 allNeeded, .assign 1, .push 1 none, .pop 2 none, .start 2, .taskEnd 2] (new 1 [0]) (by decide)
  exact ⟨s, facts.1, facts.2, each_task_one_invoker 1 [0] two_leaves_buildable s run⟩

-- The actions of 1 and 2 invoke 3 and 4. Both calls reset before either traces,
-- so both are given the array that holds 3 and 4, and both push it.
theorem shared_array_pushes_twice :
    ¬ ∀ (app : Application (Fin 5) (Fin 5) Unit) (n : Nat) (names : List (Fin 5)) (s : Operator (Fin 5) (Fin 5)),
      (∀ root, Buildable app root) → Machine.Run (step app) (fun _ _ => True) (new n names) s → SoleOwner s := by
  intro always
  obtain ⟨s, run, pushed⟩ := Machine.run_of_exec (step (graph twoLeaves)) (fun _ _ => True)
    (fun s => s.pushed = [1, 2, 3, 4, 3, 4])
    [.invokeTask, .reset 0, .trace 0 allNeeded, .assign 0, .push 0 none, .pop 1 none, .pop 2 none, .start 1, .start 2,
      .call 1 3, .call 2 4, .reset 1, .reset 2, .trace 1 allNeeded, .trace 2 allNeeded, .assign 1, .assign 2,
      .push 1 none, .push 2 none] (new 2 [0]) (by decide)
  have once := (always (graph twoLeaves) 2 [0] s two_leaves_buildable run).pushed
  rw [pushed] at once
  exact absurd once (by decide)

end Operator

end Pwrake
