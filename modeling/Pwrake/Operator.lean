import Pwrake.Lib.Machine
import Pwrake.Lib.Slots
import Pwrake.TaskQueue
import Pwrake.TraceProgress

set_option autoImplicit false

namespace Pwrake

-- A call of Operator#invoke. nested is set when a worker makes the call: the
-- task whose action calls Task#invoke, and the thread that stands in for the
-- worker meanwhile.
structure Invocation (Task : Type*) where
  root : Task
  outputQueue : Nat
  nested : Option (Task × Nat)
deriving DecidableEq, Repr

-- The statement of invoke a thread is at. An array is named by its place in
-- the heap of arrays, because @fetched_tasks and the local a are the same object.
inductive InvokePc where
  | reset
  | trace
  | assign (a : Nat)
  | push (a : Nat)
  | collect (a taken : Nat)
  | retire
  | joining (thread : Nat)
  | raised
deriving DecidableEq, Repr

-- idle, finishing and joinWorkers are places of the main thread, which is
-- thread 0: between two calls of invoke_task and in Operator#finish.
inductive ThreadPc (Task : Type*) where
  | popping (n : Nat)
  | popped (task : Task)
  | running (task : Task)
  | executed (task : Task)
  | invoking (inv : Invocation Task) (pc : InvokePc)
  | idle
  | finishing
  | joinWorkers
  | exited
deriving DecidableEq, Repr

structure BatchCall where
  array : Nat
  outputQueue : Nat
deriving DecidableEq, Repr

-- The Operator with its Tracer, its TaskQueue over a SimpleQueue, the task
-- table and the threads. @workers are the threads 1 to workers. The last six
-- fields are history and steer nothing: calls are the calls of available_task
-- that returned an array, skipped the tasks found not needed, collected what
-- was taken from the output queues.
structure Operator (Task Name : Type*) where
  invoked : Finset Task
  outputQueue : Task → Option Nat
  footprint : Finset Task
  fetched : Finset Task
  fetchedTasks : Nat
  arrays : List (List Task)
  inputQueue : TaskQueue (SimpleQueue Task) Nat
  outputs : List (List Task)
  workers : Nat
  threads : List (ThreadPc Task)
  todo : List Name
  calls : List BatchCall
  skipped : Finset Task
  pushed : List Task
  started : List Task
  ended : List Task
  collected : List Task

-- The label of a trace carries the answers of needed?, so the oracle may be
-- anything. A task's action decides by itself which tasks it invokes.
inductive OperatorLabel (Task : Type*) where
  | pop (w : Nat) (wake : Option Nat)
  | start (w : Nat)
  | call (w : Nat) (root : Task)
  | taskEnd (w : Nat)
  | complete (w : Nat)
  | reset (w : Nat)
  | trace (w : Nat) (needed : Task → Bool)
  | assign (w : Nat)
  | push (w : Nat) (wake : Option Nat)
  | collect (w : Nat)
  | again (w : Nat)
  | threadEnd (w : Nat)
  | join (w : Nat)
  | invokeTask
  | finish (wake : Option Nat)
  | joinWorkers

namespace Operator

variable {Task Name Scope : Type*}

abbrev mainThread : Nat := 0

def new (n : Nat) (names : List Name) : Operator Task Name where
  invoked := ∅
  outputQueue := fun _ => none
  footprint := ∅
  fetched := ∅
  fetchedTasks := 0
  arrays := []
  inputQueue := .new []
  outputs := []
  workers := n
  threads := .idle :: List.replicate n (.popping 0)
  todo := names
  calls := []
  skipped := ∅
  pushed := []
  started := []
  ended := []
  collected := []

def setThread (s : Operator Task Name) (w : Nat) (pc : ThreadPc Task) : Operator Task Name :=
  { s with threads := s.threads.set w pc }

def handOut (s : Operator Task Name) (call : BatchCall) : Operator Task Name := { s with calls := s.calls ++ [call] }

def batch (s : Operator Task Name) (a : Nat) : List Task := s.arrays.getD a []

-- Where pop leaves its caller. On a SimpleQueue the turn that takes nothing
-- leaves the count n as it was.
def afterPop : PopOutcome Task → ThreadPc Task
  | .retired => .exited
  | .closed => .exited
  | .task task => .popped task
  | .wait n => .popping n

def parked (queue : TaskQueue (SimpleQueue Task) Nat) (w : Nat) : PopOutcome Task → TaskQueue (SimpleQueue Task) Nat
  | .wait _ => { queue with cv := queue.cv.wait w }
  | _ => queue

def awakened (queue : TaskQueue (SimpleQueue Task) Nat) (w : Nat) : TaskQueue (SimpleQueue Task) Nat :=
  { queue with cv := queue.cv.resume w }

def WorkersExited (s : Operator Task Name) : Prop := ∀ i < s.workers, s.threads[i + 1]? = some .exited

variable [DecidableEq Task]

instance (s : Operator Task Name) : Decidable s.WorkersExited := by
  unfold WorkersExited
  infer_instance

-- The Tracer's view of the state, and the state with what the Tracer wrote.
def tracer (s : Operator Task Name) : TraceState Task := ⟨s.invoked, s.footprint, s.fetched, s.batch s.fetchedTasks⟩

def traced (s : Operator Task Name) (after : TraceState Task) : Operator Task Name :=
  { s with
    invoked := after.invoked
    footprint := after.footprint
    fetched := after.fetched
    arrays := s.arrays.set s.fetchedTasks after.fetchedTasks
    skipped := s.skipped ∪ (after.invoked \ s.invoked) }

-- The statement after available_task returned nil: thread_end for a nested
-- call, and the ensure clause of invoke_task for the main thread.
def afterLoop (inv : Invocation Task) : ThreadPc Task :=
  match inv.nested with
  | none => .finishing
  | some _ => .invoking inv .retire

omit [DecidableEq Task] in
theorem after_loop_main (inv : Invocation Task) (alone : inv.nested = none) : afterLoop inv = .finishing := by
  rw [afterLoop, alone]

omit [DecidableEq Task] in
theorem after_loop_invoking (inv other : Invocation Task) (stage : InvokePc) (same : afterLoop inv = .invoking other stage) :
    other = inv ∧ stage = .retire := by
  unfold afterLoop at same
  split at same
  · cases same
  · cases same
    exact ⟨rfl, rfl⟩

def pushBatch (queue : TaskQueue (SimpleQueue Task) Nat) (tasks : List Task) (wake : Option Nat) :
    Option (TaskQueue (SimpleQueue Task) Nat) :=
  queue.push (SimpleQueue.ops : QueueOps (SimpleQueue Task) Task Unit Unit) (tasks.map fun task => (task, ())) wake

variable [Fintype Task]

-- The methods of TaskQueue and available_task are one step each, thread_end
-- and finish included. The reset before the trace is a step of its own.
def step (app : Application Task Name Scope) (s : Operator Task Name) :
    OperatorLabel Task → Option (Operator Task Name)
  | .pop w wake =>
      match s.threads[w]? with
      | some (.popping n) =>
          if w ∈ s.inputQueue.cv.waiting then none
          else
            ((awakened s.inputQueue w).popTurn SimpleQueue.ops w () n wake).map fun (out, queue) =>
              { s with inputQueue := parked queue w out }.setThread w (afterPop out)
      | _ => none
  | .start w =>
      match s.threads[w]? with
      | some (.popped task) =>
          some ({ s with invoked := insert task s.invoked, started := s.started ++ [task] }.setThread w (.running task))
      | _ => none
  | .call w root =>
      match s.threads[w]? with
      | some (.running task) =>
          let inv : Invocation Task := ⟨root, s.outputs.length, some (task, s.threads.length)⟩
          some { s with outputs := s.outputs ++ [[]], threads := s.threads.set w (.invoking inv .reset) ++ [.popping 0] }
      | _ => none
  | .taskEnd w =>
      match s.threads[w]? with
      | some (.running task) => some ({ s with ended := s.ended ++ [task] }.setThread w (.executed task))
      | _ => none
  | .complete w =>
      match s.threads[w]? with
      | some (.executed task) =>
          match s.outputQueue task with
          | some i =>
              match s.outputs[i]? with
              | some content => some ({ s with outputs := s.outputs.set i (content ++ [task]) }.setThread w (.popping 0))
              | none => none
          | none => none
      | _ => none
  | .reset w =>
      match s.threads[w]? with
      | some (.invoking inv .reset) =>
          some ({ s with footprint := ∅, fetchedTasks := s.arrays.length, arrays := s.arrays ++ [[]] }.setThread w
            (.invoking inv .trace))
      | _ => none
  | .trace w needed =>
      match s.threads[w]? with
      | some (.invoking inv .trace) =>
          match Tracer.availableTask app needed inv.root s.tracer with
          | (.ok (some _), after) =>
              some (((s.traced after).handOut ⟨s.fetchedTasks, inv.outputQueue⟩).setThread w
                (.invoking inv (.assign s.fetchedTasks)))
          | (.ok none, after) => some ((s.traced after).setThread w (afterLoop inv))
          | (.error _, after) => some ((s.traced after).setThread w (.invoking inv .raised))
      | _ => none
  | .assign w =>
      match s.threads[w]? with
      | some (.invoking inv (.assign a)) =>
          some ({ s with outputQueue := fun task => if task ∈ s.batch a then some inv.outputQueue else s.outputQueue task
            }.setThread w (.invoking inv (.push a)))
      | _ => none
  | .push w wake =>
      match s.threads[w]? with
      | some (.invoking inv (.push a)) =>
          (pushBatch s.inputQueue (s.batch a) wake).map fun queue =>
            { s with inputQueue := queue, pushed := s.pushed ++ s.batch a }.setThread w (.invoking inv (.collect a 0))
      | _ => none
  | .collect w =>
      match s.threads[w]? with
      | some (.invoking inv (.collect a taken)) =>
          if taken < (s.batch a).length then
            match s.outputs[inv.outputQueue]? with
            | some (b :: rest) =>
                some ({ s with outputs := s.outputs.set inv.outputQueue rest, collected := s.collected ++ [b] }.setThread w
                  (.invoking inv (if b ∈ s.batch a then .collect a (taken + 1) else .raised)))
            | _ => none
          else none
      | _ => none
  | .again w =>
      match s.threads[w]? with
      | some (.invoking inv (.collect a taken)) =>
          if taken < (s.batch a).length then none else some (s.setThread w (.invoking inv .reset))
      | _ => none
  | .threadEnd w =>
      match s.threads[w]? with
      | some (.invoking inv .retire) =>
          match inv.nested with
          | some (_, thread) =>
              some ({ s with inputQueue := s.inputQueue.threadEnd thread }.setThread w (.invoking inv (.joining thread)))
          | none => none
      | _ => none
  | .join w =>
      match s.threads[w]? with
      | some (.invoking inv (.joining thread)) =>
          match inv.nested with
          | some (task, _) => if s.threads[thread]? = some .exited then some (s.setThread w (.running task)) else none
          | none => none
      | _ => none
  | .invokeTask =>
      match s.threads[mainThread]?, s.todo with
      | some .idle, name :: rest =>
          match app.lookup name none with
          | some root =>
              some ({ s with outputs := s.outputs ++ [[]], todo := rest }.setThread mainThread
                (.invoking ⟨root, s.outputs.length, none⟩ .reset))
          | none => some ({ s with todo := rest }.setThread mainThread .exited)
      | _, _ => none
  | .finish wake =>
      match s.threads[mainThread]? with
      | some .finishing =>
          (s.inputQueue.finish wake).map fun queue => { s with inputQueue := queue }.setThread mainThread .joinWorkers
      | _ => none
  | .joinWorkers =>
      match s.threads[mainThread]? with
      | some .joinWorkers => if s.WorkersExited then some (s.setThread mainThread .idle) else none
      | _ => none

omit [DecidableEq Task] [Fintype Task] in
theorem batch_set (s : Operator Task Name) (a b : Nat) (content : List Task) :
    { s with arrays := s.arrays.set a content }.batch b = if b = a ∧ a < s.arrays.length then content else s.batch b := by
  by_cases same : b = a
  · subst same
    by_cases bound : b < s.arrays.length
    · simp [batch, bound]
    · simp [batch, bound]
  · simp [batch, same, List.getElem?_set_ne (Ne.symm same)]

omit [DecidableEq Task] [Fintype Task] in
theorem batch_append (s : Operator Task Name) (b : Nat) : { s with arrays := s.arrays ++ [[]] }.batch b = s.batch b := by
  simp only [batch, List.getD_eq_getElem?_getD]
  rcases Nat.lt_trichotomy b s.arrays.length with inside | same | outside
  · rw [List.getElem?_append_left inside]
  · simp [same]
  · rw [List.getElem?_eq_none (by simp; omega), List.getElem?_eq_none (by omega)]

omit [Fintype Task] in
theorem traced_batch (s : Operator Task Name) (after : TraceState Task) (b : Nat) :
    (s.traced after).batch b = if b = s.fetchedTasks ∧ s.fetchedTasks < s.arrays.length then after.fetchedTasks else s.batch b :=
  batch_set s s.fetchedTasks b after.fetchedTasks

theorem trace_outcome (app : Application Task Name Scope) (needed : Task → Bool) (root : Task) (s : TraceState Task)
    (result : Except (TraceError Task Name) (Option Status)) (after : TraceState Task)
    (ran : Tracer.availableTask app needed root s = (result, after)) :
    ∃ added, Tracer.Outcome app needed (fun task => Tracer.Sees app s root task ∧ task ∉ s.footprint) s after added := by
  have found := Tracer.available_task_found app needed root s
  rw [ran] at found
  exact Tracer.explores_outcome s after (fun _ permitted => permitted.2) found.explores

end Operator

end Pwrake
