import Pwrake.Shutdown
import Pwrake.Tracing

set_option autoImplicit false

namespace Pwrake

-- What a worker has done with the task that pop gave it.
inductive Stage (Task : Type*) where
  | idle
  | running (task : Task)
  | executed (task : Task)
deriving DecidableEq, Repr

-- Where the main thread stands in Application#invoke_task: the loop of
-- Operator#invoke, then Operator#finish in the ensure clause. joining j waits
-- for the j-th of @workers.
inductive MainPc where
  | trace
  | push
  | collect (taken : Nat)
  | finishing
  | signalling
  | joining (j : Nat)
  | returned
deriving DecidableEq, Repr

-- One call of invoke_task whose tasks may fail. raises counts the SystemExit
-- exceptions of dead workers that the main thread has not received yet; raised
-- tells that an exception is on its way out of invoke_task. The last five
-- fields are history and steer nothing.
structure InvokeTask (Queue Task : Type*) where
  pool : Pool Queue Task
  stages : List (Stage Task)
  tracer : TraceState Task
  outputQueue : List Task
  main : MainPc
  dead : Finset Nat
  raises : Nat
  raised : Bool
  started : List Task
  ended : List Task
  failed : List Task
  collected : List Task
  skipped : Finset Task

inductive InvokeLabel (Task Choice : Type*) where
  | worker (label : PoolLabel Task Choice)
  | start (w : Nat)
  | execute (w : Nat)
  | complete (w : Nat)
  | fail (w : Nat)
  | die (w : Nat)
  | trace (needed : Task → Bool)
  | push (choice : Task → Choice) (wake : Option Nat)
  | collect
  | again
  | finishRaise
  | finishSignal (wake : Option Nat)
  | join
  | abort

namespace InvokeTask

variable {Queue Task Host Choice Name Scope : Type*}

def new (q : Queue) (n : Nat) : InvokeTask Queue Task where
  pool := .init q n
  stages := List.replicate n .idle
  tracer := ⟨∅, ∅, ∅, []⟩
  outputQueue := []
  main := .trace
  dead := ∅
  raises := 0
  raised := false
  started := []
  ended := []
  failed := []
  collected := []
  skipped := ∅

-- What a worker does in pop and in stop, up to the last statement of stop.
def ofThread : PoolLabel Task Choice → Bool
  | .acquire _ | .check _ _ | .leave _ | .stopEnter _ | .stopRaise _ | .stopSignal _ _ => true
  | _ => false

def inLoop : MainPc → Bool
  | .trace | .push | .collect _ => true
  | _ => false

def inEnsure : MainPc → Bool
  | .finishing | .signalling | .joining _ => true
  | _ => false

-- The array a of the current round of the loop.
def batch (s : InvokeTask Queue Task) : List Task := s.tracer.fetchedTasks

variable [DecidableEq Task]

def traced (s : InvokeTask Queue Task) (after : TraceState Task) : InvokeTask Queue Task :=
  { s with tracer := after, skipped := s.skipped ∪ (after.invoked \ s.tracer.invoked) }

variable [Fintype Task]

-- on_trace and the assignment of output_queue touch only tasks that no worker
-- has yet, and the push comes with what on_trace found. An exception of a dead
-- worker reaches the main thread between two of its steps.
def step (app : Application Task Name Scope) (root : Task) (ops : QueueOps Queue Task Host Choice) (host : Nat → Host)
    (s : InvokeTask Queue Task) : InvokeLabel Task Choice → Option (InvokeTask Queue Task)
  | .worker label =>
      if ofThread label then (s.pool.step ops host label).map fun pool => { s with pool := pool } else none
  | .start w =>
      match s.pool.workers[w]?, s.stages[w]? with
      | some (.executing task), some .idle =>
          some { s with
            tracer := { s.tracer with invoked := insert task s.tracer.invoked }
            stages := s.stages.set w (.running task)
            started := s.started ++ [task] }
      | _, _ => none
  | .execute w =>
      match s.stages[w]? with
      | some (.running task) => some { s with stages := s.stages.set w (.executed task), ended := s.ended ++ [task] }
      | _ => none
  | .complete w =>
      match s.stages[w]? with
      | some (.executed task) =>
          (s.pool.step ops host (.taskEnd w)).map fun pool =>
            { s with pool := pool, stages := s.stages.set w .idle, outputQueue := s.outputQueue ++ [task] }
      | _ => none
  | .fail w =>
      match s.stages[w]? with
      | some (.running task) =>
          (s.pool.step ops host (.fail w)).map fun pool =>
            { s with pool := pool, stages := s.stages.set w .idle, failed := s.failed ++ [task] }
      | _ => none
  | .die w =>
      (s.pool.step ops host (.stopLeave w)).map fun pool =>
        { s with pool := pool, dead := insert w s.dead, raises := s.raises + 1 }
  | .trace needed =>
      match s.main with
      | .trace =>
          match Tracer.availableTask app needed root (Tracing.cleared s.tracer) with
          | (.ok (some _), after) => some { s.traced after with main := .push }
          | (.ok none, after) => some { s.traced after with main := .finishing }
          | (.error _, after) => some { s.traced after with main := .finishing, raised := true }
      | _ => none
  | .push choice wake =>
      match s.main with
      | .push =>
          (s.pool.step ops host (.push (s.batch.map fun task => (task, choice task)) wake)).map fun pool =>
            { s with pool := pool, main := .collect 0 }
      | _ => none
  | .collect =>
      match s.main, s.outputQueue with
      | .collect taken, b :: rest =>
          if taken < s.batch.length then
            if b ∈ s.batch then
              some { s with outputQueue := rest, collected := s.collected ++ [b], main := .collect (taken + 1) }
            else some { s with outputQueue := rest, collected := s.collected ++ [b], main := .finishing, raised := true }
          else none
      | _, _ => none
  | .again =>
      match s.main with
      | .collect taken => if taken < s.batch.length then none else some { s with main := .trace }
      | _ => none
  | .finishRaise =>
      match s.main with
      | .finishing => (s.pool.step ops host .finishRaise).map fun pool => { s with pool := pool, main := .signalling }
      | _ => none
  | .finishSignal wake =>
      match s.main with
      | .signalling => (s.pool.step ops host (.finishSignal wake)).map fun pool => { s with pool := pool, main := .joining 0 }
      | _ => none
  | .join =>
      match s.main with
      | .joining j =>
          if s.pool.workers.length ≤ j then some { s with main := .returned }
          else if s.pool.workers[j]? = some .exited then
            if j ∈ s.dead then some { s with main := .returned, raised := true } else some { s with main := .joining (j + 1) }
          else none
      | _ => none
  | .abort =>
      match s.raises with
      | 0 => none
      | raises + 1 =>
          if inLoop s.main then some { s with main := .finishing, raises := raises, raised := true }
          else if inEnsure s.main then some { s with main := .returned, raises := raises, raised := true }
          else none

-- What one step reads and writes. Proofs about runs go through this relation
-- and never unfold step.
inductive Effect (app : Application Task Name Scope) (root : Task) (ops : QueueOps Queue Task Host Choice) (host : Nat → Host)
    (s : InvokeTask Queue Task) : InvokeLabel Task Choice → InvokeTask Queue Task → Prop where
  | worker (label : PoolLabel Task Choice) (pool : Pool Queue Task) (own : ofThread label = true)
      (moved : s.pool.step ops host label = some pool) : Effect app root ops host s (.worker label) { s with pool := pool }
  | start (w : Nat) (task : Task) (stands : s.pool.workers[w]? = some (.executing task)) (stage : s.stages[w]? = some .idle) :
      Effect app root ops host s (.start w)
        { s with
          tracer := { s.tracer with invoked := insert task s.tracer.invoked }
          stages := s.stages.set w (.running task)
          started := s.started ++ [task] }
  | execute (w : Nat) (task : Task) (stage : s.stages[w]? = some (.running task)) :
      Effect app root ops host s (.execute w) { s with stages := s.stages.set w (.executed task), ended := s.ended ++ [task] }
  | complete (w : Nat) (task : Task) (pool : Pool Queue Task) (stage : s.stages[w]? = some (.executed task))
      (moved : s.pool.step ops host (.taskEnd w) = some pool) :
      Effect app root ops host s (.complete w)
        { s with pool := pool, stages := s.stages.set w .idle, outputQueue := s.outputQueue ++ [task] }
  | fail (w : Nat) (task : Task) (pool : Pool Queue Task) (stage : s.stages[w]? = some (.running task))
      (moved : s.pool.step ops host (.fail w) = some pool) :
      Effect app root ops host s (.fail w)
        { s with pool := pool, stages := s.stages.set w .idle, failed := s.failed ++ [task] }
  | die (w : Nat) (pool : Pool Queue Task) (moved : s.pool.step ops host (.stopLeave w) = some pool) :
      Effect app root ops host s (.die w) { s with pool := pool, dead := insert w s.dead, raises := s.raises + 1 }
  | traceBatch (needed : Task → Bool) (status : Status) (after : TraceState Task) (stands : s.main = .trace)
      (ran : Tracer.availableTask app needed root (Tracing.cleared s.tracer) = (.ok (some status), after)) :
      Effect app root ops host s (.trace needed) { s.traced after with main := .push }
  | traceNil (needed : Task → Bool) (after : TraceState Task) (stands : s.main = .trace)
      (ran : Tracer.availableTask app needed root (Tracing.cleared s.tracer) = (.ok none, after)) :
      Effect app root ops host s (.trace needed) { s.traced after with main := .finishing }
  | traceError (needed : Task → Bool) (error : TraceError Task Name) (after : TraceState Task) (stands : s.main = .trace)
      (ran : Tracer.availableTask app needed root (Tracing.cleared s.tracer) = (.error error, after)) :
      Effect app root ops host s (.trace needed) { s.traced after with main := .finishing, raised := true }
  | push (choice : Task → Choice) (wake : Option Nat) (pool : Pool Queue Task) (stands : s.main = .push)
      (moved : s.pool.step ops host (.push (s.batch.map fun task => (task, choice task)) wake) = some pool) :
      Effect app root ops host s (.push choice wake) { s with pool := pool, main := .collect 0 }
  | collect (taken : Nat) (b : Task) (rest : List Task) (stands : s.main = .collect taken) (read : s.outputQueue = b :: rest)
      (more : taken < s.batch.length) (listed : b ∈ s.batch) :
      Effect app root ops host s .collect
        { s with outputQueue := rest, collected := s.collected ++ [b], main := .collect (taken + 1) }
  | stray (taken : Nat) (b : Task) (rest : List Task) (stands : s.main = .collect taken) (read : s.outputQueue = b :: rest)
      (more : taken < s.batch.length) (foreign : b ∉ s.batch) :
      Effect app root ops host s .collect
        { s with outputQueue := rest, collected := s.collected ++ [b], main := .finishing, raised := true }
  | again (taken : Nat) (stands : s.main = .collect taken) (all : s.batch.length ≤ taken) :
      Effect app root ops host s .again { s with main := .trace }
  | finishRaise (pool : Pool Queue Task) (stands : s.main = .finishing) (moved : s.pool.step ops host .finishRaise = some pool) :
      Effect app root ops host s .finishRaise { s with pool := pool, main := .signalling }
  | finishSignal (wake : Option Nat) (pool : Pool Queue Task) (stands : s.main = .signalling)
      (moved : s.pool.step ops host (.finishSignal wake) = some pool) :
      Effect app root ops host s (.finishSignal wake) { s with pool := pool, main := .joining 0 }
  | joinedAll (j : Nat) (stands : s.main = .joining j) (last : s.pool.workers.length ≤ j) :
      Effect app root ops host s .join { s with main := .returned }
  | joined (j : Nat) (stands : s.main = .joining j) (exited : s.pool.workers[j]? = some .exited) (living : j ∉ s.dead) :
      Effect app root ops host s .join { s with main := .joining (j + 1) }
  | joinRaised (j : Nat) (stands : s.main = .joining j) (exited : s.pool.workers[j]? = some .exited) (dead : j ∈ s.dead) :
      Effect app root ops host s .join { s with main := .returned, raised := true }
  | abortLoop (raises : Nat) (pending : s.raises = raises + 1) (stands : inLoop s.main = true) :
      Effect app root ops host s .abort { s with main := .finishing, raises := raises, raised := true }
  | abortEnsure (raises : Nat) (pending : s.raises = raises + 1) (stands : inEnsure s.main = true) :
      Effect app root ops host s .abort { s with main := .returned, raises := raises, raised := true }

theorem step_effect (app : Application Task Name Scope) (root : Task) (ops : QueueOps Queue Task Host Choice) (host : Nat → Host)
    (s next : InvokeTask Queue Task) (label : InvokeLabel Task Choice) (taken : s.step app root ops host label = some next) :
    Effect app root ops host s label next := by
  cases label with
  | worker label =>
      simp only [step] at taken
      split at taken
      · rename_i own
        simp only [Option.map_eq_some_iff] at taken
        obtain ⟨pool, moved, rfl⟩ := taken
        exact .worker label pool own moved
      · cases taken
  | start w =>
      simp only [step] at taken
      split at taken
      · rename_i task stands stage
        cases taken
        exact .start w task stands stage
      · cases taken
  | execute w =>
      simp only [step] at taken
      split at taken
      · rename_i task stage
        cases taken
        exact .execute w task stage
      · cases taken
  | complete w =>
      simp only [step] at taken
      split at taken
      · rename_i task stage
        simp only [Option.map_eq_some_iff] at taken
        obtain ⟨pool, moved, rfl⟩ := taken
        exact .complete w task pool stage moved
      · cases taken
  | fail w =>
      simp only [step] at taken
      split at taken
      · rename_i task stage
        simp only [Option.map_eq_some_iff] at taken
        obtain ⟨pool, moved, rfl⟩ := taken
        exact .fail w task pool stage moved
      · cases taken
  | die w =>
      simp only [step, Option.map_eq_some_iff] at taken
      obtain ⟨pool, moved, rfl⟩ := taken
      exact .die w pool moved
  | trace needed =>
      simp only [step] at taken
      split at taken
      · rename_i stands
        split at taken
        · rename_i status after ran
          cases taken
          exact .traceBatch needed status after stands ran
        · rename_i after ran
          cases taken
          exact .traceNil needed after stands ran
        · rename_i error after ran
          cases taken
          exact .traceError needed error after stands ran
      · cases taken
  | push choice wake =>
      simp only [step] at taken
      split at taken
      · rename_i stands
        simp only [Option.map_eq_some_iff] at taken
        obtain ⟨pool, moved, rfl⟩ := taken
        exact .push choice wake pool stands moved
      · cases taken
  | collect =>
      simp only [step] at taken
      split at taken
      · rename_i k b rest stands read
        split at taken
        · rename_i more
          split at taken
          · rename_i listed
            cases taken
            exact .collect k b rest stands read more listed
          · rename_i foreign
            cases taken
            exact .stray k b rest stands read more foreign
        · cases taken
      · cases taken
  | again =>
      simp only [step] at taken
      split at taken
      · rename_i k stands
        split at taken
        · cases taken
        · rename_i all
          cases taken
          exact .again k stands (Nat.le_of_not_lt all)
      · cases taken
  | finishRaise =>
      simp only [step] at taken
      split at taken
      · rename_i stands
        simp only [Option.map_eq_some_iff] at taken
        obtain ⟨pool, moved, rfl⟩ := taken
        exact .finishRaise pool stands moved
      · cases taken
  | finishSignal wake =>
      simp only [step] at taken
      split at taken
      · rename_i stands
        simp only [Option.map_eq_some_iff] at taken
        obtain ⟨pool, moved, rfl⟩ := taken
        exact .finishSignal wake pool stands moved
      · cases taken
  | join =>
      simp only [step] at taken
      split at taken
      · rename_i j stands
        split at taken
        · rename_i last
          cases taken
          exact .joinedAll j stands last
        · split at taken
          · rename_i exited
            split at taken
            · rename_i dead
              cases taken
              exact .joinRaised j stands exited dead
            · rename_i living
              cases taken
              exact .joined j stands exited living
          · cases taken
      · cases taken
  | abort =>
      simp only [step] at taken
      split at taken
      · cases taken
      · rename_i raises pending
        split at taken
        · rename_i stands
          cases taken
          exact .abortLoop raises pending stands
        · split at taken
          · rename_i stands
            cases taken
            exact .abortEnsure raises pending stands
          · cases taken

theorem effect_step (app : Application Task Name Scope) (root : Task) (ops : QueueOps Queue Task Host Choice) (host : Nat → Host)
    (s next : InvokeTask Queue Task) (label : InvokeLabel Task Choice) (effect : Effect app root ops host s label next) :
    s.step app root ops host label = some next := by
  cases effect with
  | worker label pool own moved => simp only [step, if_pos own, moved, Option.map_some]
  | start w task stands stage => simp only [step, stands, stage]
  | execute w task stage => simp only [step, stage]
  | complete w task pool stage moved => simp only [step, stage, moved, Option.map_some]
  | fail w task pool stage moved => simp only [step, stage, moved, Option.map_some]
  | die w pool moved => simp only [step, moved, Option.map_some]
  | traceBatch needed status after stands ran => simp only [step, stands, ran]
  | traceNil needed after stands ran => simp only [step, stands, ran]
  | traceError needed error after stands ran => simp only [step, stands, ran]
  | push choice wake pool stands moved => simp only [step, stands, moved, Option.map_some]
  | collect taken b rest stands read more listed => simp only [step, stands, read, if_pos more, if_pos listed]
  | stray taken b rest stands read more foreign => simp only [step, stands, read, if_pos more, if_neg foreign]
  | again taken stands all => simp only [step, stands, if_neg (Nat.not_lt.mpr all)]
  | finishRaise pool stands moved => simp only [step, stands, moved, Option.map_some]
  | finishSignal wake pool stands moved => simp only [step, stands, moved, Option.map_some]
  | joinedAll j stands last => simp only [step, stands, if_pos last]
  | joined j stands exited living =>
      have inside := (List.getElem?_eq_some_iff.mp exited).1
      simp only [step, stands, if_neg (Nat.not_le.mpr inside), if_pos exited, if_neg living]
  | joinRaised j stands exited dead =>
      have inside := (List.getElem?_eq_some_iff.mp exited).1
      simp only [step, stands, if_neg (Nat.not_le.mpr inside), if_pos exited, if_pos dead]
  | abortLoop raises pending stands => simp only [step, pending, if_pos stands]
  | abortEnsure raises pending stands =>
      have outside : inLoop s.main ≠ true := by
        cases main : s.main <;> simp [main, inEnsure, inLoop] at stands ⊢
      simp only [step, pending, if_neg outside, if_pos stands]

section Threads

variable {app : Application Task Name Scope} {root : Task} {ops : QueueOps Queue Task Host Choice} {host : Nat → Host}

-- Seen by the threads alone, a step is a step of the pool or none.
theorem effect_pool (s next : InvokeTask Queue Task) (label : InvokeLabel Task Choice)
    (effect : Effect app root ops host s label next) :
    next.pool = s.pool ∨ ∃ label, s.pool.step ops host label = some next.pool := by
  cases effect with
  | worker label pool own moved => exact .inr ⟨label, moved⟩
  | complete w task pool stage moved => exact .inr ⟨_, moved⟩
  | fail w task pool stage moved => exact .inr ⟨_, moved⟩
  | die w pool moved => exact .inr ⟨_, moved⟩
  | push choice wake pool stands moved => exact .inr ⟨_, moved⟩
  | finishRaise pool stands moved => exact .inr ⟨_, moved⟩
  | finishSignal wake pool stands moved => exact .inr ⟨_, moved⟩
  | _ => exact .inl rfl

theorem pool_run (guard : InvokeTask Queue Task → InvokeLabel Task Choice → Prop) (q : Queue) (n : Nat)
    (s : InvokeTask Queue Task) (run : Machine.Run (step app root ops host) guard (new q n) s) :
    Machine.Run (Pool.step ops host) (fun _ _ => True) (.init q n) s.pool := by
  induction run with
  | refl => exact .refl
  | tail before after label _ _ taken ih =>
      rcases effect_pool before after label (step_effect app root ops host before after label taken) with same | ⟨move, moved⟩
      · exact same ▸ ih
      · exact .tail _ _ move ih trivial moved

end Threads

end InvokeTask

end Pwrake
