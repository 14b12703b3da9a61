import Pwrake.Lib.Machine
import Pwrake.Lib.Slots
import Pwrake.TaskQueue

set_option autoImplicit false

namespace Pwrake

-- Where a thread of Operator#thread_loop stands. A thread in pop wants @m both
-- when it has just called and when it was woken; @cv tells the two apart. The
-- stop states are the rescue clause of standard_exception_handling.
inductive WorkerPc (Task : Type*) where
  | popping (n : Nat)
  | checking (n : Nat)
  | leaving (out : PopOutcome Task)
  | executing (task : Task)
  | stopping
  | stopRaising
  | stopSignalling
  | stopLeaving
  | exited
deriving DecidableEq, Repr

-- finishing: the main thread is between the two statements of finish, which it
-- runs without @m. The last three fields are history and steer nothing.
structure Pool (Queue Task : Type*) where
  queue : TaskQueue Queue Nat
  m : Option Nat
  workers : List (WorkerPc Task)
  finishing : Bool
  completed : Bool
  pushed : List Task
  handed : List (Task × Nat)
deriving DecidableEq, Repr

inductive PoolLabel (Task Choice : Type*) where
  | push (tasks : List (Task × Choice)) (wake : Option Nat)
  | acquire (w : Nat)
  | check (w : Nat) (wake : Option Nat)
  | leave (w : Nat)
  | taskEnd (w : Nat)
  | fail (w : Nat)
  | stopEnter (w : Nat)
  | stopRaise (w : Nat)
  | stopSignal (w : Nat) (wake : Option Nat)
  | stopLeave (w : Nat)
  | finishRaise
  | finishSignal (wake : Option Nat)
deriving DecidableEq, Repr

namespace Pool

variable {Queue Task Host Choice : Type*}

def init (q : Queue) (n : Nat) : Pool Queue Task where
  queue := .new q
  m := none
  workers := List.replicate n (.popping 0)
  finishing := false
  completed := false
  pushed := []
  handed := []

def setWorker (s : Pool Queue Task) (w : Nat) (pc : WorkerPc Task) : Pool Queue Task :=
  { s with workers := s.workers.set w pc }

def record (s : Pool Queue Task) (w : Nat) : PopOutcome Task → List (Task × Nat)
  | .task task => s.handed ++ [(task, w)]
  | _ => s.handed

def release (s : Pool Queue Task) (w : Nat) : PopOutcome Task → Pool Queue Task
  | .wait n => { s with m := none, queue := { s.queue with cv := s.queue.cv.wait w } }.setWorker w (.popping n)
  | .task task => { s with m := none }.setWorker w (.executing task)
  | .retired => { s with m := none }.setWorker w .exited
  | .closed => { s with m := none }.setWorker w .exited

-- push holds @m from its first statement to its last, so it is one step.
def step (ops : QueueOps Queue Task Host Choice) (host : Nat → Host) (s : Pool Queue Task) :
    PoolLabel Task Choice → Option (Pool Queue Task)
  | .push tasks wake =>
      if s.m = none then
        (s.queue.push ops tasks wake).map fun queue =>
          { s with queue := queue, pushed := s.pushed ++ tasks.map Prod.fst }
      else none
  | .acquire w =>
      match s.workers[w]? with
      | some (.popping n) =>
          if s.m = none ∧ w ∉ s.queue.cv.waiting then
            some ({ s with m := some w, queue := { s.queue with cv := s.queue.cv.resume w } }.setWorker w (.checking n))
          else none
      | _ => none
  | .check w wake =>
      match s.workers[w]? with
      | some (.checking n) =>
          (s.queue.popTurn ops w (host w) n wake).map fun (out, queue) =>
            { s with queue := queue, handed := s.record w out }.setWorker w (.leaving out)
      | _ => none
  | .leave w =>
      match s.workers[w]? with
      | some (.leaving out) => some (s.release w out)
      | _ => none
  | .taskEnd w =>
      match s.workers[w]? with
      | some (.executing _) => some (s.setWorker w (.popping 0))
      | _ => none
  | .fail w =>
      match s.workers[w]? with
      | some (.executing _) => some (s.setWorker w .stopping)
      | _ => none
  | .stopEnter w =>
      match s.workers[w]? with
      | some .stopping =>
          if s.m = none then some ({ s with m := some w, queue := s.queue.clear ops }.setWorker w .stopRaising) else none
      | _ => none
  | .stopRaise w =>
      match s.workers[w]? with
      | some .stopRaising => some ({ s with queue := s.queue.raiseFinished }.setWorker w .stopSignalling)
      | _ => none
  | .stopSignal w wake =>
      match s.workers[w]? with
      | some .stopSignalling =>
          (s.queue.signal wake).map fun queue => { s with queue := queue }.setWorker w .stopLeaving
      | _ => none
  | .stopLeave w =>
      match s.workers[w]? with
      | some .stopLeaving => some ({ s with m := none, completed := true }.setWorker w .exited)
      | _ => none
  | .finishRaise =>
      if s.finishing = false then some { s with finishing := true, queue := s.queue.raiseFinished } else none
  | .finishSignal wake =>
      if s.finishing = true then
        (s.queue.signal wake).map fun queue => { s with finishing := false, completed := true, queue := queue }
      else none

-- What one step reads and writes. Proofs about runs go through this relation
-- and never unfold step.
inductive Effect (ops : QueueOps Queue Task Host Choice) (host : Nat → Host) (s : Pool Queue Task) :
    PoolLabel Task Choice → Pool Queue Task → Prop where
  | push (tasks : List (Task × Choice)) (wake : Option Nat) (cv : CondVar Nat) (free : s.m = none)
      (signalled : s.queue.cv.signal wake = some cv) :
      Effect ops host s (.push tasks wake)
        { s with queue := { s.queue with q := TaskQueue.pushAll ops s.queue.q tasks, cv := cv },
                 pushed := s.pushed ++ tasks.map Prod.fst }
  | acquire (w n : Nat) (stands : s.workers[w]? = some (.popping n)) (free : s.m = none)
      (awake : w ∉ s.queue.cv.waiting) :
      Effect ops host s (.acquire w)
        ({ s with m := some w, queue := { s.queue with cv := s.queue.cv.resume w } }.setWorker w (.checking n))
  | check (w n : Nat) (wake : Option Nat) (out : PopOutcome Task) (queue : TaskQueue Queue Nat)
      (stands : s.workers[w]? = some (.checking n))
      (turned : s.queue.popTurn ops w (host w) n wake = some (out, queue)) :
      Effect ops host s (.check w wake)
        ({ s with queue := queue, handed := s.record w out }.setWorker w (.leaving out))
  | leave (w : Nat) (out : PopOutcome Task) (stands : s.workers[w]? = some (.leaving out)) :
      Effect ops host s (.leave w) (s.release w out)
  | taskEnd (w : Nat) (task : Task) (stands : s.workers[w]? = some (.executing task)) :
      Effect ops host s (.taskEnd w) (s.setWorker w (.popping 0))
  | fail (w : Nat) (task : Task) (stands : s.workers[w]? = some (.executing task)) :
      Effect ops host s (.fail w) (s.setWorker w .stopping)
  | stopEnter (w : Nat) (stands : s.workers[w]? = some .stopping) (free : s.m = none) :
      Effect ops host s (.stopEnter w) ({ s with m := some w, queue := s.queue.clear ops }.setWorker w .stopRaising)
  | stopRaise (w : Nat) (stands : s.workers[w]? = some .stopRaising) :
      Effect ops host s (.stopRaise w) ({ s with queue := s.queue.raiseFinished }.setWorker w .stopSignalling)
  | stopSignal (w : Nat) (wake : Option Nat) (cv : CondVar Nat) (stands : s.workers[w]? = some .stopSignalling)
      (signalled : s.queue.cv.signal wake = some cv) :
      Effect ops host s (.stopSignal w wake) ({ s with queue := { s.queue with cv := cv } }.setWorker w .stopLeaving)
  | stopLeave (w : Nat) (stands : s.workers[w]? = some .stopLeaving) :
      Effect ops host s (.stopLeave w) ({ s with m := none, completed := true }.setWorker w .exited)
  | finishRaise (idle : s.finishing = false) :
      Effect ops host s .finishRaise { s with finishing := true, queue := s.queue.raiseFinished }
  | finishSignal (wake : Option Nat) (cv : CondVar Nat) (raised : s.finishing = true)
      (signalled : s.queue.cv.signal wake = some cv) :
      Effect ops host s (.finishSignal wake)
        { s with finishing := false, completed := true, queue := { s.queue with cv := cv } }

theorem step_effect (ops : QueueOps Queue Task Host Choice) (host : Nat → Host) (s next : Pool Queue Task)
    (label : PoolLabel Task Choice) (taken : s.step ops host label = some next) : Effect ops host s label next := by
  cases label with
  | push tasks wake =>
      simp only [step] at taken
      split at taken
      · rename_i free
        simp only [Option.map_eq_some_iff, TaskQueue.push_some] at taken
        obtain ⟨_, ⟨cv, signalled, rfl⟩, rfl⟩ := taken
        exact .push tasks wake cv free signalled
      · cases taken
  | acquire w =>
      simp only [step] at taken
      split at taken
      · rename_i n stands
        split at taken
        · rename_i ready
          cases taken
          exact .acquire w n stands ready.1 ready.2
        · cases taken
      · cases taken
  | check w wake =>
      simp only [step] at taken
      split at taken
      · rename_i n stands
        simp only [Option.map_eq_some_iff, Prod.exists] at taken
        obtain ⟨out, queue, turned, rfl⟩ := taken
        exact .check w n wake out queue stands turned
      · cases taken
  | leave w =>
      simp only [step] at taken
      split at taken
      · rename_i out stands
        cases taken
        exact .leave w out stands
      · cases taken
  | taskEnd w =>
      simp only [step] at taken
      split at taken
      · rename_i task stands
        cases taken
        exact .taskEnd w task stands
      · cases taken
  | fail w =>
      simp only [step] at taken
      split at taken
      · rename_i task stands
        cases taken
        exact .fail w task stands
      · cases taken
  | stopEnter w =>
      simp only [step] at taken
      split at taken
      · rename_i stands
        split at taken
        · rename_i free
          cases taken
          exact .stopEnter w stands free
        · cases taken
      · cases taken
  | stopRaise w =>
      simp only [step] at taken
      split at taken
      · rename_i stands
        cases taken
        exact .stopRaise w stands
      · cases taken
  | stopSignal w wake =>
      simp only [step] at taken
      split at taken
      · rename_i stands
        simp only [Option.map_eq_some_iff, TaskQueue.signal_some] at taken
        obtain ⟨_, ⟨cv, signalled, rfl⟩, rfl⟩ := taken
        exact .stopSignal w wake cv stands signalled
      · cases taken
  | stopLeave w =>
      simp only [step] at taken
      split at taken
      · rename_i stands
        cases taken
        exact .stopLeave w stands
      · cases taken
  | finishRaise =>
      simp only [step] at taken
      split at taken
      · rename_i idle
        cases taken
        exact .finishRaise idle
      · cases taken
  | finishSignal wake =>
      simp only [step] at taken
      split at taken
      · rename_i raised
        simp only [Option.map_eq_some_iff, TaskQueue.signal_some] at taken
        obtain ⟨_, ⟨cv, signalled, rfl⟩, rfl⟩ := taken
        exact .finishSignal wake cv raised signalled
      · cases taken

theorem effect_step (ops : QueueOps Queue Task Host Choice) (host : Nat → Host) (s next : Pool Queue Task)
    (label : PoolLabel Task Choice) (effect : Effect ops host s label next) : s.step ops host label = some next := by
  cases effect with
  | push tasks wake cv free signalled => simp only [step, if_pos free, TaskQueue.push, TaskQueue.signal, signalled, Option.map_some]
  | acquire w n stands free awake => simp only [step, stands, if_pos (And.intro free awake)]
  | check w n wake out queue stands turned => simp only [step, stands, turned, Option.map_some]
  | leave w out stands => simp only [step, stands]
  | taskEnd w task stands => simp only [step, stands]
  | fail w task stands => simp only [step, stands]
  | stopEnter w stands free => simp only [step, stands, if_pos free]
  | stopRaise w stands => simp only [step, stands]
  | stopSignal w wake cv stands signalled => simp only [step, stands, TaskQueue.signal, signalled, Option.map_some]
  | stopLeave w stands => simp only [step, stands]
  | finishRaise idle => simp only [step, if_pos idle]
  | finishSignal wake cv raised signalled => simp only [step, if_pos raised, TaskQueue.signal, signalled, Option.map_some]

end Pool

end Pwrake
