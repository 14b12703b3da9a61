import Pwrake.Lib.CondVar

set_option autoImplicit false

namespace Pwrake

-- What TaskQueue asks of the object in @q. A push may draw one random number.
structure QueueOps (Queue Task Host Choice : Type*) where
  push : Queue → Task → Choice → Queue
  pop : Queue → Host → Option Task × Queue
  popAlt : Queue → Host → Option Task × Queue
  clear : Queue → Queue
  isEmpty : Queue → Bool

abbrev SimpleQueue (Task : Type*) := List Task

namespace SimpleQueue

variable {Task : Type*}

def push (q : SimpleQueue Task) (x : Task) : SimpleQueue Task := q ++ [x]

def pop : SimpleQueue Task → Option Task × SimpleQueue Task
  | [] => (none, [])
  | x :: rest => (some x, rest)

def popAlt (q : SimpleQueue Task) : Option Task × SimpleQueue Task := (none, q)

def clear (_ : SimpleQueue Task) : SimpleQueue Task := []

def ops {Host : Type*} : QueueOps (SimpleQueue Task) Task Host Unit where
  push q x _ := push q x
  pop q _ := pop q
  popAlt q _ := popAlt q
  clear := clear
  isEmpty := List.isEmpty

end SimpleQueue

-- The mutex @m is not a field: each operation below is one synchronized block,
-- and the machines that split a block carry the owner of @m themselves.
structure TaskQueue (Queue Thread : Type*) where
  finished : Bool
  q : Queue
  cv : CondVar Thread
  thEnd : List Thread
deriving DecidableEq, Repr

inductive PopOutcome (Task : Type*) where
  | retired
  | closed
  | task (task : Task)
  | wait (n : Nat)
deriving DecidableEq, Repr

namespace TaskQueue

variable {Queue Task Host Choice Thread : Type*}

def new (q : Queue) : TaskQueue Queue Thread := ⟨false, q, .empty, []⟩

def threadEnd (queue : TaskQueue Queue Thread) (thread : Thread) : TaskQueue Queue Thread :=
  { queue with thEnd := queue.thEnd ++ [thread], cv := queue.cv.broadcast }

variable [DecidableEq Thread]

def signal (queue : TaskQueue Queue Thread) (wake : Option Thread) : Option (TaskQueue Queue Thread) :=
  (queue.cv.signal wake).map fun cv => { queue with cv := cv }

def pushAll (ops : QueueOps Queue Task Host Choice) (q : Queue) (tasks : List (Task × Choice)) : Queue :=
  tasks.foldl (fun q task => ops.push q task.1 task.2) q

def push (ops : QueueOps Queue Task Host Choice) (queue : TaskQueue Queue Thread)
    (tasks : List (Task × Choice)) (wake : Option Thread) : Option (TaskQueue Queue Thread) :=
  { queue with q := pushAll ops queue.q tasks }.signal wake

-- The part of pop's loop body after the tests of @th_end and @finished, with
-- the queue not empty. Every path through it signals once.
def take (ops : QueueOps Queue Task Host Choice) (q : Queue) (host : Host) (n : Nat) : PopOutcome Task × Queue :=
  match ops.pop q host with
  | (some task, q) => (.task task, q)
  | (none, q) =>
      if n > 1 then
        match ops.popAlt q host with
        | (some task, q) => (.task task, q)
        | (none, q) => (.wait (n + 1), q)
      else (.wait (n + 1), q)

omit [DecidableEq Thread] in
theorem take_cases (ops : QueueOps Queue Task Host Choice) (q : Queue) (host : Host) (n : Nat) :
    (∃ task, (take ops q host n).1 = .task task) ∨ (take ops q host n).1 = .wait (n + 1) := by
  unfold take
  split
  · exact .inl ⟨_, rfl⟩
  · split
    · split
      · exact .inl ⟨_, rfl⟩
      · exact .inr rfl
    · exact .inr rfl

-- One turn of the loop in pop, up to @cv.wait(@m) or a return. n counts the
-- turns of this call that found the queue non-empty and took nothing.
def popTurn (ops : QueueOps Queue Task Host Choice) (queue : TaskQueue Queue Thread) (self : Thread) (host : Host)
    (n : Nat) (wake : Option Thread) : Option (PopOutcome Task × TaskQueue Queue Thread) :=
  if queue.thEnd.head? = some self then some (.retired, { queue with thEnd := queue.thEnd.tail })
  else if queue.finished then (queue.signal wake).map fun queue => (.closed, queue)
  else if ops.isEmpty queue.q then some (.wait n, queue)
  else
    let taken := take ops queue.q host n
    ({ queue with q := taken.2 }.signal wake).map fun queue => (taken.1, queue)

-- finish is the assignment followed by the signal. stop clears the queue and
-- runs the same two under @m.
def raiseFinished (queue : TaskQueue Queue Thread) : TaskQueue Queue Thread := { queue with finished := true }

def finish (queue : TaskQueue Queue Thread) (wake : Option Thread) : Option (TaskQueue Queue Thread) :=
  queue.raiseFinished.signal wake

def clear (ops : QueueOps Queue Task Host Choice) (queue : TaskQueue Queue Thread) : TaskQueue Queue Thread :=
  { queue with q := ops.clear queue.q }

def stop (ops : QueueOps Queue Task Host Choice) (queue : TaskQueue Queue Thread) (wake : Option Thread) :
    Option (TaskQueue Queue Thread) :=
  (queue.clear ops).finish wake

theorem signal_some (queue next : TaskQueue Queue Thread) (wake : Option Thread) :
    queue.signal wake = some next ↔ ∃ cv, queue.cv.signal wake = some cv ∧ next = { queue with cv := cv } := by
  cases signalled : queue.cv.signal wake <;> simp [signal, signalled, eq_comm]

theorem push_some (ops : QueueOps Queue Task Host Choice) (queue next : TaskQueue Queue Thread)
    (tasks : List (Task × Choice)) (wake : Option Thread) :
    queue.push ops tasks wake = some next ↔
      ∃ cv, queue.cv.signal wake = some cv ∧ next = { queue with q := pushAll ops queue.q tasks, cv := cv } := by
  simp only [push, signal_some]

-- All that one turn can do, read off the source's branches in their order.
theorem pop_turn_cases (ops : QueueOps Queue Task Host Choice) (queue next : TaskQueue Queue Thread) (self : Thread)
    (host : Host) (n : Nat) (wake : Option Thread) (out : PopOutcome Task)
    (turned : queue.popTurn ops self host n wake = some (out, next)) :
    (queue.thEnd.head? = some self ∧ out = .retired ∧ next = { queue with thEnd := queue.thEnd.tail }) ∨
    (queue.thEnd.head? ≠ some self ∧ queue.finished = true ∧ out = .closed ∧
      ∃ cv, queue.cv.signal wake = some cv ∧ next = { queue with cv := cv }) ∨
    (queue.thEnd.head? ≠ some self ∧ queue.finished = false ∧ ops.isEmpty queue.q = true ∧ out = .wait n ∧ next = queue) ∨
    (queue.thEnd.head? ≠ some self ∧ queue.finished = false ∧ ops.isEmpty queue.q = false ∧
      out = (take ops queue.q host n).1 ∧
      ∃ cv, queue.cv.signal wake = some cv ∧ next = { queue with q := (take ops queue.q host n).2, cv := cv }) := by
  unfold popTurn at turned
  by_cases retires : queue.thEnd.head? = some self
  · simp only [if_pos retires, Option.some.injEq, Prod.mk.injEq] at turned
    exact .inl ⟨retires, turned.1.symm, turned.2.symm⟩
  · rw [if_neg retires] at turned
    cases closed : queue.finished with
    | true =>
        simp only [closed, if_true, Option.map_eq_some_iff, signal_some, Prod.mk.injEq] at turned
        obtain ⟨state, ⟨cv, signalled, rfl⟩, rfl, rfl⟩ := turned
        exact .inr (.inl ⟨retires, rfl, rfl, cv, signalled, rfl⟩)
    | false =>
        cases vacant : ops.isEmpty queue.q with
        | true =>
            simp only [closed, vacant, Bool.false_eq_true, if_false, if_true, Option.some.injEq, Prod.mk.injEq] at turned
            exact .inr (.inr (.inl ⟨retires, rfl, rfl, turned.1.symm, turned.2.symm⟩))
        | false =>
            simp only [closed, vacant, Bool.false_eq_true, if_false, Option.map_eq_some_iff, signal_some,
              Prod.mk.injEq] at turned
            obtain ⟨state, ⟨cv, signalled, rfl⟩, rfl, rfl⟩ := turned
            exact .inr (.inr (.inr ⟨retires, rfl, rfl, rfl, cv, signalled, rfl⟩))

-- A turn is never disabled: some choice of the woken thread always fits.
theorem pop_turn_enabled (ops : QueueOps Queue Task Host Choice) (queue : TaskQueue Queue Thread) (self : Thread)
    (host : Host) (n : Nat) : ∃ wake out next, queue.popTurn ops self host n wake = some (out, next) := by
  obtain ⟨wake, cv, signalled⟩ := CondVar.signal_enabled queue.cv
  refine ⟨wake, ?_⟩
  unfold popTurn
  split
  · exact ⟨_, _, rfl⟩
  · split
    · exact ⟨.closed, { queue with cv := cv }, by simp [signal, signalled]⟩
    · split
      · exact ⟨_, _, rfl⟩
      · exact ⟨(take ops queue.q host n).1, { queue with q := (take ops queue.q host n).2, cv := cv },
          by simp [signal, signalled]⟩

omit [DecidableEq Thread] in
theorem simple_push_all (q : SimpleQueue Task) (tasks : List (Task × Unit)) :
    pushAll (SimpleQueue.ops : QueueOps (SimpleQueue Task) Task Host Unit) q tasks = q ++ tasks.map Prod.fst := by
  induction tasks generalizing q with
  | nil => simp [pushAll]
  | cons task rest ih =>
      have step : pushAll (SimpleQueue.ops : QueueOps (SimpleQueue Task) Task Host Unit) q (task :: rest) =
          pushAll SimpleQueue.ops (q ++ [task.1]) rest := rfl
      rw [step, ih]
      simp

-- On a SimpleQueue a turn takes the head of a non-empty queue, whoever asks
-- and however often it asked before; it waits only when the queue is empty.
theorem simple_pop_turn_cases (queue next : TaskQueue (SimpleQueue Task) Thread) (self : Thread) (host : Host)
    (n : Nat) (wake : Option Thread) (out : PopOutcome Task)
    (turned : queue.popTurn SimpleQueue.ops self host n wake = some (out, next)) :
    (queue.thEnd.head? = some self ∧ out = .retired ∧ next = { queue with thEnd := queue.thEnd.tail }) ∨
    (queue.thEnd.head? ≠ some self ∧ queue.finished = true ∧ out = .closed ∧
      ∃ cv, queue.cv.signal wake = some cv ∧ next = { queue with cv := cv }) ∨
    (queue.thEnd.head? ≠ some self ∧ queue.finished = false ∧ queue.q = [] ∧ out = .wait n ∧ next = queue) ∨
    (queue.thEnd.head? ≠ some self ∧ queue.finished = false ∧
      ∃ task rest cv, queue.q = task :: rest ∧ out = .task task ∧
        queue.cv.signal wake = some cv ∧ next = { queue with q := rest, cv := cv }) := by
  rcases pop_turn_cases SimpleQueue.ops queue next self host n wake out turned with
    retired | closed | ⟨notHead, opened, vacant, waits, same⟩ | ⟨notHead, opened, occupied, took, cv, signalled, rest⟩
  · exact .inl retired
  · exact .inr (.inl closed)
  · exact .inr (.inr (.inl ⟨notHead, opened, List.isEmpty_iff.mp vacant, waits, same⟩))
  · cases content : queue.q with
    | nil => simp [SimpleQueue.ops, content] at occupied
    | cons task tail =>
        rw [content] at took rest
        exact .inr (.inr (.inr ⟨notHead, opened, task, tail, cv, rfl, took, signalled, rest⟩))

end TaskQueue

end Pwrake
