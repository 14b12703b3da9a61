import Pwrake.Crew

set_option autoImplicit false

namespace Pwrake

-- The Operator with Thread.current[:connection] of every thread. The main
-- thread has none, and worker i is given connection i.
structure Connected (Task Name : Type*) where
  operator : Operator Task Name
  connection : List (Option Nat)

-- A step of the Operator, or an action that rescues the exception that left its
-- call of Task#invoke (a cycle, a name without a task, "b is not included in a").
inductive ConnectedLabel (Task : Type*) where
  | operator (label : OperatorLabel Task)
  | rescue (w : Nat)

namespace Connected

open Operator

variable {Task Name Scope : Type*}

def new (n : Nat) (names : List Name) : Connected Task Name := ⟨.new n names, none :: (List.range n).map some⟩

-- Thread.new(conn,j) of a nested invoke: conn is the caller's own connection.
def inherit (c : Connected Task Name) : OperatorLabel Task → List (Option Nat)
  | .call w _ => c.connection ++ [c.connection.getD w none]
  | _ => c.connection

-- invoke has no ensure clause: an exception leaves it before thread_end and join,
-- so the thread it made is still there when the action goes on.
def rescued (c : Connected Task Name) (w : Nat) : Option (Connected Task Name) :=
  match c.operator.threads[w]? with
  | some (.invoking inv .raised) => inv.nested.map fun (task, _) => { c with operator := c.operator.setThread w (.running task) }
  | _ => none

def step [DecidableEq Task] [Fintype Task] (app : Application Task Name Scope) (c : Connected Task Name) :
    ConnectedLabel Task → Option (Connected Task Name)
  | .operator label => (c.operator.step app label).map fun next => ⟨next, c.inherit label⟩
  | .rescue w => c.rescued w

def finishes : OperatorLabel Task → Bool
  | .finish _ => true
  | _ => false

def beforeFinish : ConnectedLabel Task → Bool
  | .operator label => !finishes label
  | .rescue _ => true

def unrescued : ConnectedLabel Task → Bool
  | .operator label => !finishes label
  | .rescue _ => false

def BeforeFinish (_ : Connected Task Name) (label : ConnectedLabel Task) : Prop := beforeFinish label = true

-- Before finish, and no action goes on after an exception left its call.
def Unrescued (_ : Connected Task Name) (label : ConnectedLabel Task) : Prop := unrescued label = true

instance (c : Connected Task Name) (label : ConnectedLabel Task) : Decidable (BeforeFinish c label) :=
  inferInstanceAs (Decidable (beforeFinish label = true))

instance (c : Connected Task Name) (label : ConnectedLabel Task) : Decidable (Unrescued c label) :=
  inferInstanceAs (Decidable (unrescued label = true))

def alive : ThreadPc Task → Bool
  | .exited => false
  | _ => true

-- The thread that stands in for one inside Operator#invoke, from Thread.new to
-- the return of thread.join.
def standin : ThreadPc Task → Option Nat
  | .invoking inv _ => inv.nested.map Prod.snd
  | _ => none

-- In thread_loop itself: popping, or with a task whose action runs and issues
-- its commands here. Inside invoke the action waits.
def inLoop : ThreadPc Task → Bool
  | .popping _ | .popped _ | .running _ | .executed _ => true
  | _ => false

def serving : ThreadPc Task → Bool
  | .popping _ => true
  | _ => false

def hasTask : ThreadPc Task → Bool
  | .popped _ | .running _ | .executed _ => true
  | .invoking inv _ => inv.nested.isSome
  | _ => false

def joins : ThreadPc Task → Bool
  | .invoking _ (.joining _) => true
  | _ => false

def Stands (c : Connected Task Name) (t : Nat) (place : ThreadPc Task → Bool) : Prop :=
  ∃ pc, c.operator.threads[t]? = some pc ∧ place pc = true

def bound (c : Connected Task Name) (conn t : Nat) : Bool :=
  c.connection[t]? == some (some conn) && c.operator.threads[t]?.any alive

-- The live threads of a connection, oldest first.
def crew (c : Connected Task Name) (conn : Nat) : List Nat :=
  (List.range c.operator.threads.length).filter (c.bound conn)

def ReplacedBy (c : Connected Task Name) (t u : Nat) : Prop :=
  ∃ pc, c.operator.threads[t]? = some pc ∧ standin pc = some u

structure OneActive (c : Connected Task Name) : Prop where
  chain : ∀ conn, (c.crew conn).IsChain c.ReplacedBy
  active : ∀ conn, ∀ t ∈ c.crew conn, ∀ u ∈ c.crew conn, c.Stands t inLoop → c.Stands u inLoop → t = u
  relieved : ∀ (t u : Nat) pc, c.operator.threads[t]? = some pc → standin pc = some u → joins pc = false →
    ∃ conn, t ∈ c.crew conn ∧ u ∈ c.crew conn ∧ (c.Stands u serving ∨ c.Stands u hasTask)

-- The threads of one connection seen pairwise: of two live ones the older is
-- replaced, by a live thread that is at most as young as the other.
structure Stacked (c : Connected Task Name) : Prop where
  sized : c.connection.length = c.operator.threads.length
  placed : ∀ t pc, c.operator.threads[t + 1]? = some pc → ∃ conn, c.connection[t + 1]? = some (some conn)
  younger : ∀ t u, c.ReplacedBy t u → t < u ∧ c.connection[u]? = c.connection[t]?
  stacked : ∀ conn t u, c.bound conn t = true → c.bound conn u = true → t < u →
    ∃ v, c.ReplacedBy t v ∧ v ≤ u ∧ c.bound conn v = true

inductive Turn (c after : Connected Task Name) : Prop where
  | moves (w : Nat) (old pc : ThreadPc Task) (stands : c.operator.threads[w]? = some old)
      (threads : after.operator.threads = c.operator.threads.set w pc) (connection : after.connection = c.connection)
      (living : alive pc = alive old) (same : standin pc = standin old)
  | leaves (w : Nat) (old : ThreadPc Task) (stands : c.operator.threads[w]? = some old)
      (threads : after.operator.threads = c.operator.threads.set w .exited) (connection : after.connection = c.connection)
      (alone : standin old = none)
  | calls (w : Nat) (old pc : ThreadPc Task) (stands : c.operator.threads[w]? = some old)
      (threads : after.operator.threads = c.operator.threads.set w pc ++ [.popping 0])
      (connection : after.connection = c.connection ++ [c.connection.getD w none])
      (worker : w ≠ mainThread) (running : alive old = true) (alone : standin old = none) (living : alive pc = true)
      (replaced : standin pc = some c.operator.threads.length)
  | returns (w : Nat) (old pc : ThreadPc Task) (stands : c.operator.threads[w]? = some old)
      (threads : after.operator.threads = c.operator.threads.set w pc) (connection : after.connection = c.connection)
      (gone : ∀ u, standin old = some u → c.operator.threads[u]? = some .exited) (running : alive old = true)
      (living : alive pc = true) (alone : standin pc = none)

section Turns

variable [DecidableEq Task] [Fintype Task] {app : Application Task Name Scope}

theorem step_turn (c after : Connected Task Name) (label : OperatorLabel Task) (roles : Roles c.operator)
    (standins : Standins c.operator) (taken : c.step app (.operator label) = some after) : Turn c after := by
  obtain ⟨next, stepped, rfl⟩ := Option.map_eq_some_iff.mp taken
  have effect := step_effect app c.operator next label stepped
  have onward : ∀ (w : Nat) (inv : Invocation Task) (stage other : InvokePc) (label : OperatorLabel Task)
      (after : Operator Task Name), c.operator.threads[w]? = some (.invoking inv stage) →
      after.threads = c.operator.threads.set w (.invoking inv other) → c.inherit label = c.connection →
      Turn c ⟨after, c.inherit label⟩ := by
    intro w inv stage other label after stands threads connection
    exact .moves w _ (.invoking inv other) stands threads connection rfl rfl
  cases effect with
  | popRetired w n wake stands => exact .leaves w _ stands rfl rfl rfl
  | popClosed w n wake cv stands => exact .leaves w _ stands rfl rfl rfl
  | popWait w n wake stands => exact .moves w _ (.popping n) stands rfl rfl rfl rfl
  | popTask w n wake cv task rest stands => exact .moves w _ (.popped task) stands rfl rfl rfl rfl
  | start w task stands => exact .moves w _ (.running task) stands rfl rfl rfl rfl
  | call w root task stands =>
      refine .calls w _ _ stands rfl rfl ?_ rfl rfl rfl rfl
      rintro rfl
      obtain ⟨pc, read, ofMain⟩ := roles.main
      rw [stands] at read
      cases read
      exact ofMain
  | taskEnd w task stands => exact .moves w _ (.executed task) stands rfl rfl rfl rfl
  | complete w i task content stands => exact .moves w _ (.popping 0) stands rfl rfl rfl rfl
  | reset w inv stands => exact onward w inv _ .trace _ _ stands rfl rfl
  | traceBatch w needed inv status tracerState stands =>
      exact onward w inv _ (.assign c.operator.fetchedTasks) _ _ stands rfl rfl
  | traceNil w needed inv tracerState stands =>
      refine .moves w _ (afterLoop inv) stands rfl rfl ?_ ?_
      · unfold afterLoop
        split <;> rfl
      · unfold afterLoop
        split
        · rename_i alone
          simp [standin, alone]
        · rfl
  | traceError w needed inv error tracerState stands => exact onward w inv _ .raised _ _ stands rfl rfl
  | assign w a inv stands => exact onward w inv _ (.push a) _ _ stands rfl rfl
  | push w a inv wake cv stands => exact onward w inv _ (.collect a 0) _ _ stands rfl rfl
  | collect w a count inv b rest stands => exact onward w inv _ (.collect a (count + 1)) _ _ stands rfl rfl
  | stray w a taken inv b rest stands => exact onward w inv _ .raised _ _ stands rfl rfl
  | again w a taken inv stands => exact onward w inv _ .reset _ _ stands rfl rfl
  | threadEnd w thread inv task stands => exact onward w inv _ (.joining thread) _ _ stands rfl rfl
  | join w thread own inv task stands nested gone =>
      refine .returns w _ (.running task) stands rfl rfl (fun u replaced => ?_) rfl rfl rfl
      obtain ⟨⟨hers, same⟩, -⟩ := standins.joining w inv thread stands
      simp only [standin, same, Option.map_some, Option.some.injEq] at replaced
      exact replaced ▸ gone
  | invokeTask name rest root stands => exact .moves mainThread _ _ stands rfl rfl rfl rfl
  | invokeUnknown name rest stands => exact .leaves mainThread _ stands rfl rfl rfl
  | finish wake cv stands => exact .moves mainThread _ .joinWorkers stands rfl rfl rfl rfl
  | joinWorkers stands => exact .moves mainThread _ .idle stands rfl rfl rfl rfl

end Turns

theorem bound_iff (c : Connected Task Name) (conn t : Nat) : c.bound conn t = true ↔
    c.connection[t]? = some (some conn) ∧ c.Stands t alive := by
  simp [bound, Stands, Option.any_eq_true]

theorem crew_member (c : Connected Task Name) (conn t : Nat) : t ∈ c.crew conn ↔ c.bound conn t = true := by
  rw [crew, List.mem_filter, List.mem_range, and_iff_right_iff_imp, bound_iff]
  rintro ⟨-, pc, read, -⟩
  exact (List.getElem?_eq_some_iff.mp read).1

theorem stands_once (c : Connected Task Name) (t : Nat) (pc : ThreadPc Task) (read : c.operator.threads[t]? = some pc)
    (place : ThreadPc Task → Bool) : c.Stands t place ↔ place pc = true := by
  constructor
  · rintro ⟨found, there, holds⟩
    rw [read] at there
    cases there
    exact holds
  · exact fun holds => ⟨pc, read, holds⟩

theorem replaced_once (c : Connected Task Name) (t u : Nat) (pc : ThreadPc Task) (read : c.operator.threads[t]? = some pc) :
    c.ReplacedBy t u ↔ standin pc = some u := by
  constructor
  · rintro ⟨found, there, holds⟩
    rw [read] at there
    cases there
    exact holds
  · exact fun holds => ⟨pc, read, holds⟩

-- Of the threads of one connection, one that nobody replaces is the newest.
theorem unreplaced_newest (c : Connected Task Name) (stacked : Stacked c) (conn w u : Nat) (pc : ThreadPc Task)
    (stands : c.operator.threads[w]? = some pc) (alone : standin pc = none) (here : c.bound conn w = true)
    (there : c.bound conn u = true) : u ≤ w := by
  by_contra newer
  obtain ⟨v, replaced, -⟩ := stacked.stacked conn w u here there (Nat.lt_of_not_le newer)
  rw [replaced_once c w v pc stands, alone] at replaced
  cases replaced

section Tables

variable {c after : Connected Task Name}

theorem bound_congr (conn t : Nat) (threads : after.operator.threads[t]? = c.operator.threads[t]?)
    (connection : after.connection[t]? = c.connection[t]?) : after.bound conn t = c.bound conn t := by
  rw [bound, bound, threads, connection]

theorem replaced_congr (t u : Nat) (threads : after.operator.threads[t]? = c.operator.threads[t]?) :
    after.ReplacedBy t u ↔ c.ReplacedBy t u := by
  rw [ReplacedBy, ReplacedBy, threads]

theorem overwritten (w : Nat) (old pc : ThreadPc Task) (stands : c.operator.threads[w]? = some old)
    (threads : after.operator.threads = c.operator.threads.set w pc) (connection : after.connection = c.connection) :
    after.operator.threads[w]? = some pc ∧ ∀ conn t, t ≠ w → after.bound conn t = c.bound conn t ∧
      ∀ u, after.ReplacedBy t u ↔ c.ReplacedBy t u := by
  have lookup := fun t => Slots.lookup_set c.operator.threads w t old pc stands
  refine ⟨by rw [threads, lookup, if_pos rfl], fun conn t apart => ?_⟩
  have same : after.operator.threads[t]? = c.operator.threads[t]? := by rw [threads, lookup, if_neg apart]
  exact ⟨bound_congr conn t same (by rw [connection]), fun u => replaced_congr t u same⟩

theorem stacked_set (w : Nat) (old pc : ThreadPc Task) (stacked : Stacked c) (stands : c.operator.threads[w]? = some old)
    (threads : after.operator.threads = c.operator.threads.set w pc) (connection : after.connection = c.connection)
    (replaced : ∀ u, standin pc = some u → standin old = some u)
    (order : ∀ conn t u, after.bound conn t = true → after.bound conn u = true → t < u →
      ∃ v, after.ReplacedBy t v ∧ v ≤ u ∧ after.bound conn v = true) : Stacked after where
  sized := by rw [connection, threads, List.length_set, stacked.sized]
  placed := by
    intro t found read
    rw [connection]
    rw [threads] at read
    rcases Slots.lookup_set_cases c.operator.threads w (t + 1) pc found read with ⟨rfl, -⟩ | ⟨-, earlier⟩
    · exact stacked.placed t old stands
    · exact stacked.placed t found earlier
  younger := by
    intro t u isReplaced
    rw [connection]
    apply stacked.younger t u
    obtain ⟨here, others⟩ := overwritten w old pc stands threads connection
    by_cases same : t = w
    · subst same
      exact ⟨old, stands, replaced u ((replaced_once after t u pc here).mp isReplaced)⟩
    · exact ((others 0 t same).2 u).mp isReplaced
  stacked := order

theorem bound_overwritten (w : Nat) (old pc : ThreadPc Task) (stands : c.operator.threads[w]? = some old)
    (threads : after.operator.threads = c.operator.threads.set w pc) (connection : after.connection = c.connection)
    (living : alive pc = alive old) (conn t : Nat) : after.bound conn t = c.bound conn t := by
  obtain ⟨here, others⟩ := overwritten w old pc stands threads connection
  by_cases own : t = w
  · rw [own, Connected.bound, Connected.bound, connection, here, stands, Option.any_some, Option.any_some, living]
  · exact (others conn t own).1

theorem stacked_moves (w : Nat) (old pc : ThreadPc Task) (stacked : Stacked c) (stands : c.operator.threads[w]? = some old)
    (threads : after.operator.threads = c.operator.threads.set w pc) (connection : after.connection = c.connection)
    (living : alive pc = alive old) (same : standin pc = standin old) : Stacked after := by
  obtain ⟨here, others⟩ := overwritten w old pc stands threads connection
  have bound := bound_overwritten w old pc stands threads connection living
  have replaced : ∀ t u, after.ReplacedBy t u ↔ c.ReplacedBy t u := by
    intro t u
    by_cases own : t = w
    · rw [own, replaced_once after w u pc here, replaced_once c w u old stands, same]
    · exact (others 0 t own).2 u
  refine stacked_set w old pc stacked stands threads connection (fun u isReplaced => same ▸ isReplaced) ?_
  intro conn t u left right older
  rw [bound] at left right
  obtain ⟨v, isReplaced, before, live⟩ := stacked.stacked conn t u left right older
  exact ⟨v, (replaced t v).mpr isReplaced, before, by rw [bound]; exact live⟩

theorem stacked_leaves (w : Nat) (old : ThreadPc Task) (stacked : Stacked c) (stands : c.operator.threads[w]? = some old)
    (threads : after.operator.threads = c.operator.threads.set w .exited) (connection : after.connection = c.connection)
    (alone : standin old = none) : Stacked after := by
  obtain ⟨here, others⟩ := overwritten w old .exited stands threads connection
  have remaining : ∀ conn t, after.bound conn t = true → t ≠ w ∧ c.bound conn t = true := by
    intro conn t live
    by_cases own : t = w
    · rw [own, bound_iff, stands_once after w _ here] at live
      exact absurd live.2 (by simp [alive])
    · exact ⟨own, (others conn t own).1 ▸ live⟩
  refine stacked_set w old .exited stacked stands threads connection (by simp [standin]) ?_
  intro conn t u left right older
  obtain ⟨apart, left⟩ := remaining conn t left
  obtain ⟨different, right⟩ := remaining conn u right
  obtain ⟨v, isReplaced, before, live⟩ := stacked.stacked conn t u left right older
  have present : v ≠ w := by
    rintro rfl
    have newest := unreplaced_newest c stacked conn v u old stands alone live right
    exact different (Nat.le_antisymm newest before)
  exact ⟨v, ((others conn t apart).2 v).mpr isReplaced, before, by rw [(others conn v present).1]; exact live⟩

-- The stand-in has exited, so the thread it stood in for is the newest again.
theorem stacked_returns (w : Nat) (old pc : ThreadPc Task) (stacked : Stacked c) (stands : c.operator.threads[w]? = some old)
    (threads : after.operator.threads = c.operator.threads.set w pc) (connection : after.connection = c.connection)
    (gone : ∀ u, standin old = some u → c.operator.threads[u]? = some .exited) (running : alive old = true)
    (living : alive pc = true) (alone : standin pc = none) : Stacked after := by
  obtain ⟨here, others⟩ := overwritten w old pc stands threads connection
  have bound := bound_overwritten w old pc stands threads connection (living.trans running.symm)
  refine stacked_set w old pc stacked stands threads connection (by simp [alone]) ?_
  intro conn t u left right older
  rw [bound] at left right
  obtain ⟨v, isReplaced, before, live⟩ := stacked.stacked conn t u left right older
  have apart : t ≠ w := by
    rintro rfl
    have exited := gone v ((replaced_once c t v old stands).mp isReplaced)
    rw [bound_iff, stands_once c v _ exited] at live
    exact absurd live.2 (by simp [alive])
  exact ⟨v, ((others conn t apart).2 v).mpr isReplaced, before, by rw [bound]; exact live⟩

-- The tables after Thread.new(conn,j): the caller's cell is overwritten, and a
-- thread of the same connection is at the end of both.
structure Enlisted (c after : Connected Task Name) (w : Nat) (pc : ThreadPc Task) (conn : Nat) : Prop where
  row : c.connection[w]? = some (some conn)
  freshRow : after.connection[c.operator.threads.length]? = some (some conn)
  own : after.operator.threads[w]? = some pc
  fresh : after.operator.threads[c.operator.threads.length]? = some (.popping 0)
  size : after.operator.threads.length = c.operator.threads.length + 1
  sized : after.connection.length = after.operator.threads.length
  rows : ∀ t, t < c.operator.threads.length → after.connection[t]? = c.connection[t]?
  bound : ∀ other t, t < c.operator.threads.length → after.bound other t = c.bound other t
  replaced : ∀ t u, t < c.operator.threads.length → t ≠ w → (after.ReplacedBy t u ↔ c.ReplacedBy t u)

theorem enlisted (w : Nat) (old pc : ThreadPc Task) (stacked : Stacked c) (stands : c.operator.threads[w]? = some old)
    (threads : after.operator.threads = c.operator.threads.set w pc ++ [.popping 0])
    (connection : after.connection = c.connection ++ [c.connection.getD w none]) (worker : w ≠ mainThread)
    (running : alive old = true) (living : alive pc = true) : ∃ conn, Enlisted c after w pc conn := by
  have inside : w < c.operator.threads.length := (List.getElem?_eq_some_iff.mp stands).1
  obtain ⟨k, rfl⟩ := Nat.exists_eq_succ_of_ne_zero worker
  obtain ⟨conn, row⟩ := stacked.placed k old stands
  have rows : ∀ t, t < c.operator.threads.length → after.connection[t]? = c.connection[t]? := by
    intro t within
    rw [connection, List.getElem?_append_left (by rw [stacked.sized]; exact within)]
  have lookup : ∀ t, t < c.operator.threads.length →
      after.operator.threads[t]? = (c.operator.threads.set (k + 1) pc)[t]? := by
    intro t within
    rw [threads, List.getElem?_append_left (by rw [List.length_set]; exact within)]
  have own : after.operator.threads[k + 1]? = some pc := by
    rw [lookup _ inside, Slots.lookup_set c.operator.threads _ _ old pc stands, if_pos rfl]
  have elsewhere : ∀ t, t < c.operator.threads.length → t ≠ k + 1 →
      after.operator.threads[t]? = c.operator.threads[t]? := by
    intro t within apart
    rw [lookup t within, List.getElem?_set_ne (Ne.symm apart)]
  have length : (c.operator.threads.set (k + 1) pc).length = c.operator.threads.length := List.length_set
  have size : after.operator.threads.length = c.operator.threads.length + 1 := by simp [threads]
  refine ⟨conn, row, ?_, own, ?_, size, ?_, rows, ?_, fun t u within apart => replaced_congr t u (elsewhere t within apart)⟩
  · rw [connection, ← stacked.sized, List.getElem?_concat_length, List.getD_eq_getElem?_getD, row, Option.getD_some]
  · rw [threads, ← length, List.getElem?_concat_length]
  · rw [connection, size, List.length_append, stacked.sized, List.length_singleton]
  · intro other t within
    by_cases same : t = k + 1
    · rw [same, Connected.bound, Connected.bound, rows _ inside, own, stands, Option.any_some, Option.any_some, living, running]
    · exact bound_congr other t (elsewhere t within same) (rows t within)

theorem enlisted_younger (w conn : Nat) (old pc : ThreadPc Task) (stacked : Stacked c)
    (stands : c.operator.threads[w]? = some old) (changed : Enlisted c after w pc conn)
    (replaced : standin pc = some c.operator.threads.length) (t u : Nat) (isReplaced : after.ReplacedBy t u) :
    t < u ∧ after.connection[u]? = after.connection[t]? := by
  have inside : w < c.operator.threads.length := (List.getElem?_eq_some_iff.mp stands).1
  obtain ⟨found, read, named⟩ := isReplaced
  have within := (List.getElem?_eq_some_iff.mp read).1
  have size := changed.size
  by_cases last : t = c.operator.threads.length
  · rw [last, changed.fresh] at read
    cases read
    cases named
  · have earlier : t < c.operator.threads.length := by omega
    by_cases same : t = w
    · rw [same, changed.own] at read
      cases read
      rw [replaced] at named
      cases named
      rw [same, changed.freshRow, changed.rows _ inside, changed.row]
      exact ⟨inside, rfl⟩
    · obtain ⟨before, shared⟩ := stacked.younger t u ((changed.replaced t u earlier same).mp ⟨found, read, named⟩)
      have later : u < c.operator.threads.length := by
        obtain ⟨row, present⟩ : ∃ row, c.connection[t]? = some row :=
          ⟨_, List.getElem?_eq_getElem (by rw [stacked.sized]; exact earlier)⟩
        rw [present] at shared
        exact stacked.sized ▸ (List.getElem?_eq_some_iff.mp shared).1
      exact ⟨before, by rw [changed.rows u later, changed.rows t earlier, shared]⟩

-- The caller was the newest of its connection, and the new thread follows it.
theorem enlisted_stacked (w own : Nat) (old pc : ThreadPc Task) (stacked : Stacked c)
    (stands : c.operator.threads[w]? = some old) (changed : Enlisted c after w pc own) (running : alive old = true)
    (alone : standin old = none) (replaced : standin pc = some c.operator.threads.length) (conn t u : Nat)
    (left : after.bound conn t = true) (right : after.bound conn u = true) (older : t < u) :
    ∃ v, after.ReplacedBy t v ∧ v ≤ u ∧ after.bound conn v = true := by
  have inside : w < c.operator.threads.length := (List.getElem?_eq_some_iff.mp stands).1
  have size := changed.size
  have within : u < after.operator.threads.length := by
    obtain ⟨-, pc, read, -⟩ := (bound_iff after conn u).mp right
    exact (List.getElem?_eq_some_iff.mp read).1
  have earlier : t < c.operator.threads.length := by omega
  rw [changed.bound conn t earlier] at left
  by_cases last : u = c.operator.threads.length
  · have ownBound : c.bound conn w = true := by
      rw [last, bound_iff, changed.freshRow] at right
      rw [bound_iff, changed.row]
      exact ⟨right.1, old, stands, running⟩
    by_cases same : t = w
    · exact ⟨c.operator.threads.length, ⟨pc, same ▸ changed.own, replaced⟩, last.ge, last ▸ right⟩
    · have newest := unreplaced_newest c stacked conn w t old stands alone ownBound left
      obtain ⟨v, isReplaced, before, live⟩ := stacked.stacked conn t w left ownBound (by omega)
      exact ⟨v, (changed.replaced t v earlier same).mpr isReplaced, by omega, by rw [changed.bound conn v (by omega)]; exact live⟩
  · have later : u < c.operator.threads.length := by omega
    rw [changed.bound conn u later] at right
    obtain ⟨v, isReplaced, before, live⟩ := stacked.stacked conn t u left right older
    have apart : t ≠ w := by
      rintro rfl
      rw [replaced_once c t v old stands, alone] at isReplaced
      cases isReplaced
    exact ⟨v, (changed.replaced t v earlier apart).mpr isReplaced, before, by rw [changed.bound conn v (by omega)]; exact live⟩

theorem stacked_calls (w : Nat) (old pc : ThreadPc Task) (stacked : Stacked c) (stands : c.operator.threads[w]? = some old)
    (threads : after.operator.threads = c.operator.threads.set w pc ++ [.popping 0])
    (connection : after.connection = c.connection ++ [c.connection.getD w none]) (worker : w ≠ mainThread)
    (running : alive old = true) (alone : standin old = none) (living : alive pc = true)
    (replaced : standin pc = some c.operator.threads.length) : Stacked after := by
  obtain ⟨own, changed⟩ := enlisted w old pc stacked stands threads connection worker running living
  refine ⟨changed.sized, ?_, enlisted_younger w own old pc stacked stands changed replaced,
    enlisted_stacked w own old pc stacked stands changed running alone replaced⟩
  intro t found read
  have within := (List.getElem?_eq_some_iff.mp read).1
  have size := changed.size
  by_cases last : t + 1 = c.operator.threads.length
  · exact ⟨own, by rw [last, changed.freshRow]⟩
  · have earlier : t + 1 < c.operator.threads.length := by omega
    rw [changed.rows _ earlier]
    exact stacked.placed t _ (List.getElem?_eq_getElem earlier)

end Tables

theorem stacked_turn (c after : Connected Task Name) (stacked : Stacked c) (turn : Turn c after) : Stacked after := by
  cases turn with
  | moves w old pc stands threads connection living same =>
      exact stacked_moves w old pc stacked stands threads connection living same
  | leaves w old stands threads connection alone => exact stacked_leaves w old stacked stands threads connection alone
  | calls w old pc stands threads connection worker running alone living replaced =>
      exact stacked_calls w old pc stacked stands threads connection worker running alone living replaced
  | returns w old pc stands threads connection gone running living alone =>
      exact stacked_returns w old pc stacked stands threads connection gone running living alone

structure Staffed (c : Connected Task Name) : Prop where
  roles : Roles c.operator
  standins : Standins c.operator
  unfinished : c.operator.inputQueue.finished = false
  stacked : Stacked c

theorem staffed_new (n : Nat) (names : List Name) : Staffed (new n names : Connected Task Name) where
  roles := roles_new n names
  standins := standins_new n names
  unfinished := rfl
  stacked := by
    have nobody : ∀ (t : Nat) (u : Nat), ¬ (new n names : Connected Task Name).ReplacedBy t u := by
      rintro t u ⟨pc, read, isReplaced⟩
      cases t with
      | zero =>
          cases read
          cases isReplaced
      | succ t =>
          cases Slots.lookup_replicate n t _ _ read
          cases isReplaced
    refine ⟨by simp [new, Operator.new], fun t pc read => ?_, fun t u isReplaced => absurd isReplaced (nobody t u),
      fun conn t u left right older => ?_⟩
    · have within : t < n := by simpa [new, Operator.new] using (List.getElem?_eq_some_iff.mp read).1
      exact ⟨t, by simp [new, within]⟩
    · have row : ∀ v, (new n names : Connected Task Name).bound conn v = true → v = conn + 1 := by
        intro v live
        obtain ⟨row, -⟩ := (bound_iff _ conn v).mp live
        cases v with
        | zero => simp [new] at row
        | succ v =>
            have entry : (List.range n)[v]? = some conn := by simpa [new] using row
            obtain ⟨within, same⟩ := List.getElem?_eq_some_iff.mp entry
            rw [← same, List.getElem_range]
      exact absurd older (by rw [row t left, row u right]; exact Nat.lt_irrefl _)

section Runs

variable [DecidableEq Task] [Fintype Task] {app : Application Task Name Scope}

theorem unfinished_step (s next : Operator Task Name) (label : OperatorLabel Task) (effect : Effect app s label next)
    (before : finishes label = false) (unfinished : s.inputQueue.finished = false) : next.inputQueue.finished = false := by
  cases effect with
  | finish wake cv stands => cases before
  | _ => exact unfinished

theorem staffed_step (c after : Connected Task Name) (label : OperatorLabel Task) (staffed : Staffed c)
    (before : finishes label = false) (taken : c.step app (.operator label) = some after) : Staffed after := by
  have stacked := stacked_turn c after staffed.stacked (step_turn c after label staffed.roles staffed.standins taken)
  obtain ⟨next, stepped, rfl⟩ := Option.map_eq_some_iff.mp taken
  have effect := step_effect app c.operator next label stepped
  have quiet : c.operator.inputQueue.finished = true →
      ∀ (w : Nat) inv stage, c.operator.threads[w]? = some (.invoking inv stage) → inv.nested = none := by
    intro finished
    rw [staffed.unfinished] at finished
    cases finished
  exact ⟨roles_step _ next label staffed.roles effect, standins_step _ next label staffed.standins staffed.roles effect quiet,
    unfinished_step _ next label effect before staffed.unfinished, stacked⟩

theorem staffed_run (n : Nat) (names : List Name) (c : Connected Task Name)
    (run : Machine.Run (step app) Unrescued (new n names) c) : Staffed c := by
  refine Machine.run_invariant Staffed (new n names) (staffed_new n names)
    (fun before after label _ staffed allowed taken => ?_) c run
  cases label with
  | operator label => exact staffed_step before after label staffed (by simpa [Unrescued, unrescued] using allowed) taken
  | rescue w => cases allowed

-- The connections steer nothing: every run of the Operator has them.
theorem connected_run (n : Nat) (names : List Name) (s : Operator Task Name)
    (run : Machine.Run (Operator.step app) (fun _ label => finishes label = false) (.new n names) s) :
    ∃ c, Machine.Run (step app) Unrescued (new n names) c ∧ c.operator = s := by
  refine Machine.run_simulates (fun s c => Connected.operator c = s) (.new n names) (new n names) rfl ?_ s run
  rintro before after label c - rfl allowed taken
  have moved : c.step app (.operator label) = some ⟨after, c.inherit label⟩ := by rw [step, taken, Option.map_some]
  exact ⟨⟨after, c.inherit label⟩, Machine.run_single c _ (.operator label) (by simp [Unrescued, unrescued, allowed]) moved, rfl⟩

end Runs

theorem staffed_chain (c : Connected Task Name) (staffed : Staffed c) (conn : Nat) : (c.crew conn).IsChain c.ReplacedBy := by
  apply Slots.chain_of_successor
  · exact (List.sortedLT_range _).pairwise.filter _
  · intro t here u there older
    obtain ⟨v, isReplaced, before, live⟩ := staffed.stacked.stacked conn t u ((crew_member c conn t).mp here)
      ((crew_member c conn u).mp there) older
    exact ⟨v, (crew_member c conn v).mpr live, isReplaced, (staffed.stacked.younger t v isReplaced).1, before⟩

theorem staffed_active (c : Connected Task Name) (staffed : Staffed c) (conn t u : Nat) (here : t ∈ c.crew conn)
    (there : u ∈ c.crew conn) (stands : c.Stands t inLoop) (elsewhere : c.Stands u inLoop) : t = u := by
  have alone : ∀ pc : ThreadPc Task, inLoop pc = true → standin pc = none := by
    intro pc inside
    cases pc with
    | invoking inv stage => cases inside
    | _ => rfl
  obtain ⟨pc, read, inside⟩ := stands
  obtain ⟨other, found, within⟩ := elsewhere
  rw [crew_member] at here there
  exact Nat.le_antisymm
    (unreplaced_newest c staffed.stacked conn u t other found (alone other within) there here)
    (unreplaced_newest c staffed.stacked conn t u pc read (alone pc inside) here there)

-- A stand-in does not exit before the call that made it joins it.
theorem staffed_relieved (c : Connected Task Name) (staffed : Staffed c) (t u : Nat) (pc : ThreadPc Task)
    (read : c.operator.threads[t]? = some pc) (isReplaced : standin pc = some u) (waits : joins pc = false) :
    ∃ conn, t ∈ c.crew conn ∧ u ∈ c.crew conn ∧ (c.Stands u serving ∨ c.Stands u hasTask) := by
  obtain ⟨inv, stage, rfl⟩ : ∃ inv stage, pc = .invoking inv stage := by
    cases pc with
    | invoking inv stage => exact ⟨inv, stage, rfl⟩
    | _ => cases isReplaced
  obtain ⟨⟨task, own⟩, nested, rfl⟩ := Option.map_eq_some_iff.mp isReplaced
  obtain ⟨k, rfl⟩ : ∃ k, t = k + 1 := by
    apply Nat.exists_eq_succ_of_ne_zero
    rintro rfl
    obtain ⟨found, there, ofMain⟩ := staffed.roles.main
    rw [read] at there
    cases there
    rw [ofMain.1] at nested
    cases nested
  obtain ⟨conn, row⟩ := staffed.stacked.placed k _ read
  obtain ⟨hired, present⟩ := staffed.standins.bound _ inv stage task own read nested
  obtain ⟨m, rfl⟩ : ∃ m, own = m + 1 := Nat.exists_eq_succ_of_ne_zero (by omega)
  obtain ⟨other, found⟩ : ∃ other, c.operator.threads[m + 1]? = some other := ⟨_, List.getElem?_eq_getElem present⟩
  have stays : other ≠ .exited := by
    rintro rfl
    have joining := (staffed.standins.staying staffed.unfinished m found).2 _ inv stage task read nested
    subst joining
    cases waits
  have living : alive other = true := by
    cases other with
    | exited => exact absurd rfl stays
    | _ => rfl
  have shared := (staffed.stacked.younger _ _ ⟨_, read, isReplaced⟩).2
  refine ⟨conn, ?_, ?_, ?_⟩
  · rw [crew_member, bound_iff]
    exact ⟨row, _, read, rfl⟩
  · rw [crew_member, bound_iff]
    exact ⟨shared.trans row, other, found, living⟩
  · rw [stands_once c _ other found, stands_once c _ other found]
    have works := staffed.roles.crew m other found
    cases other with
    | popping n => exact .inl rfl
    | invoking inner place => exact .inr (Option.isSome_iff_ne_none.mpr works)
    | exited => exact absurd rfl stays
    | idle => exact works.elim
    | finishing => exact works.elim
    | joinWorkers => exact works.elim
    | _ => exact .inr rfl

-- The caller runs its action again while its stand-in is there, and nobody is
-- inside invoke for the stand-in any more.
theorem rescued_two_active (c after : Connected Task Name) (staffed : Staffed c) (w : Nat) (taken : c.rescued w = some after) :
    ¬ OneActive after := by
  obtain ⟨inv, task, u, stands, nested, threads, connection⟩ : ∃ inv task u,
      c.operator.threads[w]? = some (.invoking inv .raised) ∧ inv.nested = some (task, u) ∧ after.operator.threads = c.operator.threads.set w (.running task) ∧
      after.connection = c.connection := by
    unfold rescued at taken
    split at taken
    · rename_i inv stands
      obtain ⟨⟨task, u⟩, nested, rfl⟩ := Option.map_eq_some_iff.mp taken
      exact ⟨inv, task, u, stands, nested, rfl, rfl⟩
    · cases taken
  have replaced : standin (.invoking inv .raised) = some u := by rw [standin, nested, Option.map_some]
  obtain ⟨conn, here, there, -⟩ := staffed_relieved c staffed w u _ stands replaced rfl
  have older := (staffed.stacked.younger w u ⟨_, stands, replaced⟩).1
  have same := bound_overwritten w _ (.running task) stands threads connection rfl conn
  obtain ⟨running, -⟩ := overwritten w _ (.running task) stands threads connection
  intro active
  obtain ⟨v, isReplaced⟩ := Slots.successor_of_chain _ _ ((List.sortedLT_range _).pairwise.filter _) (active.chain conn) w
    ((crew_member after conn w).mpr ((same w).trans ((crew_member c conn w).mp here))) u
    ((crew_member after conn u).mpr ((same u).trans ((crew_member c conn u).mp there))) older
  rw [replaced_once after w v (.running task) running] at isReplaced
  cases isReplaced

theorem one_active_thread [DecidableEq Task] [Fintype Task] (app : Application Task Name Scope) (n : Nat) (names : List Name)
    (c : Connected Task Name) (run : Machine.Run (step app) Unrescued (new n names) c) :
    OneActive c ∧ ∀ w after, c.step app (.rescue w) = some after → ¬ OneActive after := by
  have staffed := staffed_run n names c run
  exact ⟨⟨staffed_chain c staffed, fun conn t here u there => staffed_active c staffed conn t u here there,
    staffed_relieved c staffed⟩, fun w after => rescued_two_active c after staffed w⟩

-- The stand-in of worker 1 is at a task, and worker 1 inside its own.
theorem one_active_thread_nested :
    ∃ c : Connected (Fin 5) (Fin 5), c.crew 0 = [1, 2] ∧ c.operator.threads[2]? = some (.running 2) ∧ OneActive c := by
  obtain ⟨c, run, facts⟩ := Machine.run_of_exec (step (Tracer.graph twoLeaves)) Unrescued
    (fun c => c.crew 0 = [1, 2] ∧ c.operator.threads[2]? = some (.running 2))
    ([.invokeTask, .reset 0, .trace 0 allNeeded, .assign 0, .push 0 none, .pop 1 none, .start 1, .call 1 3, .reset 1,
      .trace 1 allNeeded, .assign 1, .push 1 none, .pop 2 none, .start 2].map .operator) (new 1 [0]) (by decide)
  exact ⟨c, facts.1, facts.2, (one_active_thread (Tracer.graph twoLeaves) 1 [0] c run).1⟩

-- Task 0 needs 1 and 2, and 3 needs itself.
def selfNeeding (task : Fin 5) : List (Fin 5) := if task.val = 3 then [task] else twoLeaves task

-- The action of 1 invokes 3 and rescues the error. Its stand-in then starts 2 on
-- the same connection.
theorem rescued_run :
    ∃ c : Connected (Fin 5) (Fin 5), Machine.Run (step (Tracer.graph selfNeeding)) BeforeFinish (new 1 [0]) c ∧
      c.crew 0 = [1, 2] ∧ c.operator.threads[1]? = some (.running 1) ∧ c.operator.threads[2]? = some (.running 2) :=
  Machine.run_of_exec (step (Tracer.graph selfNeeding)) BeforeFinish
    (fun c => c.crew 0 = [1, 2] ∧ c.operator.threads[1]? = some (.running 1) ∧ c.operator.threads[2]? = some (.running 2))
    (([.invokeTask, .reset 0, .trace 0 allNeeded, .assign 0, .push 0 none, .pop 1 none, .start 1, .call 1 3, .reset 1,
      .trace 1 allNeeded].map .operator) ++ [.rescue 1] ++ [.pop 2 none, .start 2].map .operator) (new 1 [0]) (by decide)

theorem rescued_thread_beside_standin :
    ¬ ∀ (app : Application (Fin 5) (Fin 5) Unit) (n : Nat) (names : List (Fin 5)) (c : Connected (Fin 5) (Fin 5)),
      Machine.Run (step app) BeforeFinish (new n names) c → OneActive c := by
  intro claim
  obtain ⟨c, run, crew, caller, standin⟩ := rescued_run
  have active := (claim _ 1 [0] c run).active 0 1 (by simp [crew]) 2 (by simp [crew])
  exact absurd (active ⟨_, caller, rfl⟩ ⟨_, standin, rfl⟩) (by decide)

end Connected

end Pwrake
