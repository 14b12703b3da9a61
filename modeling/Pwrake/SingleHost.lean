import Pwrake.InvokeRuns

set_option autoImplicit false

namespace Pwrake

-- A queue that serves one host as a list would: first in, first out.
structure ServesAsList {Queue Task Host Choice : Type*} (ops : QueueOps Queue Task Host Choice) (host : Host)
    (relates : Queue → SimpleQueue Task → Prop) : Prop where
  push : ∀ q list task choice, relates q list → task ∉ list → relates (ops.push q task choice) (list ++ [task])
  pop : ∀ q task rest, relates q (task :: rest) → (ops.pop q host).1 = some task ∧ relates (ops.pop q host).2 rest
  clear : ∀ q list, relates q list → relates (ops.clear q) []
  isEmpty : ∀ q list, relates q list → ops.isEmpty q = list.isEmpty

namespace ServesAsList

variable {Queue Task Host Choice : Type*} {ops : QueueOps Queue Task Host Choice} {host : Host}
  {relates : Queue → SimpleQueue Task → Prop}

theorem push_all (serves : ServesAsList ops host relates) (q : Queue) (list : SimpleQueue Task) (tasks : List (Task × Choice))
    (related : relates q list) (distinct : (tasks.map Prod.fst).Nodup) (fresh : ∀ task ∈ tasks, task.1 ∉ list) :
    relates (TaskQueue.pushAll ops q tasks) (list ++ tasks.map Prod.fst) := by
  induction tasks generalizing q list with
  | nil => simpa [TaskQueue.pushAll] using related
  | cons task rest ih =>
      rw [List.map_cons, List.nodup_cons] at distinct
      have pushed := serves.push q list task.1 task.2 related (fresh task List.mem_cons_self)
      have later : ∀ other ∈ rest, other.1 ∉ list ++ [task.1] := by
        intro other listed member
        rcases List.mem_append.mp member with earlier | same
        · exact fresh other (List.mem_cons_of_mem task listed) earlier
        · exact distinct.1 (List.mem_singleton.mp same ▸ List.mem_map_of_mem listed)
      have whole := ih _ _ pushed distinct.2 later
      rwa [List.append_assoc] at whole

theorem simple_push_all (list : SimpleQueue Task) (tasks : List (Task × Unit)) :
    TaskQueue.pushAll (SimpleQueue.ops : QueueOps _ Task Unit Unit) list tasks = list ++ tasks.map Prod.fst := by
  induction tasks generalizing list with
  | nil => exact (List.append_nil list).symm
  | cons task rest ih =>
      change TaskQueue.pushAll SimpleQueue.ops (list ++ [task.1]) rest = _
      rw [ih, List.append_assoc, List.map_cons, List.singleton_append]

-- A turn that finds something takes the first of the list.
theorem take_first (serves : ServesAsList ops host relates) (q : Queue) (task : Task) (rest : SimpleQueue Task) (n : Nat)
    (related : relates q (task :: rest)) :
    (TaskQueue.take ops q host n).1 = .task task ∧ relates (TaskQueue.take ops q host n).2 rest ∧
      TaskQueue.take (SimpleQueue.ops : QueueOps _ Task Unit Unit) (task :: rest) () n = (.task task, rest) := by
  obtain ⟨found, left⟩ := serves.pop q task rest related
  unfold TaskQueue.take
  cases result : ops.pop q host with
  | mk first after =>
      rw [result] at found left
      subst found
      exact ⟨rfl, left, rfl⟩

end ServesAsList

-- The same with a list inside.
def TaskQueue.withList {Queue Task : Type*} (queue : TaskQueue Queue Nat) (list : SimpleQueue Task) : TaskQueue (SimpleQueue Task) Nat :=
  ⟨queue.finished, list, queue.cv, queue.thEnd⟩

namespace Pool

variable {Queue Task Host Choice : Type*}

def withList (s : Pool Queue Task) (list : SimpleQueue Task) : Pool (SimpleQueue Task) Task where
  queue := s.queue.withList list
  m := s.m
  workers := s.workers
  finishing := s.finishing
  completed := s.completed
  pushed := s.pushed
  handed := s.handed

def plain : PoolLabel Task Choice → PoolLabel Task Unit
  | .push tasks wake => .push (tasks.map fun task => (task.1, ())) wake
  | .acquire w => .acquire w
  | .check w wake => .check w wake
  | .leave w => .leave w
  | .taskEnd w => .taskEnd w
  | .fail w => .fail w
  | .stopEnter w => .stopEnter w
  | .stopRaise w => .stopRaise w
  | .stopSignal w wake => .stopSignal w wake
  | .stopLeave w => .stopLeave w
  | .finishRaise => .finishRaise
  | .finishSignal wake => .finishSignal wake

variable {ops : QueueOps Queue Task Host Choice} {host : Nat → Host} {only : Host} {relates : Queue → SimpleQueue Task → Prop}

-- What the queue hands out in a turn is what the list hands out.
theorem turn_matched (serves : ServesAsList ops only relates) (queue : TaskQueue Queue Nat) (list : SimpleQueue Task)
    (related : relates queue.q list) (w n : Nat) (wake : Option Nat) :
    Option.Rel (fun left right => ∃ after, relates left.2.q after ∧ right = (left.1, left.2.withList after))
      (queue.popTurn ops w only n wake)
      ((queue.withList list).popTurn (SimpleQueue.ops : QueueOps (SimpleQueue Task) Task Unit Unit) w () n wake) := by
  have vacant := serves.isEmpty queue.q list related
  unfold TaskQueue.popTurn TaskQueue.withList
  dsimp only
  split
  · exact .some ⟨list, related, rfl⟩
  · split
    · unfold TaskQueue.signal
      dsimp only
      cases queue.cv.signal wake with
      | none => exact .none
      | some cv => exact .some ⟨list, related, rfl⟩
    · rw [vacant]
      cases list with
      | nil => exact .some ⟨[], related, rfl⟩
      | cons task rest =>
          obtain ⟨found, left, first⟩ := serves.take_first queue.q task rest n related
          change Option.Rel _ ((TaskQueue.signal _ wake).map _) ((TaskQueue.signal _ wake).map _)
          rw [first, found]
          unfold TaskQueue.signal
          dsimp only
          cases queue.cv.signal wake with
          | none => exact .none
          | some cv => exact .some ⟨rest, left, rfl⟩

-- A step of the one pool is a step of the other.
theorem step_with_list (serves : ServesAsList ops only relates) (s next : Pool Queue Task) (list : SimpleQueue Task)
    (related : relates s.queue.q list) (served : ∀ w < s.workers.length, host w = only) (label : PoolLabel Task Choice)
    (fresh : ∀ tasks wake, label = .push tasks wake → (tasks.map Prod.fst).Nodup ∧ ∀ task ∈ tasks, task.1 ∉ list)
    (taken : s.step ops host label = some next) :
    ∃ after, relates next.queue.q after ∧
      (s.withList list).step SimpleQueue.ops (fun _ => ()) (plain label) = some (next.withList after) := by
  cases step_effect ops host s next label taken with
  | push tasks wake cv free signalled =>
      obtain ⟨distinct, new⟩ := fresh tasks wake rfl
      refine ⟨_, serves.push_all s.queue.q list tasks related distinct new, ?_⟩
      have pushed := effect_step SimpleQueue.ops (fun _ => ()) (s.withList list) _ _
        (.push (tasks.map fun task => (task.1, ())) wake cv free signalled)
      rw [plain, pushed]
      simp [withList, TaskQueue.withList, ServesAsList.simple_push_all, Function.comp_def]
  | check w n wake out queue stands turned =>
      rw [served w (List.getElem?_eq_some_iff.mp stands).1] at turned
      have matched := turn_matched serves s.queue list related w n wake
      rw [turned] at matched
      cases right : (s.queue.withList list).popTurn (SimpleQueue.ops : QueueOps (SimpleQueue Task) Task Unit Unit) w () n wake with
      | none => rw [right] at matched; cases matched
      | some pair =>
          rw [right] at matched
          cases matched with
          | some facts =>
              obtain ⟨after, kept, rfl⟩ := facts
              refine ⟨after, kept, ?_⟩
              have checked := effect_step SimpleQueue.ops (fun _ => ()) (s.withList list) _ _ (.check w n wake out _ stands right)
              rw [plain, checked]
              cases out <;> rfl
  | acquire w n stands free awake => exact ⟨list, related, effect_step _ _ (s.withList list) _ _ (.acquire w n stands free awake)⟩
  | leave w out stands =>
      refine ⟨list, by cases out <;> exact related, ?_⟩
      have left := effect_step (SimpleQueue.ops : QueueOps (SimpleQueue Task) Task Unit Unit) (fun _ => ()) (s.withList list) _ _
        (.leave w out stands)
      rw [plain, left]
      cases out <;> rfl
  | taskEnd w task stands => exact ⟨list, related, effect_step _ _ (s.withList list) _ _ (.taskEnd w task stands)⟩
  | fail w task stands => exact ⟨list, related, effect_step _ _ (s.withList list) _ _ (.fail w task stands)⟩
  | stopEnter w stands free =>
      exact ⟨[], serves.clear s.queue.q list related, effect_step _ _ (s.withList list) _ _ (.stopEnter w stands free)⟩
  | stopRaise w stands => exact ⟨list, related, effect_step _ _ (s.withList list) _ _ (.stopRaise w stands)⟩
  | stopSignal w wake cv stands signalled =>
      exact ⟨list, related, effect_step _ _ (s.withList list) _ _ (.stopSignal w wake cv stands signalled)⟩
  | stopLeave w stands => exact ⟨list, related, effect_step _ _ (s.withList list) _ _ (.stopLeave w stands)⟩
  | finishRaise idle => exact ⟨list, related, effect_step _ _ (s.withList list) _ _ (.finishRaise idle)⟩
  | finishSignal wake cv raised signalled =>
      exact ⟨list, related, effect_step _ _ (s.withList list) _ _ (.finishSignal wake cv raised signalled)⟩

theorem step_under (serves : ServesAsList ops only relates) (s : Pool Queue Task) (list : SimpleQueue Task)
    (after : Pool (SimpleQueue Task) Task) (related : relates s.queue.q list) (served : ∀ w < s.workers.length, host w = only)
    (label : PoolLabel Task Choice)
    (fresh : ∀ tasks wake, label = .push tasks wake → (tasks.map Prod.fst).Nodup ∧ ∀ task ∈ tasks, task.1 ∉ list)
    (taken : (s.withList list).step SimpleQueue.ops (fun _ => ()) (plain label) = some after) :
    ∃ next, s.step ops host label = some next := by
  have effect := step_effect SimpleQueue.ops (fun _ => ()) (s.withList list) after _ taken
  cases label with
  | push tasks wake =>
      cases effect with
      | push _ _ cv free signalled => exact ⟨_, effect_step ops host s _ _ (.push tasks wake cv free signalled)⟩
  | check w wake =>
      cases effect with
      | check _ n _ out queue stands turned =>
          have matched := turn_matched serves s.queue list related w n wake
          have here : host w = only := served w (List.getElem?_eq_some_iff.mp stands).1
          cases left : s.queue.popTurn ops w only n wake with
          | none =>
              have right : (s.queue.withList list).popTurn SimpleQueue.ops w () n wake = some (out, queue) := turned
              rw [left, right] at matched
              cases matched
          | some pair => exact ⟨_, effect_step ops host s _ _ (.check w n wake pair.1 pair.2 stands (by rw [here]; exact left))⟩
  | acquire w =>
      cases effect with
      | acquire _ n stands free awake => exact ⟨_, effect_step ops host s _ _ (.acquire w n stands free awake)⟩
  | leave w =>
      cases effect with
      | leave _ out stands => exact ⟨_, effect_step ops host s _ _ (.leave w out stands)⟩
  | taskEnd w =>
      cases effect with
      | taskEnd _ task stands => exact ⟨_, effect_step ops host s _ _ (.taskEnd w task stands)⟩
  | fail w =>
      cases effect with
      | fail _ task stands => exact ⟨_, effect_step ops host s _ _ (.fail w task stands)⟩
  | stopEnter w =>
      cases effect with
      | stopEnter _ stands free => exact ⟨_, effect_step ops host s _ _ (.stopEnter w stands free)⟩
  | stopRaise w =>
      cases effect with
      | stopRaise _ stands => exact ⟨_, effect_step ops host s _ _ (.stopRaise w stands)⟩
  | stopSignal w wake =>
      cases effect with
      | stopSignal _ _ cv stands signalled => exact ⟨_, effect_step ops host s _ _ (.stopSignal w wake cv stands signalled)⟩
  | stopLeave w =>
      cases effect with
      | stopLeave _ stands => exact ⟨_, effect_step ops host s _ _ (.stopLeave w stands)⟩
  | finishRaise =>
      cases effect with
      | finishRaise idle => exact ⟨_, effect_step ops host s _ _ (.finishRaise idle)⟩
  | finishSignal wake =>
      cases effect with
      | finishSignal _ cv raised signalled => exact ⟨_, effect_step ops host s _ _ (.finishSignal wake cv raised signalled)⟩

end Pool

namespace InvokeTask

open Tracer

variable {Queue Task Host Choice Name Scope : Type*}

def withList (s : InvokeTask Queue Task) (list : SimpleQueue Task) : InvokeTask (SimpleQueue Task) Task where
  pool := s.pool.withList list
  stages := s.stages
  tracer := s.tracer
  outputQueue := s.outputQueue
  main := s.main
  dead := s.dead
  raises := s.raises
  raised := s.raised
  started := s.started
  ended := s.ended
  failed := s.failed
  collected := s.collected
  skipped := s.skipped

def plain : InvokeLabel Task Choice → InvokeLabel Task Unit
  | .worker label => .worker (Pool.plain label)
  | .start w => .start w
  | .execute w => .execute w
  | .complete w => .complete w
  | .fail w => .fail w
  | .die w => .die w
  | .trace needed => .trace needed
  | .push _ wake => .push (fun _ => ()) wake
  | .collect => .collect
  | .again => .again
  | .finishRaise => .finishRaise
  | .finishSignal wake => .finishSignal wake
  | .join => .join
  | .abort => .abort

theorem of_thread_plain (label : PoolLabel Task Choice) : ofThread (Pool.plain label) = ofThread label := by
  cases label <;> rfl

section Steps

variable [DecidableEq Task] [Fintype Task] {app : Application Task Name Scope} {root : Task} {ops : QueueOps Queue Task Host Choice}
  {host : Nat → Host} {only : Host} {relates : Queue → SimpleQueue Task → Prop} {s : InvokeTask Queue Task}
  {list : SimpleQueue Task}

theorem step_with_list (serves : ServesAsList ops only relates) (next : InvokeTask Queue Task) (related : relates s.pool.queue.q list)
    (served : ∀ w < s.pool.workers.length, host w = only) (label : InvokeLabel Task Choice)
    (fresh : s.main = .push → s.batch.Nodup ∧ ∀ task ∈ s.batch, task ∉ list)
    (taken : s.step app root ops host label = some next) :
    ∃ after, relates next.pool.queue.q after ∧
      (s.withList list).step app root SimpleQueue.ops (fun _ => ()) (plain label) = some (next.withList after) := by
  have inner : ∀ (label : PoolLabel Task Choice) (pool : Pool Queue Task), (∀ tasks wake, label ≠ .push tasks wake) →
      s.pool.step ops host label = some pool → ∃ after, relates pool.queue.q after ∧
        (s.withList list).pool.step SimpleQueue.ops (fun _ => ()) (Pool.plain label) = some (pool.withList after) :=
    fun label pool other moved =>
      Pool.step_with_list serves s.pool pool list related served label (fun tasks wake same => absurd same (other tasks wake)) moved
  cases step_effect app root ops host s next label taken with
  | worker label pool own moved =>
      obtain ⟨after, kept, same⟩ := inner label pool (by rintro tasks wake rfl; cases own) moved
      exact ⟨after, kept, effect_step app root _ _ (s.withList list) _ _ (.worker _ _ ((of_thread_plain label).trans own) same)⟩
  | start w task stands stage => exact ⟨list, related, effect_step app root _ _ (s.withList list) _ _ (.start w task stands stage)⟩
  | execute w task stage => exact ⟨list, related, effect_step app root _ _ (s.withList list) _ _ (.execute w task stage)⟩
  | complete w task pool stage moved =>
      obtain ⟨after, kept, same⟩ := inner _ pool (by simp) moved
      exact ⟨after, kept, effect_step app root _ _ (s.withList list) _ _ (.complete w task _ stage same)⟩
  | fail w task pool stage moved =>
      obtain ⟨after, kept, same⟩ := inner _ pool (by simp) moved
      exact ⟨after, kept, effect_step app root _ _ (s.withList list) _ _ (.fail w task _ stage same)⟩
  | die w pool moved =>
      obtain ⟨after, kept, same⟩ := inner _ pool (by simp) moved
      exact ⟨after, kept, effect_step app root _ _ (s.withList list) _ _ (.die w _ same)⟩
  | traceBatch needed status after stands ran =>
      exact ⟨list, related, effect_step app root _ _ (s.withList list) _ _ (.traceBatch needed status after stands ran)⟩
  | traceNil needed after stands ran =>
      exact ⟨list, related, effect_step app root _ _ (s.withList list) _ _ (.traceNil needed after stands ran)⟩
  | traceError needed error after stands ran =>
      exact ⟨list, related, effect_step app root _ _ (s.withList list) _ _ (.traceError needed error after stands ran)⟩
  | push choice wake pool stands moved =>
      obtain ⟨distinct, new⟩ := fresh stands
      obtain ⟨after, kept, same⟩ := Pool.step_with_list serves s.pool pool list related served
        (.push (s.batch.map fun task => (task, choice task)) wake) (by
          rintro tasks other ⟨⟩
          exact ⟨by simpa [Function.comp_def] using distinct, by simpa using new⟩) moved
      refine ⟨after, kept, effect_step app root _ _ (s.withList list) _ _ (.push (fun _ => ()) wake _ stands ?_)⟩
      rw [Pool.plain, List.map_map] at same
      exact same
  | collect k b rest stands read more listed =>
      exact ⟨list, related, effect_step app root _ _ (s.withList list) _ _ (.collect k b rest stands read more listed)⟩
  | stray k b rest stands read more foreign =>
      exact ⟨list, related, effect_step app root _ _ (s.withList list) _ _ (.stray k b rest stands read more foreign)⟩
  | again k stands all => exact ⟨list, related, effect_step app root _ _ (s.withList list) _ _ (.again k stands all)⟩
  | finishRaise pool stands moved =>
      obtain ⟨after, kept, same⟩ := inner _ pool (by simp) moved
      exact ⟨after, kept, effect_step app root _ _ (s.withList list) _ _ (.finishRaise _ stands same)⟩
  | finishSignal wake pool stands moved =>
      obtain ⟨after, kept, same⟩ := inner _ pool (by simp) moved
      exact ⟨after, kept, effect_step app root _ _ (s.withList list) _ _ (.finishSignal wake _ stands same)⟩
  | joinedAll j stands last => exact ⟨list, related, effect_step app root _ _ (s.withList list) _ _ (.joinedAll j stands last)⟩
  | joined j stands exited living =>
      exact ⟨list, related, effect_step app root _ _ (s.withList list) _ _ (.joined j stands exited living)⟩
  | joinRaised j stands exited dead =>
      exact ⟨list, related, effect_step app root _ _ (s.withList list) _ _ (.joinRaised j stands exited dead)⟩
  | abortLoop raises pending stands =>
      exact ⟨list, related, effect_step app root _ _ (s.withList list) _ _ (.abortLoop raises pending stands)⟩
  | abortEnsure raises pending stands =>
      exact ⟨list, related, effect_step app root _ _ (s.withList list) _ _ (.abortEnsure raises pending stands)⟩

theorem step_under (serves : ServesAsList ops only relates) (after : InvokeTask (SimpleQueue Task) Task)
    (related : relates s.pool.queue.q list) (served : ∀ w < s.pool.workers.length, host w = only) (label : InvokeLabel Task Choice)
    (fresh : s.main = .push → s.batch.Nodup ∧ ∀ task ∈ s.batch, task ∉ list)
    (moves : (s.withList list).step app root SimpleQueue.ops (fun _ => ()) (plain label) = some after) :
    ∃ next, s.step app root ops host label = some next := by
  have inner : ∀ (label : PoolLabel Task Choice) (pool : Pool (SimpleQueue Task) Task), (∀ tasks wake, label ≠ .push tasks wake) →
      (s.withList list).pool.step SimpleQueue.ops (fun _ => ()) (Pool.plain label) = some pool →
      ∃ next, s.pool.step ops host label = some next :=
    fun label pool other moved =>
      Pool.step_under serves s.pool list pool related served label (fun tasks wake same => absurd same (other tasks wake)) moved
  have effect := step_effect app root SimpleQueue.ops (fun _ => ()) (s.withList list) after _ moves
  cases label with
  | worker label =>
      cases effect with
      | worker _ pool own moved =>
          have own : ofThread label = true := (of_thread_plain label).symm.trans own
          obtain ⟨next, same⟩ := inner label pool (by rintro tasks wake rfl; cases own) moved
          exact ⟨_, effect_step app root ops host s _ _ (.worker label next own same)⟩
  | start w =>
      cases effect with
      | start _ task stands stage => exact ⟨_, effect_step app root ops host s _ _ (.start w task stands stage)⟩
  | execute w =>
      cases effect with
      | execute _ task stage => exact ⟨_, effect_step app root ops host s _ _ (.execute w task stage)⟩
  | complete w =>
      cases effect with
      | complete _ task pool stage moved =>
          obtain ⟨next, same⟩ := inner (.taskEnd w) pool (by simp) moved
          exact ⟨_, effect_step app root ops host s _ _ (.complete w task next stage same)⟩
  | fail w =>
      cases effect with
      | fail _ task pool stage moved =>
          obtain ⟨next, same⟩ := inner (.fail w) pool (by simp) moved
          exact ⟨_, effect_step app root ops host s _ _ (.fail w task next stage same)⟩
  | die w =>
      cases effect with
      | die _ pool moved =>
          obtain ⟨next, same⟩ := inner (.stopLeave w) pool (by simp) moved
          exact ⟨_, effect_step app root ops host s _ _ (.die w next same)⟩
  | trace needed =>
      cases effect with
      | traceBatch _ status traced stands ran =>
          exact ⟨_, effect_step app root ops host s _ _ (.traceBatch needed status traced stands ran)⟩
      | traceNil _ traced stands ran => exact ⟨_, effect_step app root ops host s _ _ (.traceNil needed traced stands ran)⟩
      | traceError _ error traced stands ran =>
          exact ⟨_, effect_step app root ops host s _ _ (.traceError needed error traced stands ran)⟩
  | push choice wake =>
      cases effect with
      | push _ _ pool stands moved =>
          obtain ⟨distinct, new⟩ := fresh stands
          obtain ⟨next, same⟩ := Pool.step_under serves s.pool list pool related served
            (.push (s.batch.map fun task => (task, choice task)) wake) (by
              rintro tasks other ⟨⟩
              exact ⟨by simpa [Function.comp_def] using distinct, by simpa using new⟩)
            (by rw [Pool.plain, List.map_map]; exact moved)
          exact ⟨_, effect_step app root ops host s _ _ (.push choice wake next stands same)⟩
  | collect =>
      cases effect with
      | collect k b rest stands read more listed =>
          exact ⟨_, effect_step app root ops host s _ _ (.collect k b rest stands read more listed)⟩
      | stray k b rest stands read more foreign =>
          exact ⟨_, effect_step app root ops host s _ _ (.stray k b rest stands read more foreign)⟩
  | again =>
      cases effect with
      | again k stands all => exact ⟨_, effect_step app root ops host s _ _ (.again k stands all)⟩
  | finishRaise =>
      cases effect with
      | finishRaise pool stands moved =>
          obtain ⟨next, same⟩ := inner .finishRaise pool (by simp) moved
          exact ⟨_, effect_step app root ops host s _ _ (.finishRaise next stands same)⟩
  | finishSignal wake =>
      cases effect with
      | finishSignal _ pool stands moved =>
          obtain ⟨next, same⟩ := inner (.finishSignal wake) pool (by simp) moved
          exact ⟨_, effect_step app root ops host s _ _ (.finishSignal wake next stands same)⟩
  | join =>
      cases effect with
      | joinedAll j stands last => exact ⟨_, effect_step app root ops host s _ _ (.joinedAll j stands last)⟩
      | joined j stands exited living => exact ⟨_, effect_step app root ops host s _ _ (.joined j stands exited living)⟩
      | joinRaised j stands exited dead => exact ⟨_, effect_step app root ops host s _ _ (.joinRaised j stands exited dead)⟩
  | abort =>
      cases effect with
      | abortLoop raises pending stands => exact ⟨_, effect_step app root ops host s _ _ (.abortLoop raises pending stands)⟩
      | abortEnsure raises pending stands => exact ⟨_, effect_step app root ops host s _ _ (.abortEnsure raises pending stands)⟩

end Steps

-- A label of the plain system is the shadow of one that draws some host.
theorem plain_onto [Inhabited Choice] (label : InvokeLabel Task Unit) : ∃ wider : InvokeLabel Task Choice, plain wider = label := by
  cases label with
  | worker label =>
      have pool : ∃ wider : PoolLabel Task Choice, Pool.plain wider = label := by
        cases label with
        | push tasks wake => exact ⟨.push (tasks.map fun task => (task.1, default)) wake, by simp [Pool.plain, Function.comp_def]⟩
        | acquire w => exact ⟨.acquire w, rfl⟩
        | check w wake => exact ⟨.check w wake, rfl⟩
        | leave w => exact ⟨.leave w, rfl⟩
        | taskEnd w => exact ⟨.taskEnd w, rfl⟩
        | fail w => exact ⟨.fail w, rfl⟩
        | stopEnter w => exact ⟨.stopEnter w, rfl⟩
        | stopRaise w => exact ⟨.stopRaise w, rfl⟩
        | stopSignal w wake => exact ⟨.stopSignal w wake, rfl⟩
        | stopLeave w => exact ⟨.stopLeave w, rfl⟩
        | finishRaise => exact ⟨.finishRaise, rfl⟩
        | finishSignal wake => exact ⟨.finishSignal wake, rfl⟩
      obtain ⟨wider, rfl⟩ := pool
      exact ⟨.worker wider, rfl⟩
  | start w => exact ⟨.start w, rfl⟩
  | execute w => exact ⟨.execute w, rfl⟩
  | complete w => exact ⟨.complete w, rfl⟩
  | fail w => exact ⟨.fail w, rfl⟩
  | die w => exact ⟨.die w, rfl⟩
  | trace needed => exact ⟨.trace needed, rfl⟩
  | push choice wake => exact ⟨.push (fun _ => default) wake, rfl⟩
  | collect => exact ⟨.collect, rfl⟩
  | again => exact ⟨.again, rfl⟩
  | finishRaise => exact ⟨.finishRaise, rfl⟩
  | finishSignal wake => exact ⟨.finishSignal wake, rfl⟩
  | join => exact ⟨.join, rfl⟩
  | abort => exact ⟨.abort, rfl⟩

end InvokeTask

-- The two queues of one host hold the same tasks in the same order.
def Abreast {Task : Type*} (h : Hostname) (queue : HostQueue Task) (list : SimpleQueue Task) : Prop :=
  ∃ roster, Represents [h] queue roster ∧ roster.map Posting.job = list

section Abreast

variable {Task : Type*} [DecidableEq Task] {h : Hostname} {queue : HostQueue Task} {list : SimpleQueue Task}

theorem Abreast.mem_queued (abreast : Abreast h queue list) (task : Task) : task ∈ queue.queued ↔ task ∈ list := by
  obtain ⟨roster, represents, rfl⟩ := abreast
  exact represents.mem_queued task

-- Every job on the roster may go to the only host, so the first one does.
theorem roster_first (p : Posting Task) (rest : Roster Task) (represents : Represents [h] queue (p :: rest)) :
    (queue.pop (some h)).1 = some p.job ∧ Abreast h (queue.pop (some h)).2 (rest.map Posting.job) := by
  obtain ⟨first, after⟩ := represents.pop (some h)
  obtain ⟨nonempty, known, -⟩ := represents.placed p List.mem_cons_self
  obtain ⟨g, member⟩ := List.exists_mem_of_ne_nil p.hosts nonempty
  have listed : some h ∈ p.hosts.map some := List.mem_map_of_mem (List.mem_singleton.mp (known g member) ▸ member)
  rw [List.find?_cons_of_pos (by simpa using listed), Option.map_some] at first
  have distinct := represents.distinct
  rw [List.map_cons, List.nodup_cons] at distinct
  have others : ((p :: rest).filter fun q => q.job ∉ (queue.pop (some h)).1) = rest := by
    rw [List.filter_cons_of_neg (by simp [first]), List.filter_eq_self]
    intro q member
    have different : p.job ≠ q.job := fun same => distinct.1 (same ▸ List.mem_map_of_mem member)
    simpa [first] using different
  rw [others] at after
  exact ⟨first, rest, after, rfl⟩

theorem one_host_serves (h : Hostname) :
    ServesAsList (HostQueue.placing : QueueOps (HostQueue Task) Task _ _) (some h) (Abreast h) where
  push queue list task choice abreast fresh := by
    have unqueued : task ∉ queue.queued := fun listed => fresh ((abreast.mem_queued task).mp listed)
    obtain ⟨roster, represents, rfl⟩ := abreast
    exact ⟨_, represents.push task choice.1 choice.2 unqueued, by rw [List.map_append]; rfl⟩
  pop queue task rest abreast := by
    obtain ⟨roster, represents, jobs⟩ := abreast
    obtain ⟨p, others, rfl, rfl, rfl⟩ := List.map_eq_cons_iff.mp jobs
    exact roster_first p others represents
  clear queue list abreast := by
    obtain ⟨roster, represents, -⟩ := abreast
    exact ⟨[], represents.clear, rfl⟩
  isEmpty queue list abreast := by
    have rostered : HostQueue.Rostered [h] queue := ⟨_, abreast.choose_spec.1⟩
    rw [Bool.eq_iff_iff, (HostQueue.host_store [h]).isEmpty queue rostered, List.isEmpty_iff, Finset.eq_empty_iff_forall_notMem,
      List.eq_nil_iff_forall_not_mem]
    simp only [abreast.mem_queued]

end Abreast

namespace InvokeTask

open Tracer

variable {Task Name Scope : Type*} [DecidableEq Task] [Fintype Task]

-- The systems differ in the queue alone, and there only in how it is kept.
structure Alike (h : Hostname) (s : InvokeTask (HostQueue Task) Task) (t : InvokeTask (SimpleQueue Task) Task) : Prop where
  queue : Abreast h s.pool.queue.q t.pool.queue.q
  rest : t = s.withList t.pool.queue.q

section OneHost

variable {app : Application Task Name Scope} {root : Task} {h : Hostname} {hosts placed : List Hostname}

theorem erase_dups_single (some_host : hosts ≠ []) (only : ∀ g ∈ hosts, g = h) : hosts.eraseDups = [h] := by
  obtain ⟨g, rest, rfl⟩ := List.exists_cons_of_ne_nil some_host
  obtain rfl := only g List.mem_cons_self
  have others : (rest.filter fun other => !other == g) = [] := by
    refine List.filter_eq_nil_iff.mpr fun other member => ?_
    simp [only other (List.mem_cons_of_mem g member)]
  rw [List.eraseDups_cons, others]
  rfl

omit [DecidableEq Task] [Fintype Task] in
theorem alike_start (some_host : hosts ≠ []) (only : ∀ g ∈ hosts, g = h) :
    Alike h (affinityStart hosts placed : InvokeTask (HostQueue Task) Task) (simpleStart placed.length) where
  queue := by
    refine ⟨[], ?_, rfl⟩
    rw [← erase_dups_single some_host only]
    exact Represents.newly (some_host_left hosts some_host)
  rest := rfl

theorem placed_here (only : ∀ g ∈ placed, g = h) (w : Nat) (inside : w < placed.length) : placed[w]? = some h := by
  rw [List.getElem?_eq_getElem inside, only _ (List.getElem_mem inside)]

-- The labels of the two systems are the same but for the host drawn in a push.
theorem alike_step (some_host : hosts ≠ []) (here : ∀ g ∈ placed, g = h) (s : InvokeTask (HostQueue Task) Task)
    (t : InvokeTask (SimpleQueue Task) Task)
    (run : Machine.Run (affinityStep app root placed) (fun _ _ => True) (affinityStart hosts placed) s) (alike : Alike h s t)
    (label : InvokeLabel Task (List Hostname × Nat)) :
    Option.Rel (Alike h) (affinityStep app root placed s label) (simpleStep app root t (plain label)) := by
  obtain ⟨abreast, shape⟩ := alike
  generalize t.pool.queue.q = list at abreast shape
  subst shape
  have size := size_run _ placed.length s run
  have served : ∀ w < s.pool.workers.length, placed[w]? = some h := fun w inside => placed_here here w (size ▸ inside)
  have kept := affinity_kept _ hosts placed some_host s run
  have fresh : s.main = .push → s.batch.Nodup ∧ ∀ task ∈ s.batch, task ∉ list := by
    intro stands
    obtain ⟨distinct, new⟩ := push_fresh kept.ledger kept.books stands fun _ => ()
    rw [batch_tasks] at distinct
    refine ⟨distinct, fun task member listed => ?_⟩
    exact new (task, ()) (List.mem_map_of_mem member) ((abreast.mem_queued task).mpr listed)
  cases left : affinityStep app root placed s label with
  | some next =>
      obtain ⟨after, related, moved⟩ := step_with_list (one_host_serves h) next abreast served label fresh left
      change Option.Rel _ _ ((s.withList list).step app root SimpleQueue.ops (fun _ => ()) (plain label))
      rw [moved]
      exact .some ⟨related, rfl⟩
  | none =>
      cases right : simpleStep app root (s.withList list) (plain label) with
      | none => exact .none
      | some after =>
          obtain ⟨next, moved⟩ := step_under (one_host_serves h) after abreast served label fresh right
          exact absurd (left.symm.trans moved) (by simp)

end OneHost

-- On one host AffinityQueue changes nothing: whatever the localities and the
-- draws, the runs are those of the plain queue.
theorem affinity_of_one_host (app : Application Task Name Scope) (root : Task) (h : Hostname) (hosts placed : List Hostname)
    (some_host : hosts ≠ []) (only : ∀ g ∈ hosts, g = h) (here : ∀ g ∈ placed, g = h) :
    (∀ s, Machine.Run (affinityStep app root placed) (fun _ _ => True) (affinityStart hosts placed) s →
      ∃ t, Machine.Run (simpleStep app root) (fun _ _ => True) (simpleStart placed.length) t ∧ Alike h s t) ∧
    ∀ t, Machine.Run (simpleStep app root) (fun _ _ => True) (simpleStart placed.length) t →
      ∃ s, Machine.Run (affinityStep app root placed) (fun _ _ => True) (affinityStart hosts placed) s ∧ Alike h s t :=
  Machine.run_matched (Alike h) plain plain_onto _ _ (alike_start some_host only)
    fun s t label run alike => alike_step some_host here s t run alike label

-- Leaf 2 is pushed for a host that is not there.
theorem affinity_of_one_host_leaf :
    ∃ s t, s.failed = [1] ∧ s.ended = [2] ∧
      Machine.Run (simpleStep (graph Operator.twoLeaves) 0) (fun _ _ => True) (simpleStart 2) t ∧ Alike ['a'] s t := by
  obtain ⟨s, run, failed, ended⟩ := Machine.run_of_exec (affinityStep (graph Operator.twoLeaves) 0 [['a'], ['a']]) (fun _ _ => True)
    (fun s => s.failed = [1] ∧ s.ended = [2]) leafFails (affinityStart [['a'], ['a']] [['a'], ['a']]) (by decide)
  obtain ⟨t, reached, alike⟩ := (affinity_of_one_host (graph Operator.twoLeaves) 0 ['a'] [['a'], ['a']] [['a'], ['a']]
    (by decide) (by decide) (by decide)).1 s run
  exact ⟨s, t, failed, ended, reached, alike⟩

end InvokeTask

end Pwrake
