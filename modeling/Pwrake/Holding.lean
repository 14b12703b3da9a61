import Mathlib.Algebra.BigOperators.Group.Multiset.Basic
import Mathlib.Algebra.Order.Group.Multiset
import Mathlib.Data.Multiset.Bind
import Mathlib.Tactic.Abel
import Pwrake.Store
import Pwrake.WorkerPool

set_option autoImplicit false

namespace Pwrake

namespace Pool

variable {Queue Task Host Choice : Type*}

-- What a worker has in its hands between the turn that took it and the end of
-- the task.
def carries : WorkerPc Task → Multiset Task
  | .leaving (.task task) => {task}
  | .executing task => {task}
  | _ => 0

def carried (s : Pool Queue Task) : Multiset Task := (s.workers.map carries).sum

-- The tasks that were pushed and are neither done nor lost.
def holding (content : Queue → Finset Task) (s : Pool Queue Task) : Multiset Task := (content s.queue.q).val + s.carried

-- Everything but a push and the end of a task.
def quiet : PoolLabel Task Choice → Bool
  | .push _ _ | .taskEnd _ | .fail _ => false
  | _ => true

def clears : PoolLabel Task Choice → Bool
  | .stopEnter _ => true
  | _ => false

-- The one place that a step changes in the table of workers.
inductive Turn : PoolLabel Task Choice → Nat → WorkerPc Task → WorkerPc Task → Prop where
  | acquire (w n : Nat) : Turn (.acquire w) w (.popping n) (.checking n)
  | check (w n : Nat) (wake : Option Nat) (out : PopOutcome Task) : Turn (.check w wake) w (.checking n) (.leaving out)
  | wait (w n : Nat) : Turn (.leave w) w (.leaving (.wait n)) (.popping n)
  | given (w : Nat) (task : Task) : Turn (.leave w) w (.leaving (.task task)) (.executing task)
  | retired (w : Nat) : Turn (.leave w) w (.leaving .retired) .exited
  | closed (w : Nat) : Turn (.leave w) w (.leaving .closed) .exited
  | taskEnd (w : Nat) (task : Task) : Turn (.taskEnd w) w (.executing task) (.popping 0)
  | fail (w : Nat) (task : Task) : Turn (.fail w) w (.executing task) .stopping
  | stopEnter (w : Nat) : Turn (.stopEnter w) w .stopping .stopRaising
  | stopRaise (w : Nat) : Turn (.stopRaise w) w .stopRaising .stopSignalling
  | stopSignal (w : Nat) (wake : Option Nat) : Turn (.stopSignal w wake) w .stopSignalling .stopLeaving
  | stopLeave (w : Nat) : Turn (.stopLeave w) w .stopLeaving .exited

theorem effect_turn (ops : QueueOps Queue Task Host Choice) (host : Nat → Host) (s next : Pool Queue Task)
    (label : PoolLabel Task Choice) (effect : Effect ops host s label next) :
    next.workers = s.workers ∨ ∃ (w : Nat) (old pc : WorkerPc Task), Turn label w old pc ∧ s.workers[w]? = some old ∧
      next.workers = s.workers.set w pc := by
  cases effect with
  | push => exact .inl rfl
  | acquire w n stands => exact .inr ⟨w, _, _, .acquire w n, stands, rfl⟩
  | check w n wake out queue stands => exact .inr ⟨w, _, _, .check w n wake out, stands, rfl⟩
  | leave w out stands =>
      cases out with
      | wait n => exact .inr ⟨w, _, _, .wait w n, stands, rfl⟩
      | task task => exact .inr ⟨w, _, _, .given w task, stands, rfl⟩
      | retired => exact .inr ⟨w, _, _, .retired w, stands, rfl⟩
      | closed => exact .inr ⟨w, _, _, .closed w, stands, rfl⟩
  | taskEnd w task stands => exact .inr ⟨w, _, _, .taskEnd w task, stands, rfl⟩
  | fail w task stands => exact .inr ⟨w, _, _, .fail w task, stands, rfl⟩
  | stopEnter w stands => exact .inr ⟨w, _, _, .stopEnter w, stands, rfl⟩
  | stopRaise w stands => exact .inr ⟨w, _, _, .stopRaise w, stands, rfl⟩
  | stopSignal w wake cv stands => exact .inr ⟨w, _, _, .stopSignal w wake, stands, rfl⟩
  | stopLeave w stands => exact .inr ⟨w, _, _, .stopLeave w, stands, rfl⟩
  | finishRaise => exact .inl rfl
  | finishSignal => exact .inl rfl

-- A worker's place after a step, and the one it had before.
theorem effect_place (ops : QueueOps Queue Task Host Choice) (host : Nat → Host) (s next : Pool Queue Task)
    (label : PoolLabel Task Choice) (effect : Effect ops host s label next) (w : Nat) (pc : WorkerPc Task)
    (stands : next.workers[w]? = some pc) :
    s.workers[w]? = some pc ∨ ∃ old, s.workers[w]? = some old ∧ Turn label w old pc := by
  rcases effect_turn ops host s next label effect with same | ⟨v, old, fresh, turn, before, changed⟩
  · exact .inl (same ▸ stands)
  · rw [changed] at stands
    rcases Slots.lookup_set_cases s.workers v w fresh pc stands with ⟨rfl, rfl⟩ | ⟨-, earlier⟩
    · exact .inr ⟨old, before, turn⟩
    · exact .inl earlier

theorem effect_kept (ops : QueueOps Queue Task Host Choice) (host : Nat → Host) (s next : Pool Queue Task)
    (label : PoolLabel Task Choice) (effect : Effect ops host s label next) (w : Nat) (pc : WorkerPc Task)
    (stands : s.workers[w]? = some pc) : next.workers[w]? = some pc ∨ ∃ fresh, next.workers[w]? = some fresh ∧ Turn label w pc fresh := by
  rcases effect_turn ops host s next label effect with same | ⟨v, old, fresh, turn, before, changed⟩
  · exact .inl (same.symm ▸ stands)
  · rw [changed, Slots.lookup_set s.workers v w old fresh before]
    by_cases equal : w = v
    · subst equal
      have same : pc = old := Option.some.inj (stands.symm.trans before)
      exact .inr ⟨fresh, by rw [if_pos rfl], same ▸ turn⟩
    · exact .inl (by rw [if_neg equal]; exact stands)

theorem carried_set (s : Pool Queue Task) (w : Nat) (old pc : WorkerPc Task) (stands : s.workers[w]? = some old) :
    (s.setWorker w pc).carried + carries old = s.carried + carries pc :=
  Slots.sum_set carries s.workers w old pc stands

theorem carried_same (s : Pool Queue Task) (w : Nat) (old pc : WorkerPc Task) (stands : s.workers[w]? = some old)
    (same : carries pc = carries old) : (s.setWorker w pc).carried = s.carried :=
  Slots.sum_set_same carries s.workers w old pc stands same

theorem carried_member (s : Pool Queue Task) (w : Nat) (pc : WorkerPc Task) (task : Task) (stands : s.workers[w]? = some pc)
    (holds : task ∈ carries pc) : task ∈ s.carried := by
  obtain ⟨rest, split⟩ := Slots.sum_lookup carries s.workers w pc stands
  rw [carried, split]
  exact Multiset.mem_add.mpr (.inl holds)

theorem carried_holder (s : Pool Queue Task) (task : Task) (member : task ∈ s.carried) :
    ∃ (w : Nat) (pc : WorkerPc Task), s.workers[w]? = some pc ∧ task ∈ carries pc := by
  rw [carried, ← Multiset.sum_coe] at member
  obtain ⟨part, inside, holds⟩ := Multiset.mem_join.mp member
  obtain ⟨pc, placed, rfl⟩ := List.mem_map.mp (Multiset.mem_coe.mp inside)
  obtain ⟨w, read⟩ := List.mem_iff_getElem?.mp placed
  exact ⟨w, pc, read, holds⟩

section Steps

variable [DecidableEq Task] {ops : QueueOps Queue Task Host Choice} {host : Nat → Host} {Stored : Queue → Prop}
  {content : Queue → Finset Task}

-- A turn moves what it takes from the queue into the hands of its caller.
theorem holding_check (store : QueueStore ops Stored content) (s : Pool Queue Task) (stored : Stored s.queue.q) (w n : Nat)
    (wake : Option Nat) (out : PopOutcome Task) (queue : TaskQueue Queue Nat) (stands : s.workers[w]? = some (.checking n))
    (turned : s.queue.popTurn ops w (host w) n wake = some (out, queue)) :
    Stored queue.q ∧
      ({ s with queue := queue, handed := s.record w out }.setWorker w (.leaving out)).holding content = s.holding content := by
  have moved : Stored queue.q ∧ (content queue.q).val + carries (.leaving out) = (content s.queue.q).val := by
    rcases TaskQueue.pop_turn_cases ops s.queue queue w (host w) n wake out turned with
      ⟨-, rfl, rfl⟩ | ⟨-, -, rfl, cv, -, rfl⟩ | ⟨-, -, -, rfl, rfl⟩ | ⟨-, -, -, rfl, cv, -, rfl⟩
    · exact ⟨stored, by simp [carries]⟩
    · exact ⟨stored, by simp [carries]⟩
    · exact ⟨stored, by simp [carries]⟩
    · obtain ⟨still, inside, left⟩ := store.take_content s.queue.q (host w) n stored
      refine ⟨still, ?_⟩
      rcases TaskQueue.take_cases ops s.queue.q (host w) n with ⟨task, took⟩ | waits
      · rw [took] at inside left ⊢
        simp only [QueueStore.taken, Option.toFinset_some, Finset.singleton_subset_iff] at inside left
        rw [left, Finset.sdiff_val, Finset.singleton_val, carries]
        exact tsub_add_cancel_of_le (Multiset.singleton_le.mpr inside)
      · rw [waits] at left ⊢
        simp only [QueueStore.taken, Option.toFinset_none, Finset.sdiff_empty] at left
        simp [left, carries]
  refine ⟨moved.1, ?_⟩
  have change := carried_set { s with queue := queue, handed := s.record w out } w (.checking n) (.leaving out) stands
  have none : carries (.checking n : WorkerPc Task) = 0 := rfl
  rw [none, add_zero] at change
  unfold holding
  rw [change]
  change (content queue.q).val + (s.carried + _) = _
  rw [← moved.2]
  abel

theorem holding_quiet (store : QueueStore ops Stored content) (s next : Pool Queue Task) (label : PoolLabel Task Choice)
    (still : quiet label = true) (stored : Stored s.queue.q) (effect : Effect ops host s label next) :
    Stored next.queue.q ∧ next.pushed = s.pushed ∧ next.holding content ≤ s.holding content ∧
      (clears label = false → next.holding content = s.holding content) := by
  -- a worker that changes place without taking or losing anything
  have move : ∀ (before : Pool Queue Task) (w : Nat) (old pc : WorkerPc Task), before.workers[w]? = some old →
      carries pc = carries old → (before.setWorker w pc).holding content = before.holding content := by
    intro before w old pc stands same
    unfold holding
    rw [carried_same before w old pc stands same]
    rfl
  have unchanged : ∀ after : Pool Queue Task, after.holding content = s.holding content →
      after.holding content ≤ s.holding content ∧ (clears label = false → after.holding content = s.holding content) :=
    fun after same => ⟨same.le, fun _ => same⟩
  cases effect with
  | push => cases still
  | taskEnd => cases still
  | fail => cases still
  | acquire w n stands free awake =>
      exact ⟨stored, rfl, unchanged _ (move { s with m := some w, queue := { s.queue with cv := s.queue.cv.resume w } } w _ _
        stands rfl)⟩
  | check w n wake out queue stands turned =>
      obtain ⟨kept, same⟩ := holding_check store s stored w n wake out queue stands turned
      exact ⟨kept, rfl, unchanged _ same⟩
  | leave w out stands =>
      cases out with
      | wait n =>
          exact ⟨stored, rfl, unchanged _ (move { s with m := none, queue := { s.queue with cv := s.queue.cv.wait w } } w _
            (.popping n) stands rfl)⟩
      | task task => exact ⟨stored, rfl, unchanged _ (move { s with m := none } w _ (.executing task) stands rfl)⟩
      | retired => exact ⟨stored, rfl, unchanged _ (move { s with m := none } w _ .exited stands rfl)⟩
      | closed => exact ⟨stored, rfl, unchanged _ (move { s with m := none } w _ .exited stands rfl)⟩
  | stopEnter w stands free =>
      obtain ⟨kept, none⟩ := store.clear s.queue.q stored
      refine ⟨kept, rfl, ?_, fun other => nomatch other⟩
      rw [move { s with m := some w, queue := s.queue.clear ops } w _ .stopRaising stands rfl]
      change (content (ops.clear s.queue.q)).val + s.carried ≤ (content s.queue.q).val + s.carried
      rw [none]
      exact add_le_add_left (Multiset.zero_le _) _
  | stopRaise w stands =>
      exact ⟨stored, rfl, unchanged _ (move { s with queue := s.queue.raiseFinished } w _ .stopSignalling stands rfl)⟩
  | stopSignal w wake cv stands signalled =>
      exact ⟨stored, rfl, unchanged _ (move { s with queue := { s.queue with cv := cv } } w _ .stopLeaving stands rfl)⟩
  | stopLeave w stands => exact ⟨stored, rfl, unchanged _ (move { s with m := none, completed := true } w _ .exited stands rfl)⟩
  | finishRaise idle => exact ⟨stored, rfl, unchanged _ rfl⟩
  | finishSignal wake cv raised signalled => exact ⟨stored, rfl, unchanged _ rfl⟩

theorem holding_push (store : QueueStore ops Stored content) (s next : Pool Queue Task) (tasks : List (Task × Choice))
    (wake : Option Nat) (stored : Stored s.queue.q) (distinct : (tasks.map Prod.fst).Nodup)
    (fresh : ∀ task ∈ tasks, task.1 ∉ content s.queue.q) (effect : Effect ops host s (.push tasks wake) next) :
    Stored next.queue.q ∧ next.pushed = s.pushed ++ tasks.map Prod.fst ∧ next.workers = s.workers ∧
      next.holding content = s.holding content + ↑(tasks.map Prod.fst) := by
  cases effect with
  | push _ _ cv free signalled =>
      obtain ⟨kept, grown⟩ := store.push_all_content s.queue.q tasks stored distinct fresh
      refine ⟨kept, rfl, rfl, ?_⟩
      have apart : Disjoint (content s.queue.q) (tasks.map Prod.fst).toFinset := by
        refine Finset.disjoint_left.mpr fun task waits listed => ?_
        obtain ⟨pair, member, rfl⟩ := List.mem_map.mp (List.mem_toFinset.mp listed)
        exact fresh pair member waits
      change (content (TaskQueue.pushAll ops s.queue.q tasks)).val + s.carried = (content s.queue.q).val + s.carried + _
      rw [grown, ← Finset.disjUnion_eq_union _ _ apart, Finset.disjUnion_val, List.toFinset_val, List.Nodup.dedup distinct]
      abel

-- The end of a task, by its return or by an exception.
variable (content) in
omit [DecidableEq Task] in
theorem holding_end (s next : Pool Queue Task) (label : PoolLabel Task Choice) (w : Nat) (task : Task)
    (ends : label = .taskEnd w ∨ label = .fail w) (stands : s.workers[w]? = some (.executing task))
    (effect : Effect ops host s label next) :
    next.queue = s.queue ∧ next.pushed = s.pushed ∧ next.holding content + {task} = s.holding content := by
  have same : ∀ pc : WorkerPc Task, carries pc = 0 → (s.setWorker w pc).holding content + {task} = s.holding content := by
    intro pc rests
    have change := carried_set s w _ pc stands
    rw [rests, add_zero] at change
    change (content s.queue.q).val + (s.setWorker w pc).carried + carries (.executing task) = _
    rw [add_assoc, change]
    rfl
  rcases ends with rfl | rfl
  · cases effect with
    | taskEnd _ other there => exact ⟨rfl, rfl, same (.popping 0) rfl⟩
  · cases effect with
    | fail _ other there => exact ⟨rfl, rfl, same .stopping rfl⟩

end Steps

end Pool

end Pwrake
