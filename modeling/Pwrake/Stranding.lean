import Pwrake.PoolInvariant
import Mathlib.Logic.ExistsUnique

set_option autoImplicit false

namespace Pwrake.Pool

variable {Task Host : Type*}

abbrev SimplePool (Task : Type*) := Pool (SimpleQueue Task) Task

-- Neither finish nor stop is called; a task may fail, but its worker then has
-- not come to the rescue clause yet.
def Serving (_ : SimplePool Task) : PoolLabel Task Unit → Prop
  | .stopEnter _ | .stopRaise _ | .stopSignal _ _ | .stopLeave _ | .finishRaise | .finishSignal _ => False
  | _ => True

instance (s : SimplePool Task) (label : PoolLabel Task Unit) : Decidable (Serving s label) := by
  cases label <;> unfold Serving <;> infer_instance

-- A queued task with a sleeper about is announced: somebody was woken for it,
-- or the thread inside the critical section is still to look at the queue.
structure Announced (s : SimplePool Task) : Prop where
  opened : s.queue.finished = false
  announced : s.queue.q ≠ [] → s.queue.cv.waiting ≠ [] →
    s.queue.cv.notified ≠ [] ∨ ∃ w n : Nat, s.workers[w]? = some (.checking n)
  drained : ∀ (w n : Nat), s.workers[w]? = some (.leaving (.wait n)) → s.queue.q = []
  accounted : s.handed.map Prod.fst ++ s.queue.q = s.pushed

theorem announced_init (n : Nat) : Announced (init [] n : SimplePool Task) where
  opened := rfl
  announced := fun content => absurd rfl content
  drained := fun _ _ _ => rfl
  accounted := rfl

-- A thread standing neither before its checks nor behind a fruitless one can
-- change its place freely.
theorem announced_move (s : SimplePool Task) (inv : Announced s) (w : Nat) (old pc : WorkerPc Task)
    (stands : s.workers[w]? = some old) (notChecking : ∀ n, old ≠ .checking n)
    (notWaiting : ∀ n, pc ≠ .leaving (.wait n)) : Announced (s.setWorker w pc) where
  opened := inv.opened
  announced := by
    intro content sleepers
    rcases inv.announced content sleepers with woken | ⟨v, n, looks⟩
    · exact .inl woken
    · have different : v ≠ w := by
        rintro rfl
        exact notChecking n (Option.some.inj (stands.symm.trans looks))
      exact .inr ⟨v, n, by rw [set_worker_lookup s w v old pc stands, if_neg different]; exact looks⟩
  drained := by
    intro v n read
    rw [set_worker_lookup s w v old pc stands] at read
    by_cases equal : v = w
    · rw [if_pos equal, Option.some.injEq] at read
      exact absurd read (notWaiting n)
    · rw [if_neg equal] at read
      exact inv.drained v n read
  accounted := inv.accounted

theorem announced_check (host : Nat → Host) (s : SimplePool Task) (wired : Wired s) (inv : Announced s) (w n : Nat)
    (wake : Option Nat) (out : PopOutcome Task) (queue : TaskQueue (SimpleQueue Task) Nat)
    (stands : s.workers[w]? = some (.checking n))
    (turned : s.queue.popTurn SimpleQueue.ops w (host w) n wake = some (out, queue)) :
    Announced ({ s with queue := queue, handed := s.record w out }.setWorker w (.leaving out)) := by
  -- Only w stands inside the critical section, so no other thread is leaving.
  have alone : ∀ v k : Nat, s.workers[v]? = some (.leaving (.wait k)) → v = w := by
    intro v k read
    have mine := wired.owner w _ stands rfl
    exact Option.some.inj ((wired.owner v _ read rfl).symm.trans mine)
  rcases TaskQueue.simple_pop_turn_cases s.queue queue w (host w) n wake out turned with
    ⟨retires, -, -⟩ | ⟨-, closed, -⟩ | ⟨-, -, vacant, rfl, rfl⟩ | ⟨-, -, task, rest, cv, content, rfl, signalled, rfl⟩
  · simp [wired.noRetirement] at retires
  · simp [inv.opened] at closed
  · refine ⟨inv.opened, fun content => absurd vacant content, fun _ _ _ => vacant, inv.accounted⟩
  · refine ⟨inv.opened, ?_, ?_, ?_⟩
    · intro _ sleepers
      exact .inl (CondVar.signal_nonempty s.queue.cv cv wake signalled sleepers)
    · intro v k read
      simp only [setWorker, Slots.lookup_set s.workers w v _ _ stands] at read
      by_cases equal : v = w
      · simp [equal] at read
      · rw [if_neg equal] at read
        exact absurd (alone v k read) equal
    · change (s.handed ++ [(task, w)]).map Prod.fst ++ rest = s.pushed
      rw [← inv.accounted, content]
      simp

theorem announced_step (host : Nat → Host) (s next : SimplePool Task) (label : PoolLabel Task Unit)
    (wired : Wired s) (inv : Announced s) (serving : Serving s label)
    (effect : Effect SimpleQueue.ops host s label next) : Announced next := by
  cases effect with
  | push tasks wake cv free signalled =>
      refine ⟨inv.opened, ?_, ?_, ?_⟩
      · intro _ sleepers
        exact .inl (CondVar.signal_nonempty s.queue.cv cv wake signalled sleepers)
      · intro w n read
        exact nomatch free.symm.trans (wired.owner w _ read rfl)
      · change s.handed.map Prod.fst ++ TaskQueue.pushAll SimpleQueue.ops s.queue.q tasks = _
        rw [TaskQueue.simple_push_all, ← inv.accounted, List.append_assoc]
  | acquire w n stands free awake =>
      refine ⟨inv.opened, ?_, ?_, inv.accounted⟩
      · intro _ _
        exact .inr ⟨w, n, by simp only [setWorker, Slots.lookup_set s.workers w w _ _ stands, if_true]⟩
      · intro v k read
        simp only [setWorker, Slots.lookup_set s.workers w v _ _ stands] at read
        by_cases equal : v = w
        · simp [equal] at read
        · rw [if_neg equal] at read
          exact inv.drained v k read
  | check w n wake out queue stands turned => exact announced_check host s wired inv w n wake out queue stands turned
  | leave w out stands =>
      have moved := fun pc => announced_move s inv w (.leaving out) pc stands (by simp)
      cases out with
      | wait n =>
          have vacant := inv.drained w n stands
          exact ⟨inv.opened, fun content => absurd vacant content, fun _ _ _ => vacant, inv.accounted⟩
      | task task =>
          obtain ⟨opened, announced, drained, accounted⟩ := moved (.executing task) (by simp)
          exact ⟨opened, announced, drained, accounted⟩
      | retired =>
          obtain ⟨opened, announced, drained, accounted⟩ := moved .exited (by simp)
          exact ⟨opened, announced, drained, accounted⟩
      | closed =>
          obtain ⟨opened, announced, drained, accounted⟩ := moved .exited (by simp)
          exact ⟨opened, announced, drained, accounted⟩
  | taskEnd w task stands => exact announced_move s inv w _ _ stands (by simp) (by simp)
  | fail w task stands => exact announced_move s inv w _ _ stands (by simp) (by simp)
  | stopEnter => exact serving.elim
  | stopRaise => exact serving.elim
  | stopSignal => exact serving.elim
  | stopLeave => exact serving.elim
  | finishRaise => exact serving.elim
  | finishSignal => exact serving.elim

theorem announced_run (host : Nat → Host) (n : Nat) (s : SimplePool Task)
    (run : Machine.Run (step SimpleQueue.ops host) Serving (init [] n) s) : Announced s :=
  Machine.run_invariant Announced (init [] n) (announced_init n)
    (fun before after label run inv serving taken =>
      announced_step host before after label (wired_run SimpleQueue.ops host Serving [] n before run) inv serving
        (step_effect SimpleQueue.ops host before after label taken)) s run

-- First-come first-served hand-out, read as ownership of one task.
theorem handed_or_queued (handed : List (Task × Nat)) (queued pushed : List Task)
    (accounted : handed.map Prod.fst ++ queued = pushed) (distinct : pushed.Nodup) (task : Task)
    (member : task ∈ pushed) :
    (task ∈ queued ∧ ∀ w, (task, w) ∉ handed) ∨ (task ∉ queued ∧ ∃! w, (task, w) ∈ handed) := by
  rw [← accounted] at distinct member
  obtain ⟨once, -, apart⟩ := List.nodup_append.mp distinct
  rcases List.mem_append.mp member with given | waits
  · obtain ⟨⟨_, w⟩, entry, rfl⟩ := List.mem_map.mp given
    refine .inr ⟨fun queued => apart _ given _ queued rfl, w, entry, ?_⟩
    intro v other
    have same := List.inj_on_of_nodup_map once other entry rfl
    exact congrArg Prod.snd same
  · refine .inl ⟨waits, fun w entry => ?_⟩
    exact apart task (List.mem_map.mpr ⟨(task, w), entry, rfl⟩) task waits rfl

theorem no_task_stranded (host : Nat → Host) (n : Nat) (s : SimplePool Task)
    (run : Machine.Run (step SimpleQueue.ops host) Serving (init [] n) s) :
    (s.m = none → s.queue.q ≠ [] → s.queue.cv.waiting ≠ [] →
      ∃ w k : Nat, w ∈ s.queue.cv.notified ∧ s.workers[w]? = some (.popping k)) ∧
    s.handed.map Prod.fst ++ s.queue.q = s.pushed ∧
    (s.pushed.Nodup → ∀ task ∈ s.pushed,
      (task ∈ s.queue.q ∧ ∀ w, (task, w) ∉ s.handed) ∨ (task ∉ s.queue.q ∧ ∃! w, (task, w) ∈ s.handed)) := by
  have wired := wired_run SimpleQueue.ops host Serving [] n s run
  have inv := announced_run host n s run
  refine ⟨?_, inv.accounted, fun distinct task member =>
    handed_or_queued s.handed s.queue.q s.pushed inv.accounted distinct task member⟩
  intro free content sleepers
  have woken : s.queue.cv.notified ≠ [] := by
    rcases inv.announced content sleepers with woken | ⟨w, k, looks⟩
    · exact woken
    · exact nomatch free.symm.trans (wired.owner w _ looks rfl)
  obtain ⟨w, member⟩ := List.exists_mem_of_ne_nil _ woken
  obtain ⟨k, stands⟩ := wired.woken w member
  exact ⟨w, k, member, stands⟩

-- Two workers go to sleep on an empty queue; one push then announces a batch of
-- two with a single signal.
theorem batch_announced :
    ∃ s : SimplePool Nat, s.queue.q = [7, 8] ∧ s.queue.cv.waiting = [0] ∧
      (∃ w k : Nat, w ∈ s.queue.cv.notified ∧ s.workers[w]? = some (.popping k)) ∧
      s.handed.map Prod.fst ++ s.queue.q = s.pushed := by
  obtain ⟨s, run, free, content, sleepers⟩ := Machine.run_of_exec (step SimpleQueue.ops fun _ => ()) Serving
    (fun s : SimplePool Nat => s.m = none ∧ s.queue.q = [7, 8] ∧ s.queue.cv.waiting = [0])
    [.acquire 0, .check 0 none, .leave 0, .acquire 1, .check 1 none, .leave 1, .push [(7, ()), (8, ())] (some 1)]
    (init [] 2) (by decide)
  obtain ⟨announced, accounted, -⟩ := no_task_stranded (fun _ => ()) 2 s run
  exact ⟨s, content, sleepers, announced free (by simp [content]) (by simp [sleepers]), accounted⟩

end Pwrake.Pool
