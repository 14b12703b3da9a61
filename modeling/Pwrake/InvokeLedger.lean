import Pwrake.Holding
import Pwrake.InvokeTask

set_option autoImplicit false

namespace Pwrake

def Stage.begun {Task : Type*} : Stage Task → Multiset Task
  | .idle => 0
  | .running task => {task}
  | .executed task => {task}

def Stage.done {Task : Type*} : Stage Task → Multiset Task
  | .executed task => {task}
  | _ => 0

namespace InvokeTask

variable {Queue Task Host Choice Name Scope : Type*}

-- The tasks that were put into the output queue.
def completed (s : InvokeTask Queue Task) : Multiset Task := ↑(s.collected ++ s.outputQueue)

def accounted (content : Queue → Finset Task) (s : InvokeTask Queue Task) : Multiset Task :=
  s.pool.holding content + s.completed + ↑s.failed

-- The rescue clause of standard_exception_handling.
def stops : WorkerPc Task → Bool
  | .stopping | .stopRaising | .stopSignalling | .stopLeaving => true
  | _ => false

-- Every pushed task is in exactly one place; only a stop, which comes after a
-- task has failed, loses any.
structure Ledger (Stored : Queue → Prop) (content : Queue → Finset Task) (s : InvokeTask Queue Task) : Prop where
  stored : Stored s.pool.queue.q
  agrees : ∀ (w : Nat) (task : Task), s.stages[w]? = some (.running task) ∨ s.stages[w]? = some (.executed task) →
    s.pool.workers[w]? = some (.executing task)
  within : s.accounted content ≤ ↑s.pool.pushed
  kept : s.failed = [] → s.accounted content = ↑s.pool.pushed
  started : (s.started : Multiset Task) = (s.stages.map Stage.begun).sum + s.completed + ↑s.failed
  ended : (s.ended : Multiset Task) = (s.stages.map Stage.done).sum + s.completed
  stopping : ∀ (w : Nat) (pc : WorkerPc Task), s.pool.workers[w]? = some pc → stops pc = true → s.failed ≠ []

section Steps

variable {ops : QueueOps Queue Task Host Choice} {host : Nat → Host} {Stored : Queue → Prop} {content : Queue → Finset Task}
  {s : InvokeTask Queue Task}

theorem ledger_new (q : Queue) (n : Nat) (stored : Stored q) (vacant : content q = ∅) :
    Ledger Stored content (new q n : InvokeTask Queue Task) where
  stored := stored
  agrees := by
    rintro w task (stage | stage)
    · cases Slots.lookup_replicate n w _ _ stage
    · cases Slots.lookup_replicate n w _ _ stage
  within := by simp [accounted, Pool.holding, completed, new, Pool.init, TaskQueue.new, vacant, Pool.carried, Pool.carries]
  kept := fun _ => by simp [accounted, Pool.holding, completed, new, Pool.init, TaskQueue.new, vacant, Pool.carried, Pool.carries]
  started := by simp [new, Stage.begun, completed]
  ended := by simp [new, Stage.done, completed]
  stopping := by
    intro w pc stands halts
    rw [Slots.lookup_replicate n w _ _ stands] at halts
    cases halts

-- A step of the threads that neither pushes nor ends a task.
theorem ledger_quiet [DecidableEq Task] (store : QueueStore ops Stored content) (ledger : Ledger Stored content s)
    (label : PoolLabel Task Choice) (pool : Pool Queue Task) (still : Pool.quiet label = true)
    (effect : Pool.Effect ops host s.pool label pool) (after : InvokeTask Queue Task) (same : after.pool = pool)
    (stages : after.stages = s.stages) (completed : after.completed = s.completed) (failed : after.failed = s.failed)
    (started : after.started = s.started) (ended : after.ended = s.ended) : Ledger Stored content after := by
  obtain ⟨stored, pushed, less, equal⟩ := Pool.holding_quiet store s.pool pool label still ledger.stored effect
  refine ⟨same ▸ stored, fun w task stage => ?_, ?_, fun sound => ?_, ?_, ?_, fun w pc stands halts => ?_⟩
  · rw [stages] at stage
    rcases Pool.effect_kept ops host s.pool pool label effect w _ (ledger.agrees w task stage) with stays | ⟨fresh, -, turn⟩
    · exact same ▸ stays
    · cases turn <;> cases still
  · unfold accounted
    rw [same, completed, failed, pushed]
    exact (add_le_add_left (add_le_add_left less _) _).trans ledger.within
  · have whole : Pool.clears label = false := by
      cases clear : Pool.clears label with
      | false => rfl
      | true =>
          cases effect with
          | stopEnter w stands free => exact absurd (failed ▸ sound) (ledger.stopping w _ stands rfl)
          | _ => cases clear
    unfold accounted
    rw [same, completed, failed, pushed, equal whole]
    exact ledger.kept (failed ▸ sound)
  · rw [started, stages, completed, failed]
    exact ledger.started
  · rw [ended, stages, completed]
    exact ledger.ended
  · rw [same] at stands
    rw [failed]
    rcases Pool.effect_place ops host s.pool pool label effect w pc stands with before | ⟨old, before, turn⟩
    · exact ledger.stopping w pc before halts
    · cases turn with
      | fail => cases still
      | stopEnter => exact ledger.stopping w _ before rfl
      | stopRaise => exact ledger.stopping w _ before rfl
      | stopSignal => exact ledger.stopping w _ before rfl
      | _ => cases halts

theorem ledger_start (ledger : Ledger Stored content s) (w : Nat) (task : Task)
    (stands : s.pool.workers[w]? = some (.executing task)) (stage : s.stages[w]? = some .idle) (tracer : TraceState Task) :
    Ledger Stored content { s with
      tracer := tracer, stages := s.stages.set w (.running task), started := s.started ++ [task] } := by
  have begun := Slots.sum_set Stage.begun s.stages w .idle (.running task) stage
  have done := Slots.sum_set Stage.done s.stages w .idle (.running task) stage
  have unbegun : Stage.begun (.idle : Stage Task) = 0 := rfl
  have undone : Stage.done (.idle : Stage Task) = 0 := rfl
  have underway : Stage.done (.running task) = 0 := rfl
  rw [unbegun, add_zero] at begun
  rw [undone, underway, add_zero, add_zero] at done
  refine ⟨ledger.stored, fun v other found => ?_, ledger.within, ledger.kept, ?_, ?_, ledger.stopping⟩
  · by_cases same : v = w
    · subst same
      have running : (s.stages.set v (.running task))[v]? = some (.running task) := by
        rw [Slots.lookup_set s.stages v v _ _ stage, if_pos rfl]
      rcases found with found | found
      · cases running.symm.trans found
        exact stands
      · cases running.symm.trans found
    · simp only [List.getElem?_set_ne (Ne.symm same)] at found
      exact ledger.agrees v other found
  · change (↑(s.started ++ [task]) : Multiset Task) = ((s.stages.set w (.running task)).map Stage.begun).sum +
      s.completed + ↑s.failed
    rw [begun, ← Multiset.coe_add, ledger.started, Stage.begun, Multiset.coe_singleton]
    abel
  · change (↑s.ended : Multiset Task) = ((s.stages.set w (.running task)).map Stage.done).sum + _
    rw [done]
    exact ledger.ended

theorem ledger_execute (ledger : Ledger Stored content s) (w : Nat) (task : Task) (stage : s.stages[w]? = some (.running task)) :
    Ledger Stored content { s with stages := s.stages.set w (.executed task), ended := s.ended ++ [task] } := by
  have begun := Slots.sum_set_same Stage.begun s.stages w (.running task) (.executed task) stage rfl
  have done := Slots.sum_set Stage.done s.stages w (.running task) (.executed task) stage
  have underway : Stage.done (.running task) = 0 := rfl
  rw [underway, add_zero] at done
  refine ⟨ledger.stored, fun v other found => ?_, ledger.within, ledger.kept, ?_, ?_, ledger.stopping⟩
  · by_cases same : v = w
    · subst same
      have finished : (s.stages.set v (.executed task))[v]? = some (.executed task) := by
        rw [Slots.lookup_set s.stages v v _ _ stage, if_pos rfl]
      rcases found with found | found
      · cases finished.symm.trans found
      · cases finished.symm.trans found
        exact ledger.agrees v task (.inl stage)
    · simp only [List.getElem?_set_ne (Ne.symm same)] at found
      exact ledger.agrees v other found
  · change (↑s.started : Multiset Task) = ((s.stages.set w (.executed task)).map Stage.begun).sum + _ + _
    rw [begun]
    exact ledger.started
  · change (↑(s.ended ++ [task]) : Multiset Task) = ((s.stages.set w (.executed task)).map Stage.done).sum +
      s.completed
    rw [done, ← Multiset.coe_add, ledger.ended, Stage.done, Multiset.coe_singleton]
    abel

-- The worker lets the task go, into the output queue or as failed.
theorem ledger_end (ledger : Ledger Stored content s) (w : Nat) (task : Task) (label : PoolLabel Task Choice)
    (pool : Pool Queue Task) (ends : label = .taskEnd w ∨ label = .fail w)
    (stage : s.stages[w]? = some (.running task) ∨ s.stages[w]? = some (.executed task))
    (effect : Pool.Effect ops host s.pool label pool) (after : InvokeTask Queue Task) (same : after.pool = pool)
    (stages : after.stages = s.stages.set w .idle)
    (moved : after.completed + ↑after.failed = s.completed + ↑s.failed + {task})
    (started : after.started = s.started) (ended : (after.ended : Multiset Task) = (after.stages.map Stage.done).sum + after.completed)
    (failed : after.failed = [] → s.failed = []) (stopped : label = .fail w → after.failed ≠ []) :
    Ledger Stored content after := by
  have stands := ledger.agrees w task stage
  obtain ⟨queue, pushed, holding⟩ := Pool.holding_end content s.pool pool label w task ends stands effect
  have balance : after.accounted content = s.accounted content := by
    calc after.accounted content = pool.holding content + (after.completed + ↑after.failed) := by
          rw [accounted, same, add_assoc]
      _ = pool.holding content + {task} + (s.completed + ↑s.failed) := by rw [moved]; abel
      _ = s.accounted content := by rw [holding, accounted, add_assoc]
  refine ⟨same ▸ queue ▸ ledger.stored, fun v other found => ?_, ?_, fun sound => ?_, ?_, ended, fun v pc there halts => ?_⟩
  · rw [stages] at found
    have apart : v ≠ w := by
      rintro rfl
      obtain ⟨stage, occupied⟩ : ∃ stage, s.stages[v]? = some stage := stage.elim (fun here => ⟨_, here⟩) fun here => ⟨_, here⟩
      rw [Slots.lookup_set s.stages v v stage _ occupied, if_pos rfl] at found
      rcases found with found | found <;> cases found
    rw [List.getElem?_set_ne (Ne.symm apart)] at found
    rw [same]
    rcases Pool.effect_kept ops host s.pool pool label effect v _ (ledger.agrees v other found) with stays | ⟨fresh, -, turn⟩
    · exact stays
    · rcases ends with rfl | rfl <;> cases turn <;> exact absurd rfl apart
  · rw [balance, same, pushed]
    exact ledger.within
  · rw [balance, same, pushed]
    exact ledger.kept (failed sound)
  · have begun : ((s.stages.set w .idle).map Stage.begun).sum + {task} = (s.stages.map Stage.begun).sum := by
      rcases stage with stage | stage
      · simpa [Stage.begun] using Slots.sum_set Stage.begun s.stages w _ .idle stage
      · simpa [Stage.begun] using Slots.sum_set Stage.begun s.stages w _ .idle stage
    calc (after.started : Multiset Task) = (s.stages.map Stage.begun).sum + (s.completed + ↑s.failed) := by
          rw [started, ledger.started, add_assoc]
      _ = ((s.stages.set w .idle).map Stage.begun).sum + (s.completed + ↑s.failed + {task}) := by rw [← begun]; abel
      _ = (after.stages.map Stage.begun).sum + after.completed + ↑after.failed := by rw [← moved, stages, add_assoc]
  · rw [same] at there
    rcases Pool.effect_place ops host s.pool pool label effect v pc there with before | ⟨old, before, turn⟩
    · exact fun none => ledger.stopping v pc before halts (failed none)
    · rcases ends with rfl | rfl
      · cases turn
        cases halts
      · exact stopped rfl

section Readings

variable (ledger : Ledger Stored content s)
include ledger

theorem completed_within : s.completed ≤ ↑s.pool.pushed := by
  refine le_trans ?_ ledger.within
  rw [accounted, add_right_comm]
  exact Multiset.le_add_left _ _

theorem stage_carried (w : Nat) (stage : Stage Task) (task : Task) (stands : s.stages[w]? = some stage)
    (begun : task ∈ stage.begun) : s.pool.workers[w]? = some (.executing task) := by
  cases stage with
  | idle => simp [Stage.begun] at begun
  | running other =>
      obtain rfl : task = other := by simpa [Stage.begun] using begun
      exact ledger.agrees w task (.inl stands)
  | executed other =>
      obtain rfl : task = other := by simpa [Stage.begun] using begun
      exact ledger.agrees w task (.inr stands)

omit ledger in
theorem stage_member (weight : Stage Task → Multiset Task) (task : Task) (member : task ∈ (s.stages.map weight).sum) :
    ∃ (w : Nat) (stage : Stage Task), s.stages[w]? = some stage ∧ task ∈ weight stage := by
  rw [← Multiset.sum_coe] at member
  obtain ⟨part, inside, holds⟩ := Multiset.mem_join.mp member
  obtain ⟨stage, placed, rfl⟩ := List.mem_map.mp (Multiset.mem_coe.mp inside)
  obtain ⟨w, read⟩ := List.mem_iff_getElem?.mp placed
  exact ⟨w, stage, read, holds⟩

theorem started_cases (task : Task) (member : task ∈ s.started) :
    (∃ w : Nat, s.pool.workers[w]? = some (.executing task)) ∨ task ∈ s.completed ∨ task ∈ s.failed := by
  have inside := Multiset.mem_coe.mpr member
  rw [ledger.started, Multiset.mem_add, Multiset.mem_add] at inside
  rcases inside with (begun | completed) | failed
  · obtain ⟨w, stage, stands, holds⟩ := stage_member Stage.begun task begun
    exact .inl ⟨w, stage_carried ledger w stage task stands holds⟩
  · exact .inr (.inl completed)
  · exact .inr (.inr (Multiset.mem_coe.mp failed))

theorem completed_ended (task : Task) (member : task ∈ s.completed) : task ∈ s.ended := by
  refine Multiset.mem_coe.mp ?_
  rw [ledger.ended]
  exact Multiset.mem_add.mpr (.inr member)

-- Once as much was collected as was pushed, nothing is under way.
theorem settled_all (all : s.collected.length = s.pool.pushed.length) :
    s.pool.holding content = 0 ∧ s.outputQueue = [] ∧ s.failed = [] ∧ (s.collected : Multiset Task) = ↑s.pool.pushed := by
  have split : s.accounted content = ↑s.collected + (s.pool.holding content + ↑s.outputQueue + ↑s.failed) := by
    rw [accounted, completed, ← Multiset.coe_add]
    abel
  have size := Multiset.card_le_card ledger.within
  rw [split, Multiset.card_add, Multiset.card_add, Multiset.card_add] at size
  simp only [Multiset.coe_card, all] at size
  have held : (s.pool.holding content).card = 0 := by omega
  have output : s.outputQueue.length = 0 := by omega
  have failed : s.failed.length = 0 := by omega
  refine ⟨Multiset.card_eq_zero.mp held, List.length_eq_zero_iff.mp output, List.length_eq_zero_iff.mp failed, ?_⟩
  refine Multiset.eq_of_le_of_card_le ?_ (by simp [all])
  refine le_trans ?_ ledger.within
  rw [split]
  exact Multiset.le_add_right _ _

theorem settled_started (all : s.collected.length = s.pool.pushed.length) (task : Task) (member : task ∈ s.started) :
    task ∈ s.ended := by
  obtain ⟨idle, -, sound, -⟩ := settled_all ledger all
  rcases started_cases ledger task member with ⟨w, stands⟩ | completed | failed
  · have held : task ∈ s.pool.holding content :=
      Multiset.mem_add.mpr (.inr (Pool.carried_member s.pool w _ task stands (Multiset.mem_singleton_self task)))
    rw [idle] at held
    exact absurd held (Multiset.notMem_zero task)
  · exact completed_ended ledger task completed
  · simp [sound] at failed

end Readings

end Steps

end InvokeTask

end Pwrake
