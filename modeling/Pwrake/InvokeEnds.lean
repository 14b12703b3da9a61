import Pwrake.InvokeOrder
import Pwrake.PoolWeight

set_option autoImplicit false

namespace Pwrake

namespace InvokeTask

open Tracer

variable {Queue Task Host Choice Name Scope : Type*}

def stageWeight : Stage Task → Nat
  | .idle => 2
  | .running _ => 1
  | .executed _ => 0

-- The rounds that are left are bounded by the tasks that no trace has fetched.
def mainWeight [Fintype Task] (s : InvokeTask Queue Task) : Nat :=
  match s.main with
  | .trace => 80 * (Fintype.card Task - s.tracer.fetched.card) + s.pool.workers.length + 20
  | .push => 80 * (Fintype.card Task - s.tracer.fetched.card) + 42 * s.batch.length + s.pool.workers.length + 40
  | .collect taken =>
      80 * (Fintype.card Task - s.tracer.fetched.card) + (s.batch.length - taken) + s.pool.workers.length + 21
  | .finishing => s.pool.workers.length + 18
  | .signalling => s.pool.workers.length + 10
  | .joining j => s.pool.workers.length + 1 - j
  | .returned => 0

def weight [Fintype Task] (content : Queue → Finset Task) (s : InvokeTask Queue Task) : Nat :=
  s.mainWeight + 2 * s.pool.weight content + (s.stages.map stageWeight).sum + s.raises

section Steps

variable [DecidableEq Task] [Fintype Task] {app : Application Task Name Scope} {root : Task} {ops : QueueOps Queue Task Host Choice}
  {host : Nat → Host} {Stored : Queue → Prop} {content : Queue → Finset Task} {s : InvokeTask Queue Task}

-- A round that goes on has found something new: what was fetched before has
-- ended, so only a new task can block the root.
theorem batch_grows (kept : Kept app root Stored content s) (stands : s.main = .trace) (needed : Task → Bool) (status : Status)
    (tracer : TraceState Task) (ran : availableTask app needed root (Tracing.cleared s.tracer) = (.ok (some status), tracer)) :
    1 ≤ tracer.fetchedTasks.length ∧ s.tracer.fetched.card + tracer.fetchedTasks.length ≤ tracer.fetched.card := by
  have outcome := Tracing.call_outcome needed root s.tracer tracer _ ran
  have even : s.collected.length = s.pool.pushed.length := by simpa only [Tallied, stands] using kept.books.tallied
  constructor
  · have blocked := available_task_blocked app needed root (Tracing.cleared s.tracer) rfl status (by rw [ran])
    rw [ran] at blocked
    obtain ⟨lower, -, fetched, uninvoked⟩ := blocked
    refine List.length_pos_of_mem (a := lower) ?_
    rcases (outcome.fetched lower).mp fetched with earlier | now | ⟨invoked, -⟩
    · refine absurd (outcome.invoked ?_) uninvoked
      refine (kept.books.invoked lower).mpr ((kept.books.all (by rw [stands]; rfl) lower earlier).imp_left fun given => ?_)
      rw [given_of_main (by simp [stands])] at given
      have same := (settled_all kept.ledger even).2.2.2
      have collected : lower ∈ s.completed :=
        Multiset.mem_coe.mpr (List.mem_append_left _ (Multiset.mem_coe.mp (same ▸ Multiset.mem_coe.mpr given)))
      exact started_of_ended kept.ledger lower (completed_ended kept.ledger lower collected)
    · exact now
    · exact absurd invoked uninvoked
  · have apart : Disjoint s.tracer.fetched tracer.fetchedTasks.toFinset :=
      Finset.disjoint_left.mpr fun task earlier now => (outcome.chosen task (List.mem_toFinset.mp now)).2.1 earlier
    rw [← List.toFinset_card_of_nodup outcome.distinct, ← Finset.card_union_of_disjoint apart]
    refine Finset.card_le_card fun task member => (outcome.fetched task).mpr ?_
    rcases Finset.mem_union.mp member with earlier | now
    · exact .inl earlier
    · exact .inr (.inl (List.mem_toFinset.mp now))

theorem weight_step (store : QueueStore ops Stored content) (kept : Kept app root Stored content s) (wired : Pool.Wired s.pool)
    (patient : Pool.Patient s.pool) (after : InvokeTask Queue Task) (label : InvokeLabel Task Choice)
    (effect : Effect app root ops host s label after) : after.weight content < s.weight content := by
  have ledger := kept.ledger
  have stored := ledger.stored
  have size : ∀ (label : PoolLabel Task Choice) (pool : Pool Queue Task), s.pool.step ops host label = some pool →
      pool.workers.length = s.pool.workers.length := fun label pool moved =>
    Pool.worker_count ops host _ _ label (Pool.step_effect ops host _ _ _ moved)
  -- main is where it was, and the Tracer has fetched as much
  have standing : ∀ after : InvokeTask Queue Task, after.main = s.main → after.tracer.fetched = s.tracer.fetched →
      after.batch = s.batch → after.pool.workers.length = s.pool.workers.length → after.mainWeight = s.mainWeight := by
    intro after main fetched batch workers
    unfold mainWeight
    rw [main, fetched, batch, workers]
  have stage : ∀ (w : Nat) (old fresh : Stage Task), s.stages[w]? = some old →
      ((s.stages.set w fresh).map stageWeight).sum + stageWeight old = (s.stages.map stageWeight).sum + stageWeight fresh :=
    fun w old fresh there => Slots.sum_set stageWeight s.stages w old fresh there
  have threads : ∀ (label : PoolLabel Task Choice) (pool : Pool Queue Task), Pool.quiet label = true →
      (∀ wake, label ≠ .finishRaise ∧ label ≠ .finishSignal wake) → s.pool.step ops host label = some pool →
      pool.weight content < s.pool.weight content := fun label pool still worker moved =>
    Pool.weight_step store pool label wired stored patient still worker (Pool.step_effect ops host _ _ _ moved)
  cases effect with
  | worker label pool own moved =>
      have less := threads label pool (by cases label <;> first | rfl | cases own)
        (fun wake => ⟨fun same => (by rw [same] at own; cases own), fun same => (by rw [same] at own; cases own)⟩) moved
      have same := standing { s with pool := pool } rfl rfl rfl (size label pool moved)
      change _ + 2 * pool.weight content + (s.stages.map stageWeight).sum + s.raises < _
      unfold weight
      omega
  | start w task stands there =>
      have moved := stage w _ (.running task) there
      have places : stageWeight (.idle : Stage Task) = 2 ∧ stageWeight (.running task) = 1 := ⟨rfl, rfl⟩
      have same := standing { s with
        tracer := { s.tracer with invoked := insert task s.tracer.invoked }
        stages := s.stages.set w (.running task)
        started := s.started ++ [task] } rfl rfl rfl rfl
      change _ + 2 * s.pool.weight content + ((s.stages.set w (.running task)).map stageWeight).sum + s.raises < _
      unfold weight
      omega
  | execute w task there =>
      have moved := stage w _ (.executed task) there
      have places : stageWeight (.running task) = 1 ∧ stageWeight (.executed task) = 0 := ⟨rfl, rfl⟩
      have same := standing { s with stages := s.stages.set w (.executed task), ended := s.ended ++ [task] } rfl rfl rfl rfl
      change _ + 2 * s.pool.weight content + ((s.stages.set w (.executed task)).map stageWeight).sum + s.raises < _
      unfold weight
      omega
  | complete w task pool there moved =>
      have less := Pool.weight_end content pool _ w task (.inl rfl) (ledger.agrees w task (.inr there))
        (Pool.step_effect ops host _ _ _ moved)
      have changed := stage w _ .idle there
      have places : stageWeight (.executed task) = 0 ∧ stageWeight (.idle : Stage Task) = 2 := ⟨rfl, rfl⟩
      have same := standing { s with pool := pool, stages := s.stages.set w .idle, outputQueue := s.outputQueue ++ [task] }
        rfl rfl rfl (size _ pool moved)
      change _ + 2 * pool.weight content + ((s.stages.set w .idle).map stageWeight).sum + s.raises < _
      unfold weight
      omega
  | fail w task pool there moved =>
      have less := Pool.weight_end content pool _ w task (.inr rfl) (ledger.agrees w task (.inl there))
        (Pool.step_effect ops host _ _ _ moved)
      have changed := stage w _ .idle there
      have places : stageWeight (.running task) = 1 ∧ stageWeight (.idle : Stage Task) = 2 := ⟨rfl, rfl⟩
      have same := standing { s with pool := pool, stages := s.stages.set w .idle, failed := s.failed ++ [task] }
        rfl rfl rfl (size _ pool moved)
      change _ + 2 * pool.weight content + ((s.stages.set w .idle).map stageWeight).sum + s.raises < _
      unfold weight
      omega
  | die w pool moved =>
      have less := threads _ pool rfl (by simp) moved
      have same := standing { s with pool := pool, dead := insert w s.dead, raises := s.raises + 1 } rfl rfl rfl (size _ pool moved)
      change _ + 2 * pool.weight content + (s.stages.map stageWeight).sum + (s.raises + 1) < _
      unfold weight
      omega
  | traceBatch needed status tracer stands ran =>
      obtain ⟨some, more⟩ := batch_grows kept stands needed status tracer ran
      have bound := Finset.card_le_univ tracer.fetched
      have before : s.mainWeight = 80 * (Fintype.card Task - s.tracer.fetched.card) + s.pool.workers.length + 20 := by
        simp only [mainWeight, stands]
      change 80 * (Fintype.card Task - tracer.fetched.card) + 42 * tracer.fetchedTasks.length + s.pool.workers.length + 40 +
        2 * s.pool.weight content + (s.stages.map stageWeight).sum + s.raises < _
      unfold weight
      omega
  | traceNil needed tracer stands ran =>
      have before : s.mainWeight = 80 * (Fintype.card Task - s.tracer.fetched.card) + s.pool.workers.length + 20 := by
        simp only [mainWeight, stands]
      change s.pool.workers.length + 18 + 2 * s.pool.weight content + (s.stages.map stageWeight).sum + s.raises < _
      unfold weight
      omega
  | traceError needed error tracer stands ran =>
      have before : s.mainWeight = 80 * (Fintype.card Task - s.tracer.fetched.card) + s.pool.workers.length + 20 := by
        simp only [mainWeight, stands]
      change s.pool.workers.length + 18 + 2 * s.pool.weight content + (s.stages.map stageWeight).sum + s.raises < _
      unfold weight
      omega
  | push choice wake pool stands moved =>
      obtain ⟨distinct, fresh⟩ := push_fresh ledger kept.books stands choice
      have more := Pool.weight_push store pool _ wake stored distinct fresh (Pool.step_effect ops host _ _ _ moved)
      rw [List.length_map] at more
      have same := size _ pool moved
      have before : s.mainWeight =
          80 * (Fintype.card Task - s.tracer.fetched.card) + 42 * s.batch.length + s.pool.workers.length + 40 := by
        simp only [mainWeight, stands]
      change 80 * (Fintype.card Task - s.tracer.fetched.card) + (s.batch.length - 0) + pool.workers.length + 21 +
        2 * pool.weight content + (s.stages.map stageWeight).sum + s.raises < _
      unfold weight
      omega
  | collect taken b rest stands read more listed =>
      have before : s.mainWeight =
          80 * (Fintype.card Task - s.tracer.fetched.card) + (s.batch.length - taken) + s.pool.workers.length + 21 := by
        simp only [mainWeight, stands]
      change 80 * (Fintype.card Task - s.tracer.fetched.card) + (s.batch.length - (taken + 1)) + s.pool.workers.length + 21 +
        2 * s.pool.weight content + (s.stages.map stageWeight).sum + s.raises < _
      unfold weight
      omega
  | stray taken b rest stands read more foreign =>
      have before : s.mainWeight =
          80 * (Fintype.card Task - s.tracer.fetched.card) + (s.batch.length - taken) + s.pool.workers.length + 21 := by
        simp only [mainWeight, stands]
      change s.pool.workers.length + 18 + 2 * s.pool.weight content + (s.stages.map stageWeight).sum + s.raises < _
      unfold weight
      omega
  | again taken stands all =>
      have before : s.mainWeight =
          80 * (Fintype.card Task - s.tracer.fetched.card) + (s.batch.length - taken) + s.pool.workers.length + 21 := by
        simp only [mainWeight, stands]
      change 80 * (Fintype.card Task - s.tracer.fetched.card) + s.pool.workers.length + 20 + 2 * s.pool.weight content +
        (s.stages.map stageWeight).sum + s.raises < _
      unfold weight
      omega
  | finishRaise pool stands moved =>
      have more := Pool.weight_finish content pool _ (.inl rfl) (Pool.step_effect ops host _ _ _ moved)
      have same := size _ pool moved
      have before : s.mainWeight = s.pool.workers.length + 18 := by simp only [mainWeight, stands]
      change pool.workers.length + 10 + 2 * pool.weight content + (s.stages.map stageWeight).sum + s.raises < _
      unfold weight
      omega
  | finishSignal wake pool stands moved =>
      have more := Pool.weight_finish content pool _ (.inr ⟨wake, rfl⟩) (Pool.step_effect ops host _ _ _ moved)
      have same := size _ pool moved
      have before : s.mainWeight = s.pool.workers.length + 10 := by simp only [mainWeight, stands]
      change pool.workers.length + 1 - 0 + 2 * pool.weight content + (s.stages.map stageWeight).sum + s.raises < _
      unfold weight
      omega
  | joinedAll j stands last =>
      have within : j ≤ s.pool.workers.length := by
        by_contra beyond
        have gone := kept.joined.joining j stands s.pool.workers.length (Nat.lt_of_not_le beyond)
        exact absurd (List.getElem?_eq_some_iff.mp gone).1 (Nat.lt_irrefl _)
      have before : s.mainWeight = s.pool.workers.length + 1 - j := by simp only [mainWeight, stands]
      change 0 + 2 * s.pool.weight content + (s.stages.map stageWeight).sum + s.raises < _
      unfold weight
      omega
  | joined j stands exited living =>
      have inside := (List.getElem?_eq_some_iff.mp exited).1
      have before : s.mainWeight = s.pool.workers.length + 1 - j := by simp only [mainWeight, stands]
      change s.pool.workers.length + 1 - (j + 1) + 2 * s.pool.weight content + (s.stages.map stageWeight).sum + s.raises < _
      unfold weight
      omega
  | joinRaised j stands exited dead =>
      have inside := (List.getElem?_eq_some_iff.mp exited).1
      have before : s.mainWeight = s.pool.workers.length + 1 - j := by simp only [mainWeight, stands]
      change 0 + 2 * s.pool.weight content + (s.stages.map stageWeight).sum + s.raises < _
      unfold weight
      omega
  | abortLoop raises waiting stands =>
      have before : s.pool.workers.length + 18 ≤ s.mainWeight := by
        unfold mainWeight
        cases main : s.main with
        | trace | push | collect =>
            dsimp only
            omega
        | finishing | signalling | joining | returned => simp [main, inLoop] at stands
      change s.pool.workers.length + 18 + 2 * s.pool.weight content + (s.stages.map stageWeight).sum + raises < _
      unfold weight
      omega
  | abortEnsure raises waiting stands =>
      change 0 + 2 * s.pool.weight content + (s.stages.map stageWeight).sum + raises < _
      unfold weight
      omega

end Steps

section Runs

variable [DecidableEq Task] [Fintype Task] {app : Application Task Name Scope} {root : Task} {ops : QueueOps Queue Task Host Choice}
  {host : Nat → Host} {Stored : Queue → Prop} {content : Queue → Finset Task}
  {guard : InvokeTask Queue Task → InvokeLabel Task Choice → Prop}

theorem invoke_ends (store : QueueStore ops Stored content) (q : Queue) (stored : Stored q) (vacant : content q = ∅) (n : Nat) :
    ¬ Machine.Endless (step app root ops host) guard (new q n) := by
  have kept : ∀ state, Machine.Run (step app root ops host) guard (new q n) state → Kept app root Stored content state :=
    kept_run store q stored vacant n
  have wired : ∀ state, Machine.Run (step app root ops host) guard (new q n) state → Pool.Wired state.pool := fun state reached =>
    Pool.wired_run ops host _ q n state.pool (pool_run guard q n state reached)
  have patient : ∀ state, Machine.Run (step app root ops host) guard (new q n) state → Pool.Patient state.pool := by
    intro state reached
    refine Machine.run_invariant (fun state => Pool.Patient state.pool) (new q n) (Pool.patient_init q n) ?_ state reached
    intro before after label earlier holds _ taken
    rcases effect_pool before after label (step_effect app root ops host before after label taken) with same | ⟨move, moved⟩
    · exact same ▸ holds
    · exact Pool.patient_step store _ move (wired before earlier) (kept before earlier).ledger.stored holds
        (Pool.step_effect ops host _ _ _ moved)
  refine Machine.run_ends (step app root ops host) guard (new q n) (fun state => state.weight content) ?_
  intro before after label reached _ taken
  exact weight_step store (kept before reached) (wired before reached) (patient before reached) after label
    (step_effect app root ops host before after label taken)

end Runs

end InvokeTask

end Pwrake
