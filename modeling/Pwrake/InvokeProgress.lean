import Pwrake.InvokeOrder
import Pwrake.PoolWeight

set_option autoImplicit false

namespace Pwrake

namespace InvokeTask

open Tracer

variable {Queue Task Host Choice Name Scope : Type*}

-- What keeps the threads going. While the main thread is in its loop and no
-- task has failed, a queued task has somebody awake to look at it; once a task
-- has failed, somebody is on the way to tell the main thread.
structure Steady (ops : QueueOps Queue Task Host Choice) (n : Nat) (s : InvokeTask Queue Task) : Prop where
  size : s.pool.workers.length = n
  stages : s.stages.length = n
  patient : Pool.Patient s.pool
  finishing : s.pool.finishing = true → s.main = .signalling ∨ s.main = .returned
  signalling : s.main = .signalling → s.pool.finishing = true
  completed : ∀ j, s.main = .joining j → s.pool.completed = true
  closed : s.pool.queue.finished = true → s.failed ≠ [] ∨ inLoop s.main = false
  mourned : inLoop s.main = true → s.failed ≠ [] →
    0 < s.raises ∨ ∃ (w : Nat) (pc : WorkerPc Task), s.pool.workers[w]? = some pc ∧ stops pc = true
  minded : inLoop s.main = true → s.failed = [] → Pool.Minded ops (fun _ => True) s.pool

theorem steady_new (ops : QueueOps Queue Task Host Choice) (q : Queue) (n : Nat) :
    Steady ops n (new q n : InvokeTask Queue Task) where
  size := List.length_replicate
  stages := List.length_replicate
  patient := Pool.patient_init q n
  finishing := fun raised => by cases raised
  signalling := fun stands => by cases stands
  completed := fun _ stands => by cases stands
  closed := fun raised => by cases raised
  mourned := fun _ failed => absurd rfl failed
  minded := fun _ _ => Pool.minded_init ops _ q n

section Threads

variable [DecidableEq Task] {app : Application Task Name Scope} {root : Task} {ops : QueueOps Queue Task Host Choice}
  {host : Nat → Host} {Stored : Queue → Prop} {content : Queue → Finset Task} {s : InvokeTask Queue Task} {n : Nat}

omit [DecidableEq Task] in
theorem everyone_eligible : Pool.Eligible fun _ : WorkerPc Task => True :=
  ⟨fun _ => trivial, fun _ => trivial, fun _ => trivial, fun _ _ => trivial⟩

-- A step of the threads that is neither a push nor a part of finish.
omit [DecidableEq Task] in
theorem minded_threads (two : 2 ≤ n) (wired : Pool.Wired s.pool) (ledger : Ledger Stored content s) (steady : Steady ops n s)
    (loops : inLoop s.main = true) (sound : s.failed = []) (label : PoolLabel Task Choice) (pool : Pool Queue Task)
    (unfinished : ∀ wake, label ≠ .finishRaise ∧ label ≠ .finishSignal wake)
    (moved : s.pool.step ops host label = some pool) : Pool.Minded ops (fun _ => True) pool := by
  have effect := Pool.step_effect ops host _ _ _ moved
  have halts : ∀ (w : Nat) (pc : WorkerPc Task), s.pool.workers[w]? = some pc → stops pc = true → False :=
    fun w pc stands stopped => ledger.stopping w pc stands stopped sound
  have opened : Pool.Open s.pool label := by
    cases effect with
    | stopEnter w stands => exact (halts w _ stands rfl).elim
    | stopRaise w stands => exact (halts w _ stands rfl).elim
    | stopSignal w wake cv stands => exact (halts w _ stands rfl).elim
    | stopLeave w stands => exact (halts w _ stands rfl).elim
    | finishRaise => exact (unfinished none).1 rfl
    | finishSignal wake => exact (unfinished wake).2 rfl
    | _ => trivial
  have open_queue : s.pool.queue.finished = false := by
    cases finished : s.pool.queue.finished with
    | false => rfl
    | true =>
        rcases steady.closed finished with failed | outside
        · exact absurd sound failed
        · simp [loops] at outside
  refine Pool.minded_step everyone_eligible s.pool pool label wired open_queue (steady.minded loops sound) opened ?_ effect
  intro w k _ _
  have staffed : 2 ≤ s.pool.workers.length := steady.size ▸ two
  by_cases first : w = 0
  · exact ⟨1, _, by omega, List.getElem?_eq_getElem (by omega), trivial⟩
  · exact ⟨0, _, by omega, List.getElem?_eq_getElem (by omega), trivial⟩

-- A worker's own step, the main thread standing still.
theorem steady_threads (store : QueueStore ops Stored content) (two : 2 ≤ n) (wired : Pool.Wired s.pool)
    (ledger : Ledger Stored content s) (steady : Steady ops n s) (label : PoolLabel Task Choice) (pool : Pool Queue Task)
    (own : Pool.ofWorker label = true) (moved : s.pool.step ops host label = some pool)
    (after : InvokeTask Queue Task) (same : after.pool = pool) (main : after.main = s.main)
    (stages : after.stages.length = s.stages.length) (failed : after.failed = [] → s.failed = [])
    (raises : s.raises ≤ after.raises)
    (failing : (∃ w, label = .fail w) ∨ after.failed = s.failed) (dying : ∀ w, label = .stopLeave w → 0 < after.raises) :
    Steady ops n after := by
  have effect := Pool.step_effect ops host _ _ _ moved
  have quiet : ∀ wake, label ≠ .finishRaise ∧ label ≠ .finishSignal wake :=
    fun wake => ⟨fun same => (by rw [same] at own; cases own), fun same => (by rw [same] at own; cases own)⟩
  refine ⟨?_, stages.trans steady.stages, same ▸ Pool.patient_step store pool label wired ledger.stored steady.patient effect, ?_, ?_,
    ?_, ?_, ?_, ?_⟩
  · rw [same, Pool.worker_count ops host _ _ label effect]
    exact steady.size
  · rw [same, main]
    intro finishing
    refine steady.finishing ?_
    cases effect with
    | finishRaise => exact absurd rfl (quiet none).1
    | finishSignal => cases finishing
    | leave w out => cases out <;> exact finishing
    | _ => exact finishing
  · rw [same, main]
    intro stands
    have before := steady.signalling stands
    cases effect with
    | finishSignal wake => exact absurd rfl (quiet wake).2
    | leave w out => cases out <;> exact before
    | finishRaise => rfl
    | _ => exact before
  · intro j stands
    have before := steady.completed j (main ▸ stands)
    rw [same]
    cases effect with
    | leave w out => cases out <;> exact before
    | stopLeave => rfl
    | finishSignal => rfl
    | _ => exact before
  · rw [same, main]
    intro finished
    have before : s.pool.queue.finished = true ∨ s.failed ≠ [] := by
      cases effect with
      | check w k wake out queue stands turned =>
          rcases TaskQueue.pop_turn_cases ops s.pool.queue queue w (host w) k wake out turned with
            ⟨-, -, rfl⟩ | ⟨-, -, -, cv, -, rfl⟩ | ⟨-, -, -, -, rfl⟩ | ⟨-, -, -, -, cv, -, rfl⟩ <;> exact .inl finished
      | leave w out => cases out <;> exact .inl finished
      | stopRaise w stands => exact .inr (ledger.stopping w _ stands rfl)
      | finishRaise => exact absurd rfl (quiet none).1
      | _ => exact .inl finished
    rcases before with before | before
    · exact (steady.closed before).imp_left fun some none => some (failed none)
    · exact .inl fun none => before (failed none)
  · rw [main, same]
    intro loops some
    by_cases fails : ∃ w, label = .fail w
    · obtain ⟨w, rfl⟩ := fails
      cases effect with
      | fail _ task stands =>
          exact .inr ⟨w, .stopping, by rw [Pool.set_worker_lookup s.pool w w _ _ stands, if_pos rfl], rfl⟩
    · have kept : after.failed = s.failed := failing.resolve_left fails
      rcases steady.mourned loops (kept ▸ some) with pending | ⟨w, pc, stands, stopped⟩
      · exact .inl (lt_of_lt_of_le pending raises)
      · rcases Pool.effect_kept ops host _ _ label effect w pc stands with stays | ⟨fresh, there, turn⟩
        · exact .inr ⟨w, pc, stays, stopped⟩
        · cases turn with
          | stopEnter => exact .inr ⟨w, _, there, rfl⟩
          | stopRaise => exact .inr ⟨w, _, there, rfl⟩
          | stopSignal => exact .inr ⟨w, _, there, rfl⟩
          | stopLeave => exact .inl (dying w rfl)
          | _ => cases stopped
  · rw [main, same]
    exact fun loops sound => minded_threads two wired ledger steady loops (failed sound) label pool quiet moved

-- The main thread moves and the threads stand still.
omit [DecidableEq Task] in
theorem steady_alone (steady : Steady ops n s) (after : InvokeTask Queue Task) (pool : after.pool = s.pool)
    (stages : after.stages.length = s.stages.length) (failed : after.failed = s.failed)
    (loops : inLoop after.main = true → inLoop s.main = true ∧ after.raises = s.raises)
    (finishing : s.main = .signalling ∨ s.main = .returned → after.main = .signalling ∨ after.main = .returned)
    (signalling : after.main = .signalling → s.main = .signalling)
    (joining : ∀ j, after.main = .joining j → ∃ i, s.main = .joining i) : Steady ops n after := by
  refine ⟨pool ▸ steady.size, stages.trans steady.stages, pool ▸ steady.patient, ?_, ?_, ?_, ?_, ?_, ?_⟩
  · rw [pool]
    exact fun raised => finishing (steady.finishing raised)
  · rw [pool]
    exact fun stands => steady.signalling (signalling stands)
  · intro j stands
    obtain ⟨i, before⟩ := joining j stands
    exact pool ▸ steady.completed i before
  · rw [pool, failed]
    intro finished
    refine (steady.closed finished).imp_right fun outside => ?_
    cases inside : inLoop after.main with
    | false => rfl
    | true => simp [(loops inside).1] at outside
  · rw [pool, failed]
    intro inside some
    obtain ⟨before, raises⟩ := loops inside
    exact raises.symm ▸ steady.mourned before some
  · rw [pool, failed]
    exact fun inside sound => steady.minded (loops inside).1 sound

-- One statement of the loop after another.
omit [DecidableEq Task] in
theorem steady_looping (steady : Steady ops n s) (after : InvokeTask Queue Task) (pool : after.pool = s.pool)
    (stages : after.stages = s.stages) (failed : after.failed = s.failed) (raises : after.raises = s.raises)
    (before : inLoop s.main = true) (now : inLoop after.main = true) : Steady ops n after := by
  refine steady_alone steady after pool (congrArg List.length stages) failed (fun _ => ⟨before, raises⟩) ?_ ?_ ?_
  · rintro (other | other) <;> simp [other, inLoop] at before
  · intro other
    simp [other, inLoop] at now
  · intro j other
    simp [other, inLoop] at now

-- The loop ends, by itself or by an exception.
omit [DecidableEq Task] in
theorem steady_leaves (steady : Steady ops n s) (after : InvokeTask Queue Task) (pool : after.pool = s.pool)
    (stages : after.stages = s.stages) (failed : after.failed = s.failed) (before : inLoop s.main = true)
    (main : after.main = .finishing) : Steady ops n after := by
  refine steady_alone steady after pool (congrArg List.length stages) failed ?_ ?_ ?_ ?_
  · intro loops
    simp [main, inLoop] at loops
  · rintro (other | other) <;> simp [other, inLoop] at before
  · intro other
    cases main.symm.trans other
  · intro j other
    cases main.symm.trans other

omit [DecidableEq Task] in
theorem steady_returns (steady : Steady ops n s) (after : InvokeTask Queue Task) (pool : after.pool = s.pool)
    (stages : after.stages = s.stages) (failed : after.failed = s.failed) (main : after.main = .returned) : Steady ops n after := by
  refine steady_alone steady after pool (congrArg List.length stages) failed ?_ (fun _ => .inr main) ?_ ?_
  · intro loops
    simp [main, inLoop] at loops
  · intro other
    cases main.symm.trans other
  · intro j other
    cases main.symm.trans other

theorem steady_step [Fintype Task] (store : QueueStore ops Stored content) (two : 2 ≤ n) (wired : Pool.Wired s.pool)
    (ledger : Ledger Stored content s) (steady : Steady ops n s) (after : InvokeTask Queue Task) (label : InvokeLabel Task Choice)
    (effect : Effect app root ops host s label after) : Steady ops n after := by
  cases effect with
  | worker label pool own moved =>
      refine steady_threads store two wired ledger steady label pool (by cases label <;> first | rfl | cases own) moved _ rfl rfl rfl
        id le_rfl (.inr rfl) ?_
      rintro w rfl
      cases own
  | start w task stands stage =>
      exact steady_alone steady _ rfl (by simp) rfl (fun loops => ⟨loops, rfl⟩) id id fun j stands => ⟨j, stands⟩
  | execute w task stage =>
      exact steady_alone steady _ rfl (by simp) rfl (fun loops => ⟨loops, rfl⟩) id id fun j stands => ⟨j, stands⟩
  | complete w task pool stage moved =>
      exact steady_threads store two wired ledger steady _ pool rfl moved _ rfl rfl (by simp) id le_rfl (.inr rfl)
        fun _ other => by cases other
  | fail w task pool stage moved =>
      exact steady_threads store two wired ledger steady _ pool rfl moved _ rfl rfl (by simp) (fun none => by simp at none) le_rfl
        (.inl ⟨w, rfl⟩) fun _ other => by cases other
  | die w pool moved =>
      exact steady_threads store two wired ledger steady _ pool rfl moved _ rfl rfl rfl id (Nat.le_succ _) (.inr rfl)
        fun _ _ => Nat.succ_pos _
  | traceBatch needed status after stands ran =>
      exact steady_looping steady _ rfl rfl rfl rfl (by rw [stands]; rfl) rfl
  | traceNil needed after stands ran =>
      exact steady_leaves steady _ rfl rfl rfl (by rw [stands]; rfl) rfl
  | traceError needed error after stands ran =>
      exact steady_leaves steady _ rfl rfl rfl (by rw [stands]; rfl) rfl
  | push choice wake pool stands moved =>
      have loops : inLoop s.main = true := by rw [stands]; rfl
      have minded := fun sound => minded_threads two wired ledger steady loops sound _ pool (by simp) moved
      have patient := Pool.patient_step store pool _ wired ledger.stored steady.patient (Pool.step_effect ops host _ _ _ moved)
      cases Pool.step_effect ops host _ _ _ moved with
      | push _ _ cv free signalled =>
          refine ⟨steady.size, steady.stages, patient, fun finishing => ?_, fun other => (by cases other), fun j other => (by cases other),
            fun finished => ?_, fun _ some => steady.mourned loops some, fun _ sound => minded sound⟩
          · rcases steady.finishing finishing with other | other <;> cases stands.symm.trans other
          · exact .inl ((steady.closed finished).resolve_right (by simp [loops]))
  | collect taken b rest stands read more listed =>
      exact steady_looping steady _ rfl rfl rfl rfl (by rw [stands]; rfl) rfl
  | stray taken b rest stands read more foreign =>
      exact steady_leaves steady _ rfl rfl rfl (by rw [stands]; rfl) rfl
  | again taken stands all =>
      exact steady_looping steady _ rfl rfl rfl rfl (by rw [stands]; rfl) rfl
  | finishRaise pool stands moved =>
      have patient := Pool.patient_step store pool _ wired ledger.stored steady.patient (Pool.step_effect ops host _ _ _ moved)
      cases Pool.step_effect ops host _ _ _ moved with
      | finishRaise idle =>
          exact ⟨steady.size, steady.stages, patient, fun _ => .inl rfl, fun _ => rfl, fun j other => (by cases other),
            fun _ => .inr rfl, fun loops => (by cases loops), fun loops => by cases loops⟩
  | finishSignal wake pool stands moved =>
      have patient := Pool.patient_step store pool _ wired ledger.stored steady.patient (Pool.step_effect ops host _ _ _ moved)
      cases Pool.step_effect ops host _ _ _ moved with
      | finishSignal _ cv raised signalled =>
          exact ⟨steady.size, steady.stages, patient, fun finishing => (by cases finishing), fun other => (by cases other),
            fun _ _ => rfl, fun _ => .inr rfl, fun loops => (by cases loops), fun loops => by cases loops⟩
  | joinedAll j stands last =>
      exact steady_returns steady _ rfl rfl rfl rfl
  | joined j stands exited living =>
      exact steady_alone steady _ rfl rfl rfl (fun loops => by cases loops) (by simp [stands]) (fun other => by cases other)
        fun _ _ => ⟨j, stands⟩
  | joinRaised j stands exited dead =>
      exact steady_returns steady _ rfl rfl rfl rfl
  | abortLoop raises waiting stands =>
      exact steady_leaves steady _ rfl rfl rfl stands rfl
  | abortEnsure raises waiting stands =>
      exact steady_returns steady _ rfl rfl rfl rfl

end Threads

-- All that a run over n workers keeps.
structure Going (app : Application Task Name Scope) (root : Task) (ops : QueueOps Queue Task Host Choice) (Stored : Queue → Prop)
    (content : Queue → Finset Task) (n : Nat) (s : InvokeTask Queue Task) : Prop where
  kept : Kept app root Stored content s
  steady : Steady ops n s
  wired : Pool.Wired s.pool
  relayed : Pool.Relayed s.pool
  departed : Pool.Departed s.pool

section Runs

variable [DecidableEq Task] [Fintype Task] {app : Application Task Name Scope} {root : Task} {ops : QueueOps Queue Task Host Choice}
  {host : Nat → Host} {Stored : Queue → Prop} {content : Queue → Finset Task}
  {guard : InvokeTask Queue Task → InvokeLabel Task Choice → Prop}

theorem going_run (store : QueueStore ops Stored content) (q : Queue) (stored : Stored q) (vacant : content q = ∅) (n : Nat)
    (two : 2 ≤ n) (s : InvokeTask Queue Task) (run : Machine.Run (step app root ops host) guard (new q n) s) :
    Going app root ops Stored content n s := by
  have kept : ∀ state, Machine.Run (step app root ops host) guard (new q n) state → Kept app root Stored content state :=
    kept_run store q stored vacant n
  have wired : ∀ state, Machine.Run (step app root ops host) guard (new q n) state → Pool.Wired state.pool := fun state reached =>
    Pool.wired_run ops host _ q n state.pool (pool_run guard q n state reached)
  refine ⟨kept s run, ?_, wired s run, ?_, ?_⟩
  · refine Machine.run_invariant (Steady ops n) (new q n) (steady_new ops q n) ?_ s run
    intro before after label reached steady _ taken
    exact steady_step store two (wired before reached) (kept before reached).ledger steady after label
      (step_effect app root ops host before after label taken)
  · exact Pool.relayed_run ops host q n s.pool (Pool.run_heard ops host q n two s.pool (pool_run guard q n s run))
  · refine Machine.run_invariant (fun state : InvokeTask Queue Task => Pool.Departed state.pool) (new q n) ?_ ?_ s run
    · intro w pc stands goes
      rw [Slots.lookup_replicate n w _ _ stands] at goes
      cases goes
    · intro before after label reached departed _ taken
      rcases effect_pool before after label (step_effect app root ops host before after label taken) with same | ⟨move, moved⟩
      · exact same ▸ departed
      · exact Pool.departed_step ops host _ _ move (wired before reached) departed (Pool.step_effect ops host _ _ _ moved)

end Runs

section Progress

variable [DecidableEq Task] [Fintype Task] {app : Application Task Name Scope} {root : Task} {ops : QueueOps Queue Task Host Choice}
  {host : Nat → Host} {Stored : Queue → Prop} {content : Queue → Finset Task} {s : InvokeTask Queue Task} {n : Nat}

-- Some step can be taken, whatever needed? answers.
def Enabled (app : Application Task Name Scope) (root : Task) (ops : QueueOps Queue Task Host Choice) (host : Nat → Host)
    (needed : Task → Bool) (s : InvokeTask Queue Task) : Prop :=
  ∃ (label : InvokeLabel Task Choice) (after : InvokeTask Queue Task),
    (∀ answers, label = .trace answers → answers = needed) ∧ s.step app root ops host label = some after

-- Every step but a trace is taken whatever needed? answers.
theorem enabled_untraced (needed : Task → Bool) (label : InvokeLabel Task Choice) (after : InvokeTask Queue Task)
    (untraced : ∀ answers, label ≠ .trace answers) (moved : s.step app root ops host label = some after) :
    Enabled app root ops host needed s :=
  ⟨label, after, fun answers same => absurd same (untraced answers), moved⟩

theorem enabled_worker (steady : Steady ops n s) (needed : Task → Bool)
    (moves : ∃ (label : PoolLabel Task Choice) (pool : Pool Queue Task), Pool.ofWorker label = true ∧
      s.pool.step ops host label = some pool) : Enabled app root ops host needed s := by
  obtain ⟨label, pool, own, moved⟩ := moves
  have inner : ∀ label : PoolLabel Task Choice, ofThread label = true → s.pool.step ops host label = some pool →
      Enabled app root ops host needed s := fun label thread moved =>
    enabled_untraced needed (.worker label) { s with pool := pool } (by simp) (by simp only [step, thread, moved]; rfl)
  have busy : ∀ (w : Nat) (task : Task), s.pool.workers[w]? = some (.executing task) → Enabled app root ops host needed s := by
    intro w task stands
    have inside : w < s.stages.length := by
      rw [steady.stages, ← steady.size]
      exact (List.getElem?_eq_some_iff.mp stands).1
    cases stage : s.stages[w]? with
    | none => exact absurd inside (Nat.not_lt.mpr (List.getElem?_eq_none_iff.mp stage))
    | some at_work =>
        cases at_work with
        | idle => exact enabled_untraced needed (.start w) _ (by simp) (by simp only [step, stands, stage]; rfl)
        | running other => exact enabled_untraced needed (.execute w) _ (by simp) (by simp only [step, stage]; rfl)
        | executed other =>
            have ends : s.pool.step ops host (.taskEnd w) = some (s.pool.setWorker w (.popping 0)) := by
              simp only [Pool.step, stands]
            exact enabled_untraced needed (.complete w) _ (by simp) (by simp only [step, stage, ends]; rfl)
  cases label with
  | push => cases own
  | finishRaise => cases own
  | finishSignal => cases own
  | taskEnd w =>
      cases Pool.step_effect ops host _ _ _ moved with
      | taskEnd _ task stands => exact busy w task stands
  | fail w =>
      cases Pool.step_effect ops host _ _ _ moved with
      | fail _ task stands => exact busy w task stands
  | stopLeave w => exact enabled_untraced needed (.die w) _ (by simp) (by simp only [step, moved]; rfl)
  | acquire w => exact inner _ rfl moved
  | check w wake => exact inner _ rfl moved
  | leave w => exact inner _ rfl moved
  | stopEnter w => exact inner _ rfl moved
  | stopRaise w => exact inner _ rfl moved
  | stopSignal w wake => exact inner _ rfl moved

theorem enabled_awake (going : Going app root ops Stored content n s) (needed : Task → Bool) (w : Nat) (pc : WorkerPc Task)
    (stands : s.pool.workers[w]? = some pc) (runs : pc ≠ .exited) (awake : w ∉ s.pool.queue.cv.waiting) :
    Enabled app root ops host needed s :=
  enabled_worker going.steady needed (Pool.awake_progress ops host s.pool going.wired w pc stands runs awake)

-- A thread that stands outside pop is not among the waiters.
theorem enabled_outside (going : Going app root ops Stored content n s) (needed : Task → Bool) (w : Nat) (pc : WorkerPc Task)
    (stands : s.pool.workers[w]? = some pc) (runs : pc ≠ .exited) (outside : ∀ k, pc ≠ .popping k) :
    Enabled app root ops host needed s :=
  enabled_awake going needed w pc stands runs (Pool.wired_outside going.wired w pc stands outside).1

-- The main thread waits for the output queue: what it waits for is queued, in
-- a worker's hands, or lost to a worker that failed.
theorem enabled_collect (store : QueueStore ops Stored content) (two : 2 ≤ n) (going : Going app root ops Stored content n s)
    (needed : Task → Bool) (taken : Nat) (stands : s.main = .collect taken) (more : taken < s.batch.length) (empty : s.outputQueue = []) :
    Enabled app root ops host needed s := by
  have loops : inLoop s.main = true := by rw [stands]; rfl
  by_cases sound : s.failed = []
  · have tallied := going.kept.books.tallied
    simp only [Tallied, stands] at tallied
    have whole := going.kept.ledger.kept sound
    have open_queue : s.pool.queue.finished = false := by
      cases finished : s.pool.queue.finished with
      | false => rfl
      | true =>
          rcases going.steady.closed finished with failed | outside
          · exact absurd sound failed
          · simp [loops] at outside
    have present : ∀ (w : Nat) (pc : WorkerPc Task), s.pool.workers[w]? = some pc → pc ≠ .exited := by
      rintro w pc there rfl
      have closed := (going.departed w _ there rfl).1
      simp [open_queue] at closed
    have held : s.pool.holding content ≠ 0 := by
      intro none
      have size := congrArg Multiset.card whole
      rw [accounted, none, completed, empty, sound] at size
      simp at size
      omega
    by_cases carried : s.pool.carried = 0
    · have queued : ops.isEmpty s.pool.queue.q = false := by
        cases vacant : ops.isEmpty s.pool.queue.q with
        | false => rfl
        | true =>
            have nothing := (store.isEmpty _ going.kept.ledger.stored).mp vacant
            exact absurd (by rw [Pool.holding, nothing, carried]; rfl) held
      by_cases sleepers : s.pool.queue.cv.waiting = []
      · have inside : 0 < s.pool.workers.length := by
          rw [going.steady.size]
          omega
        exact enabled_awake going needed 0 _ (List.getElem?_eq_getElem inside) (present 0 _ (List.getElem?_eq_getElem inside))
          (by simp [sleepers])
      · obtain ⟨v, pc, -, there, -, awake⟩ := (going.steady.minded loops sound).awake queued sleepers
        exact enabled_awake going needed v pc there (present v pc there) awake
    · obtain ⟨task, member⟩ := Multiset.exists_mem_of_ne_zero carried
      obtain ⟨w, pc, there, holds⟩ := Pool.carried_holder s.pool task member
      refine enabled_outside going needed w pc there ?_ ?_
      · rintro rfl
        simp [Pool.carries] at holds
      · rintro k rfl
        simp [Pool.carries] at holds
  · rcases going.steady.mourned loops sound with pending | ⟨w, pc, there, stopped⟩
    · obtain ⟨raises, raised⟩ := Nat.exists_eq_succ_of_ne_zero pending.ne'
      exact enabled_untraced needed .abort _ (by simp) (by simp only [step, raised, loops]; rfl)
    · refine enabled_outside going needed w pc there ?_ ?_
      · rintro rfl
        cases stopped
      · rintro k rfl
        cases stopped

-- invoke_task is never stuck before it returns.
theorem going_progress [Inhabited Choice] (store : QueueStore ops Stored content) (two : 2 ≤ n)
    (going : Going app root ops Stored content n s) (needed : Task → Bool) (running : s.main ≠ .returned) :
    Enabled app root ops host needed s := by
  cases stands : s.main with
  | returned => exact absurd stands running
  | trace =>
      refine ⟨.trace needed, ?_⟩
      simp only [step, stands]
      split
      · exact ⟨_, fun _ same => (InvokeLabel.trace.inj same).symm, rfl⟩
      · exact ⟨_, fun _ same => (InvokeLabel.trace.inj same).symm, rfl⟩
      · exact ⟨_, fun _ same => (InvokeLabel.trace.inj same).symm, rfl⟩
  | push =>
      cases mutex : s.pool.m with
      | some w =>
          obtain ⟨pc, there, holds⟩ := going.wired.held w mutex
          refine enabled_outside going needed w pc there ?_ ?_
          · rintro rfl
            cases holds
          · rintro k rfl
            cases holds
      | none =>
          obtain ⟨wake, cv, signalled⟩ := CondVar.signal_enabled s.pool.queue.cv
          exact enabled_untraced needed (.push (fun _ => default) wake) _ (by simp) (by
            simp only [step, stands, Pool.step, mutex, if_true, TaskQueue.push, TaskQueue.signal, signalled, Option.map_some]
            rfl)
  | collect taken =>
      by_cases more : taken < s.batch.length
      · cases output : s.outputQueue with
        | nil => exact enabled_collect store two going needed taken stands more output
        | cons b rest =>
            by_cases listed : b ∈ s.batch
            · exact enabled_untraced needed .collect _ (by simp) (by simp only [step, stands, output, if_pos more, if_pos listed]; rfl)
            · exact enabled_untraced needed .collect _ (by simp) (by simp only [step, stands, output, if_pos more, if_neg listed]; rfl)
      · exact enabled_untraced needed .again _ (by simp) (by simp only [step, stands, if_neg more]; rfl)
  | finishing =>
      have idle : s.pool.finishing = false := by
        cases raised : s.pool.finishing with
        | false => rfl
        | true => rcases going.steady.finishing raised with other | other <;> cases stands.symm.trans other
      exact enabled_untraced needed .finishRaise _ (by simp) (by simp only [step, stands, Pool.step, idle]; rfl)
  | signalling =>
      obtain ⟨wake, cv, signalled⟩ := CondVar.signal_enabled s.pool.queue.cv
      have raised := going.steady.signalling stands
      exact enabled_untraced needed (.finishSignal wake) _ (by simp) (by
        simp only [step, stands, Pool.step, raised, if_true, TaskQueue.signal, signalled, Option.map_some]
        rfl)
  | joining j =>
      by_cases last : s.pool.workers.length ≤ j
      · exact enabled_untraced needed .join _ (by simp) (by simp only [step, stands, if_pos last]; rfl)
      · have there := List.getElem?_eq_getElem (Nat.lt_of_not_le last)
        by_cases gone : s.pool.workers[j]? = some .exited
        · by_cases dead : j ∈ s.dead
          · exact enabled_untraced needed .join _ (by simp) (by simp only [step, stands, if_neg last, if_pos gone, if_pos dead]; rfl)
          · exact enabled_untraced needed .join _ (by simp) (by simp only [step, stands, if_neg last, if_pos gone, if_neg dead]; rfl)
        · refine enabled_worker going.steady needed ?_
          refine (Pool.relayed_join_progress ops host s.pool going.wired going.relayed (going.steady.completed j stands) ?_).1
          exact ⟨j, _, there, fun exited => gone (there.trans (congrArg some exited))⟩

end Progress

end InvokeTask

end Pwrake
