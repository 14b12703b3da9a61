import Pwrake.InvokeLedger

set_option autoImplicit false

namespace Pwrake

namespace InvokeTask

open Tracer

variable {Queue Task Host Choice Name Scope : Type*}

-- What available_task has returned, pushed or about to be.
def pending (s : InvokeTask Queue Task) : List Task :=
  match s.main with
  | .push => s.batch
  | _ => []

def given (s : InvokeTask Queue Task) : List Task := s.pool.pushed ++ s.pending

-- Ended without an exception, or found not needed.
def Settled (s : InvokeTask Queue Task) (task : Task) : Prop := task ∈ s.ended ∨ task ∈ s.skipped

-- The loop counts what it collects: outside collect the count is even.
def Tallied (root : Task) (s : InvokeTask Queue Task) : Prop :=
  match s.main with
  | .trace | .push => s.collected.length = s.pool.pushed.length
  | .collect taken =>
      taken ≤ s.batch.length ∧ s.collected.length + (s.batch.length - taken) = s.pool.pushed.length ∧
        ∀ task ∈ s.pool.pushed, task ∉ s.batch → task ∈ s.collected
  | .finishing | .signalling | .joining _ | .returned =>
      s.raised = false → s.collected.length = s.pool.pushed.length ∧ root ∈ s.tracer.invoked

structure Books (app : Application Task Name Scope) (root : Task) (s : InvokeTask Queue Task) : Prop where
  invoked : ∀ task, task ∈ s.tracer.invoked ↔ task ∈ s.started ∨ task ∈ s.skipped
  distinct : s.given.Nodup
  apart : ∀ task ∈ s.skipped, task ∉ s.given
  fetched : ∀ task, task ∈ s.given ∨ task ∈ s.skipped → task ∈ s.tracer.fetched
  all : inLoop s.main = true → ∀ task ∈ s.tracer.fetched, task ∈ s.given ∨ task ∈ s.skipped
  closed : ∀ task, task ∈ s.given ∨ task ∈ s.skipped →
    Reach app root task ∧ ∀ prereq, Needs app task prereq → s.Settled prereq
  tallied : s.Tallied root

section Facts

variable {app : Application Task Name Scope} {root : Task} {s : InvokeTask Queue Task}

theorem given_of_main (outside : s.main ≠ .push) : s.given = s.pool.pushed := by
  unfold given pending
  split
  · rename_i stands
    exact absurd stands outside
  · exact List.append_nil _

theorem given_of_push (stands : s.main = .push) : s.given = s.pool.pushed ++ s.batch := by
  unfold given pending
  rw [stands]

theorem pushed_given (task : Task) (member : task ∈ s.pool.pushed) : task ∈ s.given := List.mem_append_left _ member

theorem books_new (q : Queue) (n : Nat) : Books app root (new q n : InvokeTask Queue Task) where
  invoked := by simp [new]
  distinct := by simp [given, pending, new, Pool.init]
  apart := by simp [new]
  fetched := by simp [given, pending, new, Pool.init]
  all := by simp [new]
  closed := by simp [given, pending, new, Pool.init]
  tallied := rfl

-- A step that leaves the Tracer's marks and the main thread alone.
theorem books_kept (books : Books app root s) (after : InvokeTask Queue Task) (main : after.main = s.main)
    (pushed : after.pool.pushed = s.pool.pushed) (batch : after.batch = s.batch) (collected : after.collected = s.collected)
    (raised : after.raised = s.raised) (fetched : after.tracer.fetched = s.tracer.fetched) (skipped : after.skipped = s.skipped)
    (ended : ∀ task ∈ s.ended, task ∈ after.ended) (grows : s.tracer.invoked ⊆ after.tracer.invoked)
    (invoked : ∀ task, task ∈ after.tracer.invoked ↔ task ∈ after.started ∨ task ∈ after.skipped) : Books app root after := by
  have given : after.given = s.given := by
    unfold InvokeTask.given pending
    rw [main, pushed, batch]
  refine ⟨invoked, given ▸ books.distinct, ?_, ?_, ?_, ?_, ?_⟩
  · rw [given, skipped]
    exact books.apart
  · rw [given, skipped, fetched]
    exact books.fetched
  · rw [given, skipped, fetched, main]
    exact books.all
  · intro task member
    rw [given, skipped] at member
    obtain ⟨below, ready⟩ := books.closed task member
    exact ⟨below, fun prereq edge => (ready prereq edge).imp (ended prereq) fun skips => skipped ▸ skips⟩
  · have tallied := books.tallied
    unfold Tallied at tallied ⊢
    rw [main, pushed, batch, collected, raised]
    cases stands : s.main with
    | trace | push | collect => simpa only [stands] using tallied
    | finishing | signalling | joining | returned =>
        simp only [stands] at tallied
        exact fun quiet => (tallied quiet).imp_right fun top => grows top

-- The main thread moves on without a word from the Tracer. It may leave the
-- loop with a batch that it has not pushed.
theorem books_onward (books : Books app root s) (after : InvokeTask Queue Task) (given : after.given.Sublist s.given)
    (tracer : after.tracer = s.tracer) (skipped : after.skipped = s.skipped) (started : after.started = s.started)
    (ended : after.ended = s.ended) (still : inLoop after.main = true → inLoop s.main = true ∧ after.given = s.given)
    (tallied : after.Tallied root) : Books app root after := by
  have earlier : ∀ task, task ∈ after.given ∨ task ∈ after.skipped → task ∈ s.given ∨ task ∈ s.skipped := fun task member =>
    member.imp (fun listed => given.subset listed) fun dropped => skipped ▸ dropped
  refine ⟨?_, books.distinct.sublist given, fun task dropped listed => ?_, fun task member => ?_, fun loops task member => ?_,
    fun task member => ?_, tallied⟩
  · rw [tracer, started, skipped]
    exact books.invoked
  · exact books.apart task (skipped ▸ dropped) (given.subset listed)
  · exact tracer ▸ books.fetched task (earlier task member)
  · obtain ⟨before, same⟩ := still loops
    rw [same, skipped]
    exact books.all before task (tracer ▸ member)
  · obtain ⟨below, ready⟩ := books.closed task (earlier task member)
    exact ⟨below, fun prereq edge => by simpa only [Settled, ended, skipped] using ready prereq edge⟩

variable {Stored : Queue → Prop} {content : Queue → Finset Task}

-- What a call of available_task may add to the tasks that are given and to
-- those that are skipped.
theorem given_traced (stands : s.main = .trace) (tracer : TraceState Task) (after : InvokeTask Queue Task)
    (same : after.tracer = tracer) (pushed : after.pool.pushed = s.pool.pushed)
    (moved : after.main = .push ∨ inLoop after.main = false) (task : Task) (member : task ∈ after.given) :
    task ∈ s.given ∨ task ∈ tracer.fetchedTasks := by
  have before : s.given = s.pool.pushed := given_of_main (by simp [stands])
  rcases moved with push | outside
  · rw [given_of_push push, batch, same, pushed, ← before] at member
    exact List.mem_append.mp member
  · rw [given_of_main fun push => by simp [push, inLoop] at outside, pushed, ← before] at member
    exact .inl member

theorem skipped_traced [DecidableEq Task] (tracer : TraceState Task) (after : InvokeTask Queue Task)
    (skipped : after.skipped = s.skipped ∪ (tracer.invoked \ s.tracer.invoked)) (task : Task) :
    task ∈ after.skipped ↔ task ∈ s.skipped ∨ (task ∈ tracer.invoked ∧ task ∉ s.tracer.invoked) := by
  simp [skipped]

-- A whole call of available_task while nothing is under way: what it returns
-- is new, and what stands below it is settled.
theorem books_traced [DecidableEq Task] [Fintype Task] (ledger : Ledger Stored content s) (books : Books app root s)
    (stands : s.main = .trace)
    (needed : Task → Bool) (result : Except (TraceError Task Name) (Option Status)) (tracer : TraceState Task)
    (ran : availableTask app needed root (Tracing.cleared s.tracer) = (result, tracer)) (after : InvokeTask Queue Task)
    (same : after.tracer = tracer) (skipped : after.skipped = s.skipped ∪ (tracer.invoked \ s.tracer.invoked))
    (pushed : after.pool.pushed = s.pool.pushed) (started : after.started = s.started) (ended : after.ended = s.ended)
    (moved : after.main = .push ∨ inLoop after.main = false) (tallied : after.Tallied root) : Books app root after := by
  have outcome := Tracing.call_outcome needed root s.tracer tracer result ran
  have before : s.given = s.pool.pushed := given_of_main (by simp [stands])
  have even : s.collected.length = s.pool.pushed.length := by simpa only [Tallied, stands] using books.tallied
  have flagged : ∀ task ∈ s.tracer.invoked, task ∈ tracer.invoked := fun task member => outcome.invoked member
  have skips := skipped_traced tracer after skipped
  have handed := given_traced stands tracer after same pushed moved
  have settled : ∀ task ∈ tracer.invoked, after.Settled task := by
    intro task member
    by_cases known : task ∈ s.tracer.invoked
    · refine ((books.invoked task).mp known).imp (fun starts => ?_) fun dropped => (skips task).mpr (.inl dropped)
      exact ended ▸ settled_started ledger even task starts
    · exact .inr ((skips task).mpr (.inr ⟨member, known⟩))
  refine ⟨fun task => ?_, ?_, fun task drops given => ?_, fun task member => ?_, fun loops task member => ?_,
    fun task member => ?_, tallied⟩
  · rw [same, started, skips task]
    constructor
    · intro member
      by_cases known : task ∈ s.tracer.invoked
      · exact ((books.invoked task).mp known).imp_right .inl
      · exact .inr (.inr ⟨member, known⟩)
    · rintro (starts | dropped | ⟨member, -⟩)
      · exact flagged task ((books.invoked task).mpr (.inl starts))
      · exact flagged task ((books.invoked task).mpr (.inr dropped))
      · exact member
  · rcases moved with push | outside
    · rw [given_of_push push, batch, same, pushed, ← before]
      refine books.distinct.append outcome.distinct fun task earlier now => ?_
      exact (outcome.chosen task now).2.1 (books.fetched task (.inl earlier))
    · rw [given_of_main fun push => by simp [push, inLoop] at outside, pushed, ← before]
      exact books.distinct
  · rcases (skips task).mp drops with dropped | ⟨member, fresh⟩
    · rcases handed task given with earlier | now
      · exact books.apart task dropped earlier
      · exact (outcome.chosen task now).2.1 (books.fetched task (.inr dropped))
    · rcases handed task given with earlier | now
      · exact (outcome.dropped task member fresh).2.1 (books.fetched task (.inl earlier))
      · exact (outcome.chosen task now).2.2.1 member
  · rw [same, outcome.fetched task]
    rcases member with given | drops
    · exact (handed task given).imp (fun earlier => books.fetched task (.inl earlier)) .inl
    · rcases (skips task).mp drops with dropped | fresh
      · exact .inl (books.fetched task (.inr dropped))
      · exact .inr (.inr fresh)
  · have push := moved.resolve_right (by simp [loops])
    rw [given_of_push push, batch, same, pushed, ← before, List.mem_append]
    rcases (outcome.fetched task).mp (same ▸ member) with earlier | now | fresh
    · exact (books.all (by simp [stands, inLoop]) task earlier).imp .inl fun dropped => (skips task).mpr (.inl dropped)
    · exact .inl (.inr now)
    · exact .inr ((skips task).mpr (.inr fresh))
  · have earlier : task ∈ s.given ∨ task ∈ s.skipped →
        Reach app root task ∧ ∀ prereq, Needs app task prereq → after.Settled prereq := by
      intro known
      obtain ⟨below, ready⟩ := books.closed task known
      exact ⟨below, fun prereq edge => (ready prereq edge).imp (fun ends => ended ▸ ends) fun dropped =>
        (skips prereq).mpr (.inl dropped)⟩
    rcases member with given | drops
    · rcases handed task given with known | now
      · exact earlier (.inl known)
      · obtain ⟨⟨seen, -⟩, -, -, -, ready⟩ := outcome.chosen task now
        exact ⟨sees_reach app _ root task seen, fun prereq edge => settled prereq (ready prereq edge)⟩
    · rcases (skips task).mp drops with dropped | ⟨member, fresh⟩
      · exact earlier (.inr dropped)
      · obtain ⟨⟨seen, -⟩, -, -, ready⟩ := outcome.dropped task member fresh
        exact ⟨sees_reach app _ root task seen, fun prereq edge => settled prereq (ready prereq edge)⟩

theorem output_listed (ledger : Ledger Stored content s) (books : Books app root s) (taken : Nat) (b : Task)
    (stands : s.main = .collect taken) (listed : b ∈ s.outputQueue) : b ∈ s.batch := by
  have tallied := books.tallied
  simp only [Tallied, stands] at tallied
  by_contra foreign
  have within := completed_within ledger
  have pushed : b ∈ s.pool.pushed := Multiset.mem_coe.mp (Multiset.mem_of_le within (by simp [completed, listed]))
  have distinct : (s.collected ++ s.outputQueue).Nodup := by
    have given : s.pool.pushed.Nodup := by
      have whole := books.distinct
      rwa [given_of_main (by simp [stands])] at whole
    exact Multiset.coe_nodup.mp (Multiset.nodup_of_le within (Multiset.coe_nodup.mpr given))
  exact (List.nodup_append.mp distinct).2.2 b (tallied.2.2 b pushed foreign) b listed rfl

theorem batch_tasks (choice : Task → Choice) : (s.batch.map fun task => (task, choice task)).map Prod.fst = s.batch := by
  simp [List.map_map, Function.comp_def]

theorem waiting_pushed (ledger : Ledger Stored content s) (task : Task) (waits : task ∈ content s.pool.queue.q) :
    task ∈ s.pool.pushed := by
  refine Multiset.mem_coe.mp (Multiset.mem_of_le ledger.within ?_)
  exact Multiset.mem_add.mpr (.inl (Multiset.mem_add.mpr (.inl (Multiset.mem_add.mpr (.inl waits)))))

-- A batch is pushed once, and nothing of it waits already.
theorem push_fresh (ledger : Ledger Stored content s) (books : Books app root s) (stands : s.main = .push)
    (choice : Task → Choice) : ((s.batch.map fun task => (task, choice task)).map Prod.fst).Nodup ∧
      ∀ pair ∈ s.batch.map fun task => (task, choice task), pair.1 ∉ content s.pool.queue.q := by
  have whole := books.distinct
  rw [given_of_push stands] at whole
  obtain ⟨-, distinct, apart⟩ := List.nodup_append.mp whole
  refine ⟨(batch_tasks choice).symm ▸ distinct, fun pair member waits => ?_⟩
  obtain ⟨task, listed, rfl⟩ := List.mem_map.mp member
  exact apart task (waiting_pushed ledger task waits) task listed rfl

section Steps

variable [DecidableEq Task] [Fintype Task] {ops : QueueOps Queue Task Host Choice} {host : Nat → Host}

theorem ledger_step (store : QueueStore ops Stored content) (after : InvokeTask Queue Task) (label : InvokeLabel Task Choice)
    (ledger : Ledger Stored content s) (books : Books app root s) (effect : Effect app root ops host s label after) :
    Ledger Stored content after := by
  -- the main thread alone has moved
  have alone : ∀ after : InvokeTask Queue Task, after.pool = s.pool → after.stages = s.stages → after.completed = s.completed →
      after.failed = s.failed → after.started = s.started → after.ended = s.ended → Ledger Stored content after := by
    intro after pool stages completed failed started ended
    refine ⟨pool ▸ ledger.stored, by rw [stages, pool]; exact ledger.agrees, ?_, ?_, ?_, ?_, by rw [pool, failed]; exact ledger.stopping⟩
    · rw [accounted, pool, completed, failed]
      exact ledger.within
    · rw [accounted, pool, completed, failed]
      exact ledger.kept
    · rw [started, stages, completed, failed]
      exact ledger.started
    · rw [ended, stages, completed]
      exact ledger.ended
  have quiet : ∀ (label : PoolLabel Task Choice) (pool : Pool Queue Task) (after : InvokeTask Queue Task), Pool.quiet label = true →
      s.pool.step ops host label = some pool → after.pool = pool → after.stages = s.stages → after.completed = s.completed →
      after.failed = s.failed → after.started = s.started → after.ended = s.ended → Ledger Stored content after :=
    fun label pool after still moved => ledger_quiet store ledger label pool still (Pool.step_effect ops host _ _ _ moved) after
  cases effect with
  | worker label pool own moved =>
      have still : Pool.quiet label = true := by cases label <;> first | rfl | cases own
      exact quiet label pool _ still moved rfl rfl rfl rfl rfl rfl
  | start w task stands stage => exact ledger_start ledger w task stands stage _
  | execute w task stage => exact ledger_execute ledger w task stage
  | complete w task pool stage moved =>
      have done : ((s.stages.set w .idle).map Stage.done).sum + {task} = (s.stages.map Stage.done).sum := by
        simpa [Stage.done] using Slots.sum_set Stage.done s.stages w _ .idle stage
      have grown : (↑(s.collected ++ (s.outputQueue ++ [task])) : Multiset Task) = s.completed + {task} := by
        rw [← List.append_assoc, ← Multiset.coe_add, Multiset.coe_singleton, completed]
      refine ledger_end ledger w task _ pool (.inl rfl) (.inr stage) (Pool.step_effect ops host _ _ _ moved) _ rfl rfl ?_ rfl ?_
        id (fun other => by cases other)
      · change (↑(s.collected ++ (s.outputQueue ++ [task])) : Multiset Task) + ↑s.failed = _
        rw [grown]
        abel
      · change (↑s.ended : Multiset Task) = ((s.stages.set w .idle).map Stage.done).sum +
          ↑(s.collected ++ (s.outputQueue ++ [task]))
        rw [ledger.ended, grown, ← done]
        abel
  | fail w task pool stage moved =>
      have done : ((s.stages.set w .idle).map Stage.done).sum = (s.stages.map Stage.done).sum := by
        simpa [Stage.done] using Slots.sum_set Stage.done s.stages w _ .idle stage
      refine ledger_end ledger w task _ pool (.inr rfl) (.inl stage) (Pool.step_effect ops host _ _ _ moved) _ rfl rfl ?_ rfl ?_
        (fun none => by simp at none) (fun _ => by simp)
      · change s.completed + ↑(s.failed ++ [task]) = _
        rw [← Multiset.coe_add, Multiset.coe_singleton]
        abel
      · change (↑s.ended : Multiset Task) = ((s.stages.set w .idle).map Stage.done).sum + s.completed
        rw [done]
        exact ledger.ended
  | die w pool moved => exact quiet _ pool _ rfl moved rfl rfl rfl rfl rfl rfl
  | traceBatch needed status after stands ran => exact alone _ rfl rfl rfl rfl rfl rfl
  | traceNil needed after stands ran => exact alone _ rfl rfl rfl rfl rfl rfl
  | traceError needed error after stands ran => exact alone _ rfl rfl rfl rfl rfl rfl
  | push choice wake pool stands moved =>
      obtain ⟨distinct, fresh⟩ := push_fresh ledger books stands choice
      obtain ⟨stored, pushed, workers, holding⟩ := Pool.holding_push store s.pool pool _ wake ledger.stored distinct fresh
        (Pool.step_effect ops host _ _ _ moved)
      rw [batch_tasks] at pushed holding
      have grown : pool.holding content + s.completed + ↑s.failed = s.accounted content + ↑s.batch := by
        rw [holding, accounted]
        abel
      refine ⟨stored, fun w task stage => by rw [workers]; exact ledger.agrees w task stage, ?_, fun sound => ?_, ledger.started,
        ledger.ended, fun w pc there => ledger.stopping w pc (workers ▸ there)⟩
      · change pool.holding content + s.completed + ↑s.failed ≤ ↑pool.pushed
        rw [grown, pushed, ← Multiset.coe_add]
        exact add_le_add_left ledger.within _
      · change pool.holding content + s.completed + ↑s.failed = ↑pool.pushed
        rw [grown, pushed, ← Multiset.coe_add, ledger.kept sound]
  | collect taken b rest stands read more listed =>
      exact alone _ rfl rfl (by simp [completed, read]) rfl rfl rfl
  | stray taken b rest stands read more foreign => exact alone _ rfl rfl (by simp [completed, read]) rfl rfl rfl
  | again taken stands all => exact alone _ rfl rfl rfl rfl rfl rfl
  | finishRaise pool stands moved => exact quiet _ pool _ rfl moved rfl rfl rfl rfl rfl rfl
  | finishSignal wake pool stands moved => exact quiet _ pool _ rfl moved rfl rfl rfl rfl rfl rfl
  | joinedAll j stands last => exact alone _ rfl rfl rfl rfl rfl rfl
  | joined j stands exited living => exact alone _ rfl rfl rfl rfl rfl rfl
  | joinRaised j stands exited dead => exact alone _ rfl rfl rfl rfl rfl rfl
  | abortLoop raises waiting stands => exact alone _ rfl rfl rfl rfl rfl rfl
  | abortEnsure raises waiting stands => exact alone _ rfl rfl rfl rfl rfl rfl

theorem books_step (store : QueueStore ops Stored content) (after : InvokeTask Queue Task) (label : InvokeLabel Task Choice)
    (ledger : Ledger Stored content s) (books : Books app root s) (effect : Effect app root ops host s label after) :
    Books app root after := by
  have unpushed : ∀ (label : PoolLabel Task Choice) (pool : Pool Queue Task), Pool.quiet label = true →
      s.pool.step ops host label = some pool → pool.pushed = s.pool.pushed := fun label pool still moved =>
    (Pool.holding_quiet store s.pool pool label still ledger.stored (Pool.step_effect ops host _ _ _ moved)).2.1
  have ends : ∀ (w : Nat) (task : Task) (label : PoolLabel Task Choice) (pool : Pool Queue Task),
      label = .taskEnd w ∨ label = .fail w → s.stages[w]? = some (.running task) ∨ s.stages[w]? = some (.executed task) →
      s.pool.step ops host label = some pool → pool.pushed = s.pool.pushed := fun w task label pool ends stage moved =>
    (Pool.holding_end content s.pool pool label w task ends (ledger.agrees w task stage)
      (Pool.step_effect ops host _ _ _ moved)).2.1
  have kept : ∀ after : InvokeTask Queue Task, after.main = s.main → after.pool.pushed = s.pool.pushed →
      after.tracer = s.tracer → after.collected = s.collected → after.raised = s.raised → after.skipped = s.skipped →
      after.started = s.started → (∀ task ∈ s.ended, task ∈ after.ended) → Books app root after := by
    intro after main pushed tracer collected raised skipped started ended
    refine books_kept books after main pushed ?_ collected raised ?_ skipped ended ?_ ?_
    · rw [batch, tracer, batch]
    · rw [tracer]
    · rw [tracer]
    · rw [tracer, started, skipped]
      exact books.invoked
  have onward : ∀ after : InvokeTask Queue Task, s.main ≠ .push → after.main ≠ .push → after.pool.pushed = s.pool.pushed →
      after.tracer = s.tracer → after.skipped = s.skipped → after.started = s.started → after.ended = s.ended →
      (inLoop after.main = true → inLoop s.main = true) → after.Tallied root → Books app root after := by
    intro after outside away pushed tracer skipped started ended still tallied
    have same : after.given = s.given := by rw [given_of_main outside, given_of_main away, pushed]
    exact books_onward books after (same ▸ List.Sublist.refl _) tracer skipped started ended (fun loops => ⟨still loops, same⟩) tallied
  have tallied := books.tallied
  cases effect with
  | worker label pool own moved =>
      have still : Pool.quiet label = true := by cases label <;> first | rfl | cases own
      exact kept _ rfl (unpushed label pool still moved) rfl rfl rfl rfl rfl fun _ => id
  | start w task stands stage =>
      refine books_kept books _ rfl rfl rfl rfl rfl rfl rfl (fun _ => id) (Finset.subset_insert task _) fun other => ?_
      simp only [Finset.mem_insert, books.invoked, List.mem_append, List.mem_singleton]
      rw [or_comm, or_right_comm]
  | execute w task stage => exact kept _ rfl rfl rfl rfl rfl rfl rfl fun _ member => List.mem_append_left _ member
  | complete w task pool stage moved => exact kept _ rfl (ends w task _ pool (.inl rfl) (.inr stage) moved) rfl rfl rfl rfl rfl fun _ => id
  | fail w task pool stage moved => exact kept _ rfl (ends w task _ pool (.inr rfl) (.inl stage) moved) rfl rfl rfl rfl rfl fun _ => id
  | die w pool moved => exact kept _ rfl (unpushed _ pool rfl moved) rfl rfl rfl rfl rfl fun _ => id
  | traceBatch needed status after stands ran =>
      simp only [Tallied, stands] at tallied
      exact books_traced ledger books stands needed _ after ran _ rfl rfl rfl rfl rfl (.inl rfl) tallied
  | traceNil needed after stands ran =>
      simp only [Tallied, stands] at tallied
      have found := available_task_found app needed root (Tracing.cleared s.tracer)
      rw [ran] at found
      exact books_traced ledger books stands needed _ after ran _ rfl rfl rfl rfl rfl (.inr rfl) fun _ => ⟨tallied, found.invoked rfl⟩
  | traceError needed error after stands ran =>
      exact books_traced ledger books stands needed _ after ran _ rfl rfl rfl rfl rfl (.inr rfl) fun quiet => by cases quiet
  | push choice wake pool stands moved =>
      simp only [Tallied, stands] at tallied
      have pushed : pool.pushed = s.pool.pushed ++ s.batch := by
        cases Pool.step_effect ops host _ _ _ moved with
        | push => exact congrArg (s.pool.pushed ++ ·) (batch_tasks choice)
      have same : ({ s with pool := pool, main := .collect 0 } : InvokeTask Queue Task).given = s.given := by
        rw [given_of_push stands, given_of_main (by simp)]
        exact pushed
      refine books_onward books _ (same ▸ List.Sublist.refl _) rfl rfl rfl rfl (fun _ => ⟨by simp [stands, inLoop], same⟩)
        ⟨Nat.zero_le _, ?_, fun task member foreign => ?_⟩
      · change s.collected.length + s.batch.length = pool.pushed.length
        rw [pushed, List.length_append, tallied]
      · have earlier : task ∈ s.pool.pushed := by
          rw [pushed] at member
          exact (List.mem_append.mp member).resolve_right foreign
        have same := (settled_all ledger tallied).2.2.2
        exact Multiset.mem_coe.mp (same ▸ Multiset.mem_coe.mpr earlier)
  | collect taken b rest stands read more listed =>
      simp only [Tallied, stands] at tallied
      obtain ⟨-, count, collected⟩ := tallied
      refine onward _ (by simp [stands]) (by simp) rfl rfl rfl rfl rfl (fun _ => by simp [stands, inLoop])
        ⟨more, ?_, fun task member foreign => List.mem_append_left _ (collected task member foreign)⟩
      change (s.collected ++ [b]).length + (s.batch.length - (taken + 1)) = s.pool.pushed.length
      rw [List.length_append, List.length_singleton]
      omega
  | stray taken b rest stands read more foreign =>
      exact onward _ (by simp [stands]) (by simp) rfl rfl rfl rfl rfl (by simp [inLoop]) fun quiet => by cases quiet
  | again taken stands all =>
      simp only [Tallied, stands] at tallied
      refine onward _ (by simp [stands]) (by simp) rfl rfl rfl rfl rfl (fun _ => by simp [stands, inLoop]) ?_
      change s.collected.length = s.pool.pushed.length
      omega
  | finishRaise pool stands moved =>
      simp only [Tallied, stands] at tallied
      have pushed := unpushed _ pool rfl moved
      refine onward _ (by simp [stands]) (by simp) pushed rfl rfl rfl rfl (by simp [inLoop]) fun quiet => ?_
      exact pushed.symm ▸ tallied quiet
  | finishSignal wake pool stands moved =>
      simp only [Tallied, stands] at tallied
      have pushed := unpushed _ pool rfl moved
      refine onward _ (by simp [stands]) (by simp) pushed rfl rfl rfl rfl (by simp [inLoop]) fun quiet => ?_
      exact pushed.symm ▸ tallied quiet
  | joinedAll j stands last =>
      simp only [Tallied, stands] at tallied
      exact onward _ (by simp [stands]) (by simp) rfl rfl rfl rfl rfl (by simp [inLoop]) tallied
  | joined j stands exited living =>
      simp only [Tallied, stands] at tallied
      exact onward _ (by simp [stands]) (by simp) rfl rfl rfl rfl rfl (by simp [inLoop]) tallied
  | joinRaised j stands exited dead =>
      exact onward _ (by simp [stands]) (by simp) rfl rfl rfl rfl rfl (by simp [inLoop]) fun quiet => by cases quiet
  | abortLoop raises waiting stands =>
      refine books_onward books _ ?_ rfl rfl rfl rfl (fun loops => by cases loops) fun quiet => by cases quiet
      rw [given_of_main (by simp)]
      exact List.sublist_append_left _ _
  | abortEnsure raises waiting stands =>
      exact onward _ (by rintro push; simp [push, inEnsure] at stands) (by simp) rfl rfl rfl rfl rfl (by simp [inLoop])
        fun quiet => by cases quiet

end Steps

end Facts

end InvokeTask

end Pwrake
