import Mathlib.Data.Multiset.OrderedMonoid
import Pwrake.InvokeBooks

set_option autoImplicit false

namespace Pwrake

namespace InvokeTask

open Tracer

variable {Queue Task Host Choice Name Scope : Type*}

-- Why an exception is on its way: a dead worker, or a graph that no trace
-- gets through. A worker dies only of a failed task.
structure Blamed (app : Application Task Name Scope) (root : Task) (s : InvokeTask Queue Task) : Prop where
  raised : s.raised = true → s.failed ≠ [] ∨ Faulty app root
  raises : 0 < s.raises → s.failed ≠ []
  dead : ∀ w ∈ s.dead, s.failed ≠ []

-- What Operator#finish has waited for.
structure Joined (s : InvokeTask Queue Task) : Prop where
  joining : ∀ j, s.main = .joining j → ∀ w < j, s.pool.workers[w]? = some .exited
  returned : s.main = .returned → s.raised = false → ∀ w < s.pool.workers.length, s.pool.workers[w]? = some .exited

section Steps

variable [DecidableEq Task] [Fintype Task] {app : Application Task Name Scope} {root : Task} {ops : QueueOps Queue Task Host Choice}
  {host : Nat → Host} {Stored : Queue → Prop} {content : Queue → Finset Task} {s : InvokeTask Queue Task}

theorem blamed_step (after : InvokeTask Queue Task) (label : InvokeLabel Task Choice) (ledger : Ledger Stored content s)
    (books : Books app root s) (blamed : Blamed app root s) (effect : Effect app root ops host s label after) :
    Blamed app root after := by
  have kept : ∀ after : InvokeTask Queue Task, after.raised = s.raised → after.raises = s.raises → after.dead = s.dead →
      after.failed = s.failed → Blamed app root after := by
    rintro after raised raises dead failed
    exact ⟨by rw [raised, failed]; exact blamed.raised, by rw [raises, failed]; exact blamed.raises,
      by rw [dead, failed]; exact blamed.dead⟩
  cases effect with
  | fail w task pool stage moved => exact ⟨fun _ => .inl (by simp), fun _ => by simp, fun _ _ => by simp⟩
  | die w pool moved =>
      have failed : s.failed ≠ [] := by
        cases Pool.step_effect ops host _ _ _ moved with
        | stopLeave _ stands => exact ledger.stopping w _ stands rfl
      exact ⟨blamed.raised, fun _ => failed, fun _ _ => failed⟩
  | traceError needed error after stands ran =>
      refine ⟨fun _ => .inr ?_, blamed.raises, blamed.dead⟩
      exact find_task_error (Fintype.card Task + 1) root (Tracing.cleared s.tracer) (Nat.lt_succ_self _) error (by
        change (availableTask app needed root _).1 = _
        rw [ran])
  | stray taken b rest stands read more foreign =>
      exact absurd (output_listed ledger books taken b stands (by simp [read])) foreign
  | joinRaised j stands exited dead => exact ⟨fun _ => .inl (blamed.dead j dead), blamed.raises, blamed.dead⟩
  | abortLoop raises waiting stands =>
      have failed := blamed.raises (by omega)
      exact ⟨fun _ => .inl failed, fun _ => failed, blamed.dead⟩
  | abortEnsure raises waiting stands =>
      have failed := blamed.raises (by omega)
      exact ⟨fun _ => .inl failed, fun _ => failed, blamed.dead⟩
  | _ => exact kept _ rfl rfl rfl rfl

-- A worker that has exited stays where it is.
theorem exited_step (after : InvokeTask Queue Task) (label : InvokeLabel Task Choice)
    (effect : Effect app root ops host s label after) (w : Nat) (gone : s.pool.workers[w]? = some .exited) :
    after.pool.workers[w]? = some .exited := by
  rcases effect_pool s after label effect with same | ⟨move, moved⟩
  · exact same ▸ gone
  · rcases Pool.effect_kept ops host _ _ move (Pool.step_effect ops host _ _ _ moved) w _ gone with stays | ⟨fresh, -, turn⟩
    · exact stays
    · cases turn

theorem joined_step (after : InvokeTask Queue Task) (label : InvokeLabel Task Choice) (joined : Joined s)
    (effect : Effect app root ops host s label after) : Joined after := by
  have gone := exited_step after label effect
  have size : after.pool.workers.length = s.pool.workers.length := by
    rcases effect_pool s after label effect with same | ⟨move, moved⟩
    · rw [same]
    · exact Pool.worker_count ops host _ _ move (Pool.step_effect ops host _ _ _ moved)
  have kept : after.main = s.main → after.raised = s.raised → Joined after := by
    intro main raised
    refine ⟨fun j stands w below => gone w (joined.joining j (main ▸ stands) w below), fun stands quiet w below => ?_⟩
    exact gone w (joined.returned (main ▸ stands) (raised ▸ quiet) w (size ▸ below))
  cases effect with
  | joinedAll j stands last =>
      refine ⟨fun k other => (nomatch other), fun _ _ w below => joined.joining j stands w (lt_of_lt_of_le below last)⟩
  | joined j stands exited living =>
      refine ⟨fun k next w below => ?_, fun other => nomatch other⟩
      obtain rfl : j + 1 = k := by simpa using next
      by_cases last : w = j
      · exact last ▸ exited
      · exact joined.joining j stands w (by omega)
  | finishSignal wake pool stands moved =>
      refine ⟨fun k next w below => ?_, fun other => nomatch other⟩
      obtain rfl : 0 = k := by simpa using next
      omega
  | joinRaised => exact ⟨fun k other => (nomatch other), fun _ quiet => nomatch quiet⟩
  | abortEnsure => exact ⟨fun k other => (nomatch other), fun _ quiet => nomatch quiet⟩
  | traceBatch | traceNil | traceError | push | collect | stray | again | finishRaise | abortLoop =>
      exact ⟨fun k other => (nomatch other), fun other => nomatch other⟩
  | _ => exact kept rfl rfl

end Steps

-- Everything a run keeps.
structure Kept (app : Application Task Name Scope) (root : Task) (Stored : Queue → Prop) (content : Queue → Finset Task)
    (s : InvokeTask Queue Task) : Prop where
  ledger : Ledger Stored content s
  books : Books app root s
  blamed : Blamed app root s
  joined : Joined s

section Runs

variable [DecidableEq Task] [Fintype Task] {app : Application Task Name Scope} {root : Task} {ops : QueueOps Queue Task Host Choice}
  {host : Nat → Host} {Stored : Queue → Prop} {content : Queue → Finset Task}
  {guard : InvokeTask Queue Task → InvokeLabel Task Choice → Prop}

theorem kept_run (store : QueueStore ops Stored content) (q : Queue) (stored : Stored q) (vacant : content q = ∅) (n : Nat)
    (s : InvokeTask Queue Task) (run : Machine.Run (step app root ops host) guard (new q n) s) : Kept app root Stored content s := by
  refine Machine.run_invariant (Kept app root Stored content) (new q n) ?_ ?_ s run
  · exact ⟨ledger_new q n stored vacant, books_new q n, ⟨by simp [new], by simp [new], by simp [new]⟩,
      ⟨fun j stands => (nomatch stands), fun stands => nomatch stands⟩⟩
  · intro before after label _ kept _ taken
    have effect := step_effect app root ops host before after label taken
    exact ⟨ledger_step store after label kept.ledger kept.books effect, books_step store after label kept.ledger kept.books effect,
      blamed_step after label kept.ledger kept.books kept.blamed effect, joined_step after label kept.joined effect⟩

end Runs

section Readings

variable {app : Application Task Name Scope} {root : Task} {Stored : Queue → Prop} {content : Queue → Finset Task}
  {s : InvokeTask Queue Task}

theorem started_within (ledger : Ledger Stored content s) : (s.started : Multiset Task) ≤ ↑s.pool.pushed := by
  refine le_trans ?_ ledger.within
  rw [ledger.started, accounted]
  refine add_le_add (add_le_add ?_ le_rfl) le_rfl
  refine le_trans ?_ (Multiset.le_add_left _ _)
  refine Slots.sum_le_of_lookup Stage.begun Pool.carries s.stages s.pool.workers fun w stage stands => ?_
  cases stage with
  | idle => exact .inl rfl
  | running task => exact .inr ⟨_, ledger.agrees w task (.inl stands), le_rfl⟩
  | executed task => exact .inr ⟨_, ledger.agrees w task (.inr stands), le_rfl⟩

theorem ended_started (ledger : Ledger Stored content s) : (s.ended : Multiset Task) + ↑s.failed ≤ ↑s.started := by
  rw [ledger.started, ledger.ended]
  refine add_le_add (add_le_add ?_ le_rfl) le_rfl
  refine Slots.sum_le_of_lookup Stage.done Stage.begun s.stages s.stages fun w stage stands => ?_
  cases stage with
  | idle => exact .inl rfl
  | running task => exact .inl rfl
  | executed task => exact .inr ⟨_, stands, le_rfl⟩

theorem started_of_ended (ledger : Ledger Stored content s) (task : Task) (member : task ∈ s.ended) : task ∈ s.started :=
  Multiset.mem_coe.mp (Multiset.mem_of_le (ended_started ledger) (Multiset.mem_add.mpr (.inl (Multiset.mem_coe.mpr member))))

theorem started_of_failed (ledger : Ledger Stored content s) (task : Task) (member : task ∈ s.failed) : task ∈ s.started :=
  Multiset.mem_coe.mp (Multiset.mem_of_le (ended_started ledger) (Multiset.mem_add.mpr (.inr (Multiset.mem_coe.mpr member))))

theorem pushed_nodup (books : Books app root s) : s.pool.pushed.Nodup := (List.nodup_append.mp books.distinct).1

theorem started_given (kept : Kept app root Stored content s) (task : Task) (member : task ∈ s.started) : task ∈ s.given :=
  pushed_given task (Multiset.mem_coe.mp (Multiset.mem_of_le (started_within kept.ledger) (Multiset.mem_coe.mpr member)))

theorem settled_given (kept : Kept app root Stored content s) (task : Task) (settled : s.Settled task) :
    task ∈ s.given ∨ task ∈ s.skipped :=
  settled.imp_left fun ends => started_given kept task (started_of_ended kept.ledger task ends)

theorem settled_below (kept : Kept app root Stored content s) (task lower : Task)
    (known : task ∈ s.given ∨ task ∈ s.skipped) (below : Relation.TransGen (Needs app) task lower) : s.Settled lower := by
  obtain ⟨prereq, edge, path⟩ := Relation.TransGen.head'_iff.mp below
  refine Dag.closed_below s.Settled (fun upper next settled needs => ?_) prereq lower
    ((kept.books.closed task known).2 prereq edge) path
  exact (kept.books.closed upper (settled_given kept upper settled)).2 next needs

end Readings

-- What a maintainer may rely on at any time, whatever failed.
structure Orderly (app : Application Task Name Scope) (root : Task) (s : InvokeTask Queue Task) : Prop where
  once : s.started.Nodup
  reached : ∀ task ∈ s.started, Reach app root task
  -- every task below a started one has ended or was found not needed
  ready : ∀ task ∈ s.started, ∀ lower, Relation.TransGen (Needs app) task lower → lower ∈ s.ended ∨ lower ∈ s.skipped
  apart : ∀ task ∈ s.started, task ∉ s.skipped
  -- a failed task has neither ended nor been skipped, so nothing above it starts
  failed : ∀ task ∈ s.failed, task ∈ s.started ∧ task ∉ s.ended ∧
    ∀ upper, Relation.TransGen (Needs app) upper task → upper ∉ s.started ∧ upper ∉ s.skipped

theorem kept_orderly {app : Application Task Name Scope} {root : Task} {Stored : Queue → Prop} {content : Queue → Finset Task}
    {s : InvokeTask Queue Task} (kept : Kept app root Stored content s) : Orderly app root s := by
  have once : s.started.Nodup := Multiset.coe_nodup.mp
    (Multiset.nodup_of_le (started_within kept.ledger) (Multiset.coe_nodup.mpr (pushed_nodup kept.books)))
  have split : ((s.ended : Multiset Task) + ↑s.failed).Nodup :=
    Multiset.nodup_of_le (ended_started kept.ledger) (Multiset.coe_nodup.mpr once)
  refine ⟨once, fun task starts => (kept.books.closed task (.inl (started_given kept task starts))).1,
    fun task starts lower below => settled_below kept task lower (.inl (started_given kept task starts)) below,
    fun task starts skips => kept.books.apart task skips (started_given kept task starts), fun task fails => ?_⟩
  have starts := started_of_failed kept.ledger task fails
  have unended : task ∉ s.ended := fun ends =>
    Multiset.disjoint_left.mp (Multiset.nodup_add.mp split).2.2 (Multiset.mem_coe.mpr ends) (Multiset.mem_coe.mpr fails)
  have unsettled : ¬ s.Settled task := fun settled =>
    settled.elim unended fun skips => kept.books.apart task skips (started_given kept task starts)
  refine ⟨starts, unended, fun upper above => ⟨fun runs => ?_, fun skips => ?_⟩⟩
  · exact unsettled (settled_below kept upper task (.inl (started_given kept upper runs)) above)
  · exact unsettled (settled_below kept upper task (.inr skips) above)

-- invoke_task has returned, normally or by an exception.
structure Concluded (app : Application Task Name Scope) (root : Task) (s : InvokeTask Queue Task) : Prop where
  built : s.raised = false → s.failed = [] ∧ (∀ task, Reach app root task → task ∈ s.ended ∨ task ∈ s.skipped) ∧
    s.ended.Perm s.pool.pushed ∧ s.outputQueue = [] ∧ ∀ w < s.pool.workers.length, s.pool.workers[w]? = some .exited
  blamed : s.raised = true → s.failed ≠ [] ∨ Faulty app root

theorem kept_concluded {app : Application Task Name Scope} {root : Task} {Stored : Queue → Prop} {content : Queue → Finset Task}
    {s : InvokeTask Queue Task} (kept : Kept app root Stored content s) (returned : s.main = .returned) :
    Concluded app root s := by
  refine ⟨fun quiet => ?_, kept.blamed.raised⟩
  have tallied := kept.books.tallied
  simp only [Tallied, returned] at tallied
  obtain ⟨even, top⟩ := tallied quiet
  obtain ⟨-, drained, sound, collected⟩ := settled_all kept.ledger even
  have root_settled : s.Settled root :=
    ((kept.books.invoked root).mp top).imp_left (settled_started kept.ledger even root)
  refine ⟨sound, fun task below => ?_, ?_, drained, kept.joined.returned returned quiet⟩
  · rcases Relation.reflTransGen_iff_eq_or_transGen.mp below with rfl | path
    · exact root_settled
    · exact settled_below kept root task (settled_given kept root root_settled) path
  · have pushed : (s.collected : Multiset Task) ≤ ↑s.ended := by
      rw [kept.ledger.ended, completed, drained, List.append_nil]
      exact Multiset.le_add_left _ _
    have within : (s.ended : Multiset Task) ≤ ↑s.pool.pushed :=
      ((Multiset.le_add_right _ _).trans (ended_started kept.ledger)).trans (started_within kept.ledger)
    exact Multiset.coe_eq_coe.mp (le_antisymm within (collected ▸ pushed))

end InvokeTask

end Pwrake
