import Pwrake.InvokeOrder
import Pwrake.Rake

set_option autoImplicit false

namespace Pwrake

namespace InvokeTask

open Tracer

variable {Queue Task Host Choice Name Scope : Type*} [DecidableEq Task]

-- A trace asks the oracle about what has been executed so far.
def Consults (oracle : Task → Finset Task → Bool) (s : InvokeTask Queue Task) : InvokeLabel Task Choice → Prop
  | .trace needed => needed = fun task => oracle task s.ended.toFinset
  | _ => True

instance [Fintype Task] (oracle : Task → Finset Task → Bool) (s : InvokeTask Queue Task) (label : InvokeLabel Task Choice) :
    Decidable (Consults oracle s label) := by
  cases label <;> unfold Consults <;> infer_instance

-- Which of the known tasks were skipped is what the oracle still says of them.
structure Judged (app : Application Task Name Scope) (oracle : Task → Finset Task → Bool) (s : InvokeTask Queue Task) : Prop where
  verdict : ∀ task, task ∈ s.given ∨ task ∈ s.skipped → (oracle task s.ended.toFinset = true ↔ task ∉ s.skipped)
  ordered : s.ended.Pairwise fun earlier later => ¬ Relation.TransGen (Needs app) earlier later

section Steps

variable {app : Application Task Name Scope} {root : Task} {oracle : Task → Finset Task → Bool} {Stored : Queue → Prop}
  {content : Queue → Finset Task} {s : InvokeTask Queue Task}

-- A task that ends stands below nothing that is known, so nothing it could
-- change has been asked.
theorem judged_execute (reads : Rake.ReadsBelow app oracle) (kept : Kept app root Stored content s) (judged : Judged app oracle s)
    (w : Nat) (task : Task) (stage : s.stages[w]? = some (.running task)) (after : InvokeTask Queue Task)
    (given : after.given = s.given) (skipped : after.skipped = s.skipped) (ended : after.ended = s.ended ++ [task]) :
    Judged app oracle after := by
  have running : (s.ended : Multiset Task) + ({task} : Multiset Task) ≤ ↑s.started := by
    -- the stage of w counts as begun and not as done
    have begun := Slots.sum_set Stage.begun s.stages w (.running task) .idle stage
    have done := Slots.sum_set Stage.done s.stages w (.running task) .idle stage
    have idle : Stage.begun (.idle : Stage Task) = 0 ∧ Stage.done (.idle : Stage Task) = 0 ∧ Stage.done (.running task) = 0 :=
      ⟨rfl, rfl, rfl⟩
    rw [idle.1, add_zero] at begun
    rw [idle.2.1, idle.2.2, add_zero, add_zero] at done
    have others : ((s.stages.set w .idle).map Stage.done).sum ≤ ((s.stages.set w .idle).map Stage.begun).sum := by
      refine Slots.sum_le_of_lookup Stage.done Stage.begun _ _ fun v stage stands => ?_
      cases stage with
      | idle => exact .inl rfl
      | running task => exact .inl rfl
      | executed task => exact .inr ⟨_, stands, le_rfl⟩
    rw [kept.ledger.ended, kept.ledger.started, ← done, ← begun, add_right_comm]
    exact (add_le_add (add_le_add others le_rfl) le_rfl).trans (Multiset.le_add_right _ _)
  have once : ((s.ended : Multiset Task) + ({task} : Multiset Task)).Nodup :=
    Multiset.nodup_of_le running (Multiset.coe_nodup.mpr (kept_orderly kept).once)
  have starts : task ∈ s.started := Multiset.mem_coe.mp (Multiset.mem_of_le running
    (Multiset.mem_add.mpr (.inr (Multiset.mem_singleton_self task))))
  have unsettled : ¬ s.Settled task := by
    rintro (ends | skips)
    · exact Multiset.disjoint_left.mp (Multiset.nodup_add.mp once).2.2 (Multiset.mem_coe.mpr ends) (Multiset.mem_singleton_self task)
    · exact kept.books.apart task skips (started_given kept task starts)
  have apart : ∀ upper, upper ∈ s.given ∨ upper ∈ s.skipped → ¬ Relation.TransGen (Needs app) upper task :=
    fun upper known below => unsettled (settled_below kept upper task known below)
  refine ⟨fun other known => ?_, ?_⟩
  · rw [given, skipped] at known
    have same : oracle other after.ended.toFinset = oracle other s.ended.toFinset := by
      refine reads other _ _ fun lower below => ?_
      have different : lower ≠ task := fun here => apart other known (here ▸ below)
      simp [ended, different]
    rw [same, skipped]
    exact judged.verdict other known
  · rw [ended]
    refine List.pairwise_append.mpr ⟨judged.ordered, List.pairwise_singleton _ task, fun earlier before later itself => ?_⟩
    rw [List.mem_singleton.mp itself]
    exact apart earlier (settled_given kept earlier (.inl before))

theorem judged_traced [Fintype Task] (kept : Kept app root Stored content s) (judged : Judged app oracle s)
    (stands : s.main = .trace) (result : Except (TraceError Task Name) (Option Status)) (tracer : TraceState Task)
    (ran : availableTask app (fun task => oracle task s.ended.toFinset) root (Tracing.cleared s.tracer) = (result, tracer))
    (after : InvokeTask Queue Task) (same : after.tracer = tracer)
    (skipped : after.skipped = s.skipped ∪ (tracer.invoked \ s.tracer.invoked)) (pushed : after.pool.pushed = s.pool.pushed)
    (ended : after.ended = s.ended) (moved : after.main = .push ∨ inLoop after.main = false) : Judged app oracle after := by
  have outcome := Tracing.call_outcome _ root s.tracer tracer result ran
  have skips := skipped_traced tracer after skipped
  have handed := given_traced stands tracer after same pushed moved
  have earlier : ∀ task, task ∈ s.given ∨ task ∈ s.skipped →
      (oracle task s.ended.toFinset = true ↔ task ∉ after.skipped) := by
    intro task known
    have stays : ¬ (task ∈ tracer.invoked ∧ task ∉ s.tracer.invoked) := fun dropped =>
      (outcome.dropped task dropped.1 dropped.2).2.1 (kept.books.fetched task known)
    rw [judged.verdict task known, skips task, or_iff_left stays]
  refine ⟨fun task member => ?_, ended ▸ judged.ordered⟩
  rw [ended]
  rcases member with given | drops
  · rcases handed task given with known | now
    · exact earlier task (.inl known)
    · obtain ⟨-, unfetched, uninvoked, wanted, -⟩ := outcome.chosen task now
      refine ⟨fun _ drops => ?_, fun _ => wanted⟩
      rcases (skips task).mp drops with dropped | ⟨member, -⟩
      · exact unfetched (kept.books.fetched task (.inr dropped))
      · exact uninvoked member
  · rcases (skips task).mp drops with dropped | ⟨member, fresh⟩
    · exact earlier task (.inr dropped)
    · have unwanted := (outcome.dropped task member fresh).2.2.1
      exact ⟨fun wanted => (by rw [unwanted] at wanted; cases wanted), fun stays => absurd drops stays⟩

theorem judged_step [Fintype Task] {ops : QueueOps Queue Task Host Choice} {host : Nat → Host}
    (reads : Rake.ReadsBelow app oracle) (after : InvokeTask Queue Task)
    (label : InvokeLabel Task Choice) (kept : Kept app root Stored content s) (judged : Judged app oracle s)
    (consults : Consults oracle s label) (effect : Effect app root ops host s label after) : Judged app oracle after := by
  have calm : ∀ after : InvokeTask Queue Task, after.given.Sublist s.given → after.skipped = s.skipped → after.ended = s.ended →
      Judged app oracle after := by
    intro after given skipped ended
    refine ⟨fun task known => ?_, ended ▸ judged.ordered⟩
    rw [ended, skipped]
    exact judged.verdict task (known.imp (fun listed => given.subset listed) fun dropped => skipped ▸ dropped)
  have threads : ∀ (label : PoolLabel Task Choice) (pool : Pool Queue Task) (after : InvokeTask Queue Task),
      (∀ tasks wake, label ≠ .push tasks wake) → s.pool.step ops host label = some pool → after.pool = pool → after.main = s.main →
      after.batch = s.batch → after.skipped = s.skipped → after.ended = s.ended → Judged app oracle after := by
    intro label pool after quiet moved same main batch skipped ended
    have pushed : pool.pushed = s.pool.pushed := by
      cases Pool.step_effect ops host _ _ _ moved with
      | push tasks wake => exact absurd rfl (quiet tasks wake)
      | leave w out => cases out <;> rfl
      | _ => rfl
    refine calm after ?_ skipped ended
    have given : after.given = s.given := by
      unfold InvokeTask.given pending
      rw [main, same, pushed, batch]
    exact given ▸ List.Sublist.refl _
  have onward : ∀ after : InvokeTask Queue Task, after.main ≠ .push → after.pool.pushed = s.pool.pushed → after.skipped = s.skipped →
      after.ended = s.ended → Judged app oracle after := by
    intro after away pushed skipped ended
    refine calm after ?_ skipped ended
    rw [given_of_main away, pushed]
    exact List.sublist_append_left _ _
  cases effect with
  | worker label pool own moved =>
      exact threads label pool _ (by rintro tasks wake rfl; cases own) moved rfl rfl rfl rfl rfl
  | start w task stands stage => exact calm _ (List.Sublist.refl _) rfl rfl
  | execute w task stage => exact judged_execute reads kept judged w task stage _ rfl rfl rfl
  | complete w task pool stage moved => exact threads _ pool _ (by simp) moved rfl rfl rfl rfl rfl
  | fail w task pool stage moved => exact threads _ pool _ (by simp) moved rfl rfl rfl rfl rfl
  | die w pool moved => exact threads _ pool _ (by simp) moved rfl rfl rfl rfl rfl
  | traceBatch needed status after stands ran =>
      exact judged_traced kept judged stands _ after (consults ▸ ran) _ rfl rfl rfl rfl (.inl rfl)
  | traceNil needed after stands ran =>
      exact judged_traced kept judged stands _ after (consults ▸ ran) _ rfl rfl rfl rfl (.inr rfl)
  | traceError needed error after stands ran =>
      exact judged_traced kept judged stands _ after (consults ▸ ran) _ rfl rfl rfl rfl (.inr rfl)
  | push choice wake pool stands moved =>
      have pushed : pool.pushed = s.pool.pushed ++ s.batch := by
        cases Pool.step_effect ops host _ _ _ moved with
        | push => exact congrArg (s.pool.pushed ++ ·) (batch_tasks choice)
      refine calm _ ?_ rfl rfl
      rw [given_of_push stands, given_of_main (by simp)]
      exact pushed ▸ List.Sublist.refl _
  | finishRaise pool stands moved =>
      refine onward _ (by simp) ?_ rfl rfl
      cases Pool.step_effect ops host _ _ _ moved with
      | finishRaise => rfl
  | finishSignal wake pool stands moved =>
      refine onward _ (by simp) ?_ rfl rfl
      cases Pool.step_effect ops host _ _ _ moved with
      | finishSignal => rfl
  | _ => exact onward _ (by simp) rfl rfl rfl

end Steps

-- A known task is skipped exactly when the sequential run does not execute it:
-- below it both runs have settled alike.
theorem judged_agrees [Finite Task] {app : Application Task Name Scope} {root : Task} {oracle : Task → Finset Task → Bool}
    {Stored : Queue → Prop} {content : Queue → Finset Task} {s : InvokeTask Queue Task} (reads : Rake.ReadsBelow app oracle)
    (buildable : Buildable app root) (kept : Kept app root Stored content s) (judged : Judged app oracle s) (executed : List Task)
    (executes : Rake.Executes app oracle root executed) (task : Task) (known : task ∈ s.given ∨ task ∈ s.skipped) :
    task ∉ s.skipped ↔ task ∈ executed := by
  have orderly := kept_orderly kept
  have below := (kept.books.closed task known).1
  revert known
  refine Dag.below_induction buildable.acyclic (fun task => task ∈ s.given ∨ task ∈ s.skipped → (task ∉ s.skipped ↔ task ∈ executed))
    ?_ task below
  intro task below lowers known
  have same : oracle task s.ended.toFinset = oracle task executed.toFinset := by
    refine reads task _ _ fun lower path => ?_
    have settled := settled_below kept task lower known path
    rw [List.mem_toFinset, List.mem_toFinset, ← lowers lower path (settled_given kept lower settled)]
    constructor
    · exact fun ends skips => orderly.apart lower (started_of_ended kept.ledger lower ends) skips
    · exact fun stays => settled.resolve_right stays
  rw [executes.solved task below, ← same]
  exact (judged.verdict task known).symm

-- A run with failures beside what the sequential run executes.
structure Refines (app : Application Task Name Scope) (executed : List Task) (s : InvokeTask Queue Task) : Prop where
  started : ∀ task ∈ s.started, task ∈ executed
  skipped : ∀ task ∈ s.skipped, task ∉ executed
  ordered : s.ended.Pairwise fun earlier later => ¬ Relation.TransGen (Needs app) earlier later
  built : s.main = .returned → s.raised = false → s.ended.Perm executed

theorem consulting_refines [Fintype Task] {app : Application Task Name Scope} {root : Task} {oracle : Task → Finset Task → Bool}
    {ops : QueueOps Queue Task Host Choice} {host : Nat → Host} {Stored : Queue → Prop} {content : Queue → Finset Task}
    (store : QueueStore ops Stored content) (q : Queue) (stored : Stored q) (vacant : content q = ∅)
    (reads : Rake.ReadsBelow app oracle) (buildable : Buildable app root) (executed : List Task)
    (executes : Rake.Executes app oracle root executed) (n : Nat) (s : InvokeTask Queue Task)
    (run : Machine.Run (step app root ops host) (Consults oracle) (new q n) s) : Refines app executed s := by
  have kept : ∀ state, Machine.Run (step app root ops host) (Consults oracle) (new q n) state → Kept app root Stored content state :=
    kept_run store q stored vacant n
  have judged : Judged app oracle s := by
    refine Machine.run_invariant (Judged app oracle) (new q n) ?_ ?_ s run
    · exact ⟨by simp [given, pending, new, Pool.init], by simp [new]⟩
    · intro before after label reached judged allowed taken
      exact judged_step reads after label (kept before reached) judged allowed (step_effect app root ops host _ _ _ taken)
  have whole := kept s run
  have orderly := kept_orderly whole
  have agrees := judged_agrees reads buildable whole judged executed executes
  refine ⟨fun task starts => ?_, fun task skips member => ?_, judged.ordered, fun returned quiet => ?_⟩
  · exact (agrees task (.inl (started_given whole task starts))).mp (orderly.apart task starts)
  · exact (agrees task (.inr skips)).mpr member skips
  · obtain ⟨-, settled, -⟩ := (kept_concluded whole returned).built quiet
    have once : s.ended.Nodup := Multiset.coe_nodup.mp (Multiset.nodup_of_le
      ((Multiset.le_add_right _ _).trans (ended_started whole.ledger)) (Multiset.coe_nodup.mpr orderly.once))
    have ends : ∀ task ∈ s.ended, task ∈ s.given ∧ task ∉ s.skipped := by
      intro task member
      have starts := started_of_ended whole.ledger task member
      exact ⟨started_given whole task starts, orderly.apart task starts⟩
    refine (List.perm_ext_iff_of_nodup once executes.once).mpr fun task => ⟨fun member => ?_, fun member => ?_⟩
    · exact (agrees task (.inl (ends task member).1)).mp (ends task member).2
    · have done := settled task (executes.reached task member)
      refine done.resolve_right fun skips => ?_
      exact (agrees task (.inr skips)).mpr member skips

end InvokeTask

end Pwrake
