import Pwrake.Rake
import Pwrake.TopLevel

set_option autoImplicit false

namespace Pwrake

namespace Operator

open Tracer

variable {Task Name Scope : Type*} [DecidableEq Task]

instance [Fintype Task] (needed : Task → Bool) (label : OperatorLabel Task) : Decidable (Answers needed label) := by
  unfold Answers
  infer_instance

-- No action invokes a task, and a trace asks the oracle about what has been
-- executed so far.
def Consults (oracle : Task → Finset Task → Bool) (s : Operator Task Name) (label : OperatorLabel Task) : Prop :=
  NoNested label ∧ Answers (fun task => oracle task s.ended.toFinset) label

instance [Fintype Task] (oracle : Task → Finset Task → Bool) (s : Operator Task Name) (label : OperatorLabel Task) :
    Decidable (Consults oracle s label) := by
  unfold Consults
  infer_instance

-- Operator#invoke has returned to invoke_task.
def Returned (s : Operator Task Name) : Prop :=
  s.todo = [] ∧ ∀ inv stage, s.threads[mainThread]? ≠ some (.invoking inv stage)

-- With one name there is one call of invoke, and finish comes after it.
structure Lone (s : Operator Task Name) : Prop where
  few : s.todo.length ≤ 1
  waiting : s.todo ≠ [] → s.inputQueue.finished = false ∧ s.threads[mainThread]? = some .idle
  calling : ∀ inv stage, s.threads[mainThread]? = some (.invoking inv stage) → s.inputQueue.finished = false

-- Which tasks were skipped is what the oracle still says of them.
structure Judged (app : Application Task Name Scope) (oracle : Task → Finset Task → Bool) (s : Operator Task Name) : Prop where
  verdict : ∀ task ∈ s.fetched, oracle task s.ended.toFinset = true ↔ task ∉ s.skipped
  ordered : s.ended.Pairwise fun earlier later => ¬ Relation.TransGen (Needs app) earlier later

section Facts

variable {app : Application Task Name Scope} {oracle : Task → Finset Task → Bool} {s : Operator Task Name} {names : List Name}

omit [DecidableEq Task] in
theorem lone_move (after : Operator Task Name) (w : Nat) (old pc : ThreadPc Task) (lone : Lone s)
    (stands : s.threads[w]? = some old) (threads : after.threads = s.threads.set w pc) (todo : after.todo = s.todo)
    (finished : after.inputQueue.finished = s.inputQueue.finished) (busy : old ≠ .idle)
    (back : ∀ inv stage, pc = .invoking inv stage → ∃ earlier, old = .invoking inv earlier) : Lone after where
  few := todo ▸ lone.few
  waiting := by
    intro some
    obtain ⟨unfinished, idle⟩ := lone.waiting (todo ▸ some)
    have apart : w ≠ mainThread := by
      rintro rfl
      exact busy (Option.some.inj (stands.symm.trans idle))
    rw [finished, threads, List.getElem?_set_ne apart]
    exact ⟨unfinished, idle⟩
  calling := by
    intro inv stage read
    rw [finished]
    rcases set_thread_moves s after w pc threads mainThread inv stage read with ⟨same, calls⟩ | ⟨-, earlier⟩
    · obtain ⟨earlier, here⟩ := back inv stage calls
      exact lone.calling inv earlier (same ▸ here ▸ stands)
    · exact lone.calling inv stage earlier

theorem lone_step [Fintype Task] (after : Operator Task Name) (label : OperatorLabel Task) (lone : Lone s)
    (noNested : NoNested label) (effect : Effect app s label after) : Lone after := by
  have move : ∀ (w : Nat) (old pc : ThreadPc Task) (after : Operator Task Name), s.threads[w]? = some old →
      after.threads = s.threads.set w pc → after.todo = s.todo →
      after.inputQueue.finished = s.inputQueue.finished → old ≠ .idle →
      (∀ inv stage, pc = .invoking inv stage → ∃ earlier, old = .invoking inv earlier) → Lone after :=
    fun w old pc after stands => lone_move after w old pc lone stands
  have onward : ∀ (w : Nat) (inv : Invocation Task) (stage next : InvokePc) (after : Operator Task Name),
      s.threads[w]? = some (.invoking inv stage) → after.threads = s.threads.set w (.invoking inv next) →
      after.todo = s.todo → after.inputQueue.finished = s.inputQueue.finished → Lone after := by
    intro w inv stage next after stands threads todo finished
    refine move w _ _ after stands threads todo finished (by simp) ?_
    rintro other later ⟨⟩
    exact ⟨stage, rfl⟩
  -- the call of invoke_task that takes the only name
  have last : ∀ name rest, s.todo = name :: rest → rest = [] := by
    intro name rest queued
    have few := lone.few
    rw [queued, List.length_cons] at few
    exact List.length_eq_zero_iff.mp (by omega)
  cases effect with
  | popRetired w n wake stands => exact move w _ .exited _ stands rfl rfl rfl (by simp) (by simp)
  | popClosed w n wake cv stands => exact move w _ .exited _ stands rfl rfl rfl (by simp) (by simp)
  | popWait w n wake stands => exact move w _ (.popping n) _ stands rfl rfl rfl (by simp) (by simp)
  | popTask w n wake cv task rest stands => exact move w _ (.popped task) _ stands rfl rfl rfl (by simp) (by simp)
  | start w task stands => exact move w _ (.running task) _ stands rfl rfl rfl (by simp) (by simp)
  | call w root task stands => exact absurd noNested (no_nested_call w root)
  | taskEnd w task stands => exact move w _ (.executed task) _ stands rfl rfl rfl (by simp) (by simp)
  | complete w i task content stands => exact move w _ (.popping 0) _ stands rfl rfl rfl (by simp) (by simp)
  | reset w inv stands => exact onward w inv _ .trace _ stands rfl rfl rfl
  | traceBatch w needed inv status tracerState stands => exact onward w inv _ (.assign s.fetchedTasks) _ stands rfl rfl rfl
  | traceNil w needed inv tracerState stands =>
      refine move w _ (afterLoop inv) _ stands rfl rfl rfl (by simp) fun other stage same => ?_
      obtain ⟨rfl, rfl⟩ := after_loop_invoking inv other stage same
      exact ⟨_, rfl⟩
  | traceError w needed inv error tracerState stands => exact onward w inv _ .raised _ stands rfl rfl rfl
  | assign w a inv stands => exact onward w inv _ (.push a) _ stands rfl rfl rfl
  | push w a inv wake cv stands => exact onward w inv _ (.collect a 0) _ stands rfl rfl rfl
  | collect w a taken inv b rest stands => exact onward w inv _ (.collect a (taken + 1)) _ stands rfl rfl rfl
  | stray w a taken inv b rest stands => exact onward w inv _ .raised _ stands rfl rfl rfl
  | again w a taken inv stands => exact onward w inv _ .reset _ stands rfl rfl rfl
  | threadEnd w thread inv task stands => exact onward w inv _ (.joining thread) _ stands rfl rfl rfl
  | join w thread own inv task stands => exact move w _ (.running task) _ stands rfl rfl rfl (by simp) (by simp)
  | invokeTask name rest root stands queued =>
      have none := last name rest queued
      refine ⟨by simp [setThread, none], fun some => absurd none some, fun inv stage _ => ?_⟩
      exact (lone.waiting (by simp [queued])).1
  | invokeUnknown name rest stands queued =>
      have none := last name rest queued
      refine ⟨by simp [setThread, none], fun some => absurd none some, fun inv stage read => ?_⟩
      exact (lone.waiting (by simp [queued])).1
  | finish wake cv stands =>
      have none : s.todo = [] := by
        by_contra some
        cases stands.symm.trans (lone.waiting some).2
      refine ⟨lone.few, fun some => absurd none some, fun inv stage read => ?_⟩
      rcases set_thread_moves s (s.setThread mainThread .joinWorkers) mainThread _ rfl mainThread inv stage read with
        ⟨-, same⟩ | ⟨apart, -⟩
      · cases same
      · exact absurd rfl apart
  | joinWorkers stands => exact move mainThread _ .idle _ stands rfl rfl rfl (by simp) (by simp)

omit [DecidableEq Task] in
theorem lone_new (n : Nat) (name : Name) : Lone (new n [name] : Operator Task Name) :=
  ⟨le_rfl, fun _ => ⟨rfl, rfl⟩, fun inv stage read => by cases read⟩

-- The first call of invoke is over before finish, so no trace comes after it.
theorem lone_covered (lone : Lone s) (single : Single app names s) (label : OperatorLabel Task) : Covered app s label := by
  rintro w needed inv rfl stands finished
  have main := solitary_main single.crewed.roles single.solitary w inv _ stands
  rw [lone.calling inv _ (main ▸ stands)] at finished
  cases finished

theorem fetched_below (single : Single app names s) (task lower : Task) (fetched : task ∈ s.fetched)
    (below : Relation.TransGen (Needs app) task lower) : Done s lower := by
  have books := single.crewed.books
  have ready : Ready app s task := by
    rcases (books.ledger.fetched task).mp fetched with returned | skipped
    · obtain ⟨call, -, inside⟩ := returned_batch task returned
      exact single.served.readied.arrays call.array task inside
    · exact single.served.closed task ((books.ledger.invoked task).mpr (.inr skipped))
  obtain ⟨prereq, edge, path⟩ := Relation.TransGen.head'_iff.mp below
  exact done_below single prereq lower (ready prereq edge) path

theorem running_undone (single : Single app names s) (w : Nat) (task : Task) (stands : s.threads[w]? = some (.running task)) :
    task ∈ s.fetched ∧ ¬ Done s task := by
  have ledger := single.crewed.books.ledger
  have inside := total_member s w _ stands running task (Multiset.mem_singleton_self task)
  have started : task ∈ s.started := by
    refine Multiset.mem_coe.mp ?_
    rw [ledger.ended]
    exact Multiset.mem_add.mpr (.inl inside)
  have returned := started_returned ledger task started
  refine ⟨(ledger.fetched task).mpr (.inl returned), fun done => ?_⟩
  rcases done with ended | skipped
  · have distinct := Multiset.coe_nodup.mpr (started_nodup ledger)
    rw [ledger.ended] at distinct
    exact Multiset.disjoint_left.mp (Multiset.nodup_add.mp distinct).2.2 inside (Multiset.mem_coe.mpr ended)
  · exact ledger.skipped task skipped returned

-- A task that ends stands below nothing that was fetched, so nothing it could
-- change has been asked.
theorem judged_end (reads : Rake.ReadsBelow app oracle) (w : Nat) (task : Task) (judged : Judged app oracle s)
    (single : Single app names s) (stands : s.threads[w]? = some (.running task)) :
    Judged app oracle ({ s with ended := s.ended ++ [task] }.setThread w (.executed task)) := by
  obtain ⟨-, undone⟩ := running_undone single w task stands
  have apart : ∀ upper ∈ s.fetched, ¬ Relation.TransGen (Needs app) upper task :=
    fun upper fetched below => undone (fetched_below single upper task fetched below)
  refine ⟨fun other fetched => ?_, ?_⟩
  · have same : oracle other (s.ended ++ [task]).toFinset = oracle other s.ended.toFinset := by
      refine reads other _ _ fun lower below => ?_
      have different : lower ≠ task := fun here => apart other fetched (here ▸ below)
      simp [different]
    show oracle other (s.ended ++ [task]).toFinset = true ↔ _
    rw [same]
    exact judged.verdict other fetched
  · refine List.pairwise_append.mpr ⟨judged.ordered, List.pairwise_singleton _ task, fun earlier before later itself => ?_⟩
    rw [List.mem_singleton.mp itself]
    have ledger := single.crewed.books.ledger
    exact apart earlier ((ledger.fetched earlier).mpr (.inl (ended_returned ledger earlier before)))

theorem judged_trace [Fintype Task] (root : Task) (result : Except (TraceError Task Name) (Option Status))
    (tracerState : TraceState Task) (judged : Judged app oracle s) (ledger : Ledger s)
    (ran : availableTask app (fun task => oracle task s.ended.toFinset) root s.tracer = (result, tracerState)) :
    Judged app oracle (s.traced tracerState) := by
  obtain ⟨added, outcome⟩ := trace_outcome app _ root s.tracer result tracerState ran
  refine ⟨fun task fetched => ?_, judged.ordered⟩
  have skips : task ∈ (s.traced tracerState).skipped ↔ task ∈ s.skipped ∨ (task ∈ tracerState.invoked ∧ task ∉ s.invoked) := by
    simp [traced]
  have before : task ∈ s.skipped → task ∈ s.invoked := fun skipped => (ledger.invoked task).mpr (.inr skipped)
  show oracle task s.ended.toFinset = true ↔ task ∉ (s.traced tracerState).skipped
  rw [skips]
  rcases (outcome.fetched task).mp fetched with earlier | chosen | ⟨invoked, absent⟩
  · have stays : ¬ (task ∈ tracerState.invoked ∧ task ∉ s.invoked) := fun dropped =>
      (outcome.dropped task dropped.1 dropped.2).2.1 earlier
    rw [judged.verdict task earlier]
    exact ⟨fun kept => not_or.mpr ⟨kept, stays⟩, fun neither => (not_or.mp neither).1⟩
  · obtain ⟨-, -, uninvoked, wanted, -⟩ := outcome.chosen task chosen
    refine ⟨fun _ => not_or.mpr ⟨fun skipped => uninvoked (outcome.invoked (before skipped)), fun dropped => ?_⟩, fun _ => wanted⟩
    exact uninvoked dropped.1
  · have unwanted := (outcome.dropped task invoked absent).2.2.1
    exact ⟨fun wanted => (by rw [unwanted] at wanted; cases wanted), fun neither => absurd (.inr ⟨invoked, absent⟩) neither⟩

theorem judged_step [Fintype Task] (reads : Rake.ReadsBelow app oracle) (after : Operator Task Name)
    (label : OperatorLabel Task) (judged : Judged app oracle s) (single : Single app names s)
    (consults : Consults oracle s label) (effect : Effect app s label after) : Judged app oracle after := by
  have ledger := single.crewed.books.ledger
  cases effect with
  | call w root => exact absurd consults.1 (no_nested_call w root)
  | taskEnd w task stands => exact judged_end reads w task judged single stands
  | traceBatch w needed inv status tracerState stands result =>
      have traced := judged_trace inv.root _ tracerState judged ledger (consults.2 needed rfl ▸ result)
      exact ⟨traced.verdict, traced.ordered⟩
  | traceNil w needed inv tracerState stands result =>
      have traced := judged_trace inv.root _ tracerState judged ledger (consults.2 needed rfl ▸ result)
      exact ⟨traced.verdict, traced.ordered⟩
  | traceError w needed inv error tracerState stands result =>
      have traced := judged_trace inv.root _ tracerState judged ledger (consults.2 needed rfl ▸ result)
      exact ⟨traced.verdict, traced.ordered⟩
  | _ => exact ⟨judged.verdict, judged.ordered⟩

theorem judged_executes (name : Name) (root : Task) (found : app.lookup name none = some root)
    (judged : Judged app oracle s) (single : Single app [name] s) (returned : Returned s) :
    Rake.Executes app oracle root s.ended := by
  have ledger := single.crewed.books.ledger
  have done := single_root_done single name List.mem_cons_self root found returned.1 returned.2
  have ended : ∀ task ∈ s.ended, task ∈ s.fetched := fun task member =>
    (ledger.fetched task).mpr (.inl (ended_returned ledger task member))
  refine ⟨ended_nodup ledger, fun task member => ?_, fun task below => ?_⟩
  · obtain ⟨other, listed, target, resolved, reached⟩ := single.served.reached task (ended task member)
    rw [List.mem_singleton.mp listed, found] at resolved
    cases resolved
    exact reached
  · have settled := done_below single root task done below
    constructor
    · intro member
      refine (judged.verdict task (ended task member)).mpr fun skipped => ?_
      exact ledger.skipped task skipped (ended_returned ledger task member)
    · intro wanted
      refine settled.resolve_right fun skipped => ?_
      exact (judged.verdict task ((ledger.fetched task).mpr (.inr skipped))).mp wanted skipped

end Facts

-- A state of a parallel run beside what the sequential run executed.
structure Refines [Fintype Task] (app : Application Task Name Scope) (oracle : Task → Finset Task → Bool) (executed : List Task)
    (s : Operator Task Name) : Prop where
  ordered : s.ended.Pairwise fun earlier later => ¬ Relation.TransGen (Needs app) earlier later
  progress : Finished s ∨ ∃ label after, Consults oracle s label ∧ step app s label = some after
  same : Returned s → s.ended.Perm executed

section Runs

variable [Fintype Task] {app : Application Task Name Scope} {oracle : Task → Finset Task → Bool}

theorem judged_run (reads : Rake.ReadsBelow app oracle) (n : Nat) (names : List Name) (buildable : BuildableNames app names)
    (s : Operator Task Name) (run : Machine.Run (step app) (Consults oracle) (new n names) s) : Judged app oracle s := by
  have single : ∀ state, Machine.Run (step app) (Consults oracle) (new n names) state → Single app names state :=
    single_run n buildable (Consults oracle) fun _ _ allowed => allowed.1
  exact Machine.run_invariant (Judged app oracle) (new n names) ⟨by simp [new], by simp [new]⟩
    (fun before after label reached judged allowed taken =>
      judged_step reads after label judged (single before reached) allowed (step_effect app before after label taken)) s run

theorem lone_run (n : Nat) (name : Name) (s : Operator Task Name)
    (run : Machine.Run (step app) (Consults oracle) (new n [name]) s) : Lone s :=
  Machine.run_invariant Lone (new n [name]) (lone_new n name)
    (fun before after label _ lone allowed taken => lone_step after label lone allowed.1 (step_effect app before after label taken))
    s run

theorem consulting_refines (reads : Rake.ReadsBelow app oracle) (name : Name) (root : Task)
    (found : app.lookup name none = some root) (buildable : Buildable app root) (executed : List Task)
    (executes : Rake.Executes app oracle root executed) (n : Nat) (staffed : 1 ≤ n) (s : Operator Task Name)
    (run : Machine.Run (step app) (Consults oracle) (new n [name]) s) : Refines app oracle executed s := by
  have listed : Listed app [name] := fun other member => ⟨root, List.mem_singleton.mp member ▸ found, buildable⟩
  have single : ∀ state, Machine.Run (step app) (Consults oracle) (new n [name]) state → Single app [name] state :=
    single_run n (listed_buildable listed) (Consults oracle) fun _ _ allowed => allowed.1
  have judged := judged_run reads n [name] (listed_buildable listed) s run
  have covered : Machine.Run (step app) (fun s label => NoNested label ∧ Covered app s label) (new n [name]) s :=
    Machine.run_strengthen (fun s => Lone s ∧ Single app [name] s) _ (new n [name])
      (fun state reached => ⟨lone_run n name state reached, single state reached⟩)
      (fun state label holds allowed => ⟨allowed.1, lone_covered holds.1 holds.2 label⟩) s run
  refine ⟨judged.ordered, ?_, fun returned => ?_⟩
  · refine (manned_progress (manned_run n staffed listed s covered) (single s run) listed).imp_right fun enabled => ?_
    obtain ⟨label, after, noNested, answers, taken⟩ := enabled fun task => oracle task s.ended.toFinset
    exact ⟨label, after, ⟨noNested, answers⟩, taken⟩
  · exact Rake.executes_unique reads root buildable s.ended executed
      (judged_executes name root found judged (single s run) returned) executes

end Runs

-- One sequential run stands for all schedules and all numbers of workers.
theorem parallel_refines_rake [Fintype Task] (app : Application Task Name Scope) (name : Name) (root : Task)
    (found : app.lookup name none = some root) (buildable : Buildable app root) (oracle : Task → Finset Task → Bool)
    (reads : Rake.ReadsBelow app oracle) :
    ∃ rake, Rake.invoke app oracle (Fintype.card Task + 1) root ⟨∅, []⟩ = some rake ∧ ∀ n, 1 ≤ n →
      (∀ s : Operator Task Name, Machine.Run (step app) (Consults oracle) (new n [name]) s → Refines app oracle rake.executed s) ∧
      ¬ Machine.Endless (step app) (Consults oracle) (new n [name]) := by
  obtain ⟨rake, ran, executes⟩ := Rake.invoke_executes reads root buildable
  have names := name_buildable app name root found buildable
  exact ⟨rake, ran, fun n staffed =>
    ⟨fun s run => consulting_refines reads name root found buildable rake.executed executes n staffed s run,
      single_ends n names _ fun _ _ allowed => allowed.1⟩⟩

-- Task 0 is needed because its prerequisite 2 was executed; 1 is not needed.
def leafNeeded (task : Fin 5) (executed : Finset (Fin 5)) : Bool :=
  task.val = 2 ∨ (task.val = 0 ∧ ∃ leaf ∈ executed, leaf.val = 2)

theorem leaf_needed_reads_below : Rake.ReadsBelow (graph twoLeaves) leafNeeded := by
  intro task left right same
  by_cases top : task = 0
  · subst top
    have leaf := same 2 (.single ((graph_needs twoLeaves 0 2).mpr (by decide)))
    have two : ∀ executed : Finset (Fin 5), (∃ leaf ∈ executed, leaf.val = 2) ↔ 2 ∈ executed := by
      refine fun executed => ⟨fun ⟨leaf, member, same⟩ => ?_, fun member => ⟨2, member, rfl⟩⟩
      exact (Fin.ext same : leaf = 2) ▸ member
    simp [leafNeeded, two, leaf]
  · simp [leafNeeded, top]

theorem parallel_refines_rake_leaf :
    ∃ s : Operator (Fin 5) (Fin 5), s.threads[mainThread]? = some .finishing ∧ s.ended = [2, 0] ∧
      ∃ rake, Rake.invoke (graph twoLeaves) leafNeeded 6 0 ⟨∅, []⟩ = some rake ∧ Refines (graph twoLeaves) leafNeeded rake.executed s := by
  obtain ⟨s, run, stands, ended⟩ := Machine.run_of_exec (step (graph twoLeaves)) (Consults leafNeeded)
    (fun s => s.threads[mainThread]? = some .finishing ∧ s.ended = [2, 0])
    [.invokeTask, .reset 0, .trace 0 (fun task => leafNeeded task ∅), .assign 0, .push 0 none, .pop 1 none, .start 1,
      .taskEnd 1, .complete 1, .pop 1 none, .collect 0, .again 0, .reset 0, .trace 0 (fun task => leafNeeded task {2}),
      .assign 0, .push 0 (some 1), .pop 1 none, .start 1, .taskEnd 1, .complete 1, .pop 1 none, .collect 0, .again 0,
      .reset 0, .trace 0 (fun task => leafNeeded task {2, 0})] (new 1 [0]) (by decide)
  obtain ⟨rake, ran, refines⟩ := parallel_refines_rake (graph twoLeaves) 0 0 rfl (two_leaves_buildable 0) leafNeeded
    leaf_needed_reads_below
  exact ⟨s, stands, ended, rake, ran, (refines 1 le_rfl).1 s run⟩

end Operator

end Pwrake
