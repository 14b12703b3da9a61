import Pwrake.Completion

set_option autoImplicit false

namespace Pwrake

namespace Operator

open Tracer

variable {Task Name Scope : Type*} [DecidableEq Task]

-- The first finish sends the workers away and nothing brings them back, so a
-- later call of invoke_task can only be served if there is nothing left to run.
def Covered (app : Application Task Name Scope) (s : Operator Task Name) (label : OperatorLabel Task) : Prop :=
  ∀ (w : Nat) needed inv, label = .trace w needed → s.threads[w]? = some (.invoking inv .trace) →
    s.inputQueue.finished = true → ∀ task, Reach app inv.root task → task ∈ s.invoked ∨ needed task = false

-- What the first finish decides: from then on the main thread never holds a batch.
structure Manned (s : Operator Task Name) : Prop where
  staff : 1 ≤ s.workers
  present : s.threads[mainThread]? ≠ some .exited
  closed : s.threads[mainThread]? = some .joinWorkers → s.inputQueue.finished = true
  spared : s.inputQueue.finished = true → ∀ inv stage, s.threads[mainThread]? = some (.invoking inv stage) →
    stage.array = none

def Finished (s : Operator Task Name) : Prop := s.todo = [] ∧ s.threads[mainThread]? = some .idle

-- Every listed name has a task, and that task can be built.
def Listed (app : Application Task Name Scope) (names : List Name) : Prop :=
  ∀ name ∈ names, ∃ root, app.lookup name none = some root ∧ Buildable app root

structure TasksInvoked [Fintype Task] (app : Application Task Name Scope) (names : List Name) (s : Operator Task Name) :
    Prop where
  once : s.started.Nodup
  unfailed : s.threads[mainThread]? ≠ some .exited ∧ ∀ (w : Nat) inv, s.threads[w]? ≠ some (.invoking inv .raised)
  alive : s.inputQueue.q ≠ [] → ∃ i < s.workers, s.threads[i + 1]? ≠ some .exited
  progress : Finished s ∨ ∀ needed, Enabled app needed s
  complete : Finished s → ∀ name ∈ names, ∀ root, app.lookup name none = some root → root ∈ s.invoked ∧
    ∀ task, Reach app root task → (s.ended.count task = 1 ∧ task ∉ s.skipped) ∨ (task ∈ s.skipped ∧ task ∉ s.started)

section Facts

variable {app : Application Task Name Scope} {s : Operator Task Name} {names : List Name}

omit [DecidableEq Task] in
theorem listed_buildable (listed : Listed app names) : BuildableNames app names := by
  intro name member root found
  obtain ⟨target, resolved, buildable⟩ := listed name member
  rw [found] at resolved
  cases resolved
  exact buildable

theorem covered_nil [Fintype Task] (single : Single app names s) (w : Nat) (needed : Task → Bool) (inv : Invocation Task)
    (status : Status) (tracerState : TraceState Task) (stands : s.threads[w]? = some (.invoking inv .trace))
    (covered : ∀ task, Reach app inv.root task → task ∈ s.invoked ∨ needed task = false) :
    availableTask app needed inv.root s.tracer ≠ (.ok (some status), tracerState) := by
  intro result
  have books := single.crewed.books
  have back := (trace_in_flight books single.crewed.roles single.solitary w inv stands).1
  obtain ⟨added, outcome⟩ := trace_outcome app needed inv.root s.tracer _ tracerState result
  obtain ⟨lower, below, fetched, uninvoked⟩ :=
    available_task_blocked app needed inv.root s.tracer (single.solitary.scratch w inv stands).1 status (by rw [result])
  rw [result] at fetched uninvoked
  rcases (outcome.fetched lower).mp fetched with earlier | chosen | ⟨invoked, -⟩
  · exact uninvoked (outcome.invoked (fetched_invoked books.ledger back lower earlier))
  · rcases covered lower below with invoked | unwanted
    · exact uninvoked (outcome.invoked invoked)
    · rw [(outcome.chosen lower chosen).2.2.2.1] at unwanted
      cases unwanted
  · exact uninvoked invoked

omit [DecidableEq Task] in
theorem manned_move (after : Operator Task Name) (w : Nat) (old pc : ThreadPc Task) (manned : Manned s)
    (stands : s.threads[w]? = some old) (threads : after.threads = s.threads.set w pc)
    (workers : after.workers = s.workers) (finished : after.inputQueue.finished = s.inputQueue.finished)
    (main : w = mainThread → pc ≠ .exited ∧ (pc = .joinWorkers → s.inputQueue.finished = true) ∧
      ∀ inv stage, pc = .invoking inv stage → s.inputQueue.finished = true → stage.array = none) : Manned after := by
  have read : after.threads[mainThread]? = if mainThread = w then some pc else s.threads[mainThread]? := by
    rw [threads, Slots.lookup_set s.threads w mainThread old pc stands]
  by_cases same : mainThread = w
  · obtain ⟨present, closed, spared⟩ := main same.symm
    rw [if_pos same] at read
    refine ⟨workers ▸ manned.staff, ?_, ?_, ?_⟩
    · rw [read]
      exact fun exited => present (Option.some.inj exited)
    · rw [read, finished]
      exact fun joins => closed (Option.some.inj joins)
    · rw [read, finished]
      exact fun ended inv stage calls => spared inv stage (Option.some.inj calls) ended
  · rw [if_neg same] at read
    refine ⟨workers ▸ manned.staff, ?_, ?_, ?_⟩
    · rw [read]
      exact manned.present
    · rw [read, finished]
      exact manned.closed
    · rw [read, finished]
      exact manned.spared

theorem manned_step [Fintype Task] (after : Operator Task Name) (label : OperatorLabel Task) (manned : Manned s)
    (single : Single app names s) (listed : Listed app names) (noNested : NoNested label) (covered : Covered app s label)
    (effect : Effect app s label after) : Manned after := by
  have move : ∀ (w : Nat) (old pc : ThreadPc Task) (after : Operator Task Name), s.threads[w]? = some old →
      after.threads = s.threads.set w pc → after.workers = s.workers →
      after.inputQueue.finished = s.inputQueue.finished →
      (w = mainThread → pc ≠ .exited ∧ (pc = .joinWorkers → s.inputQueue.finished = true) ∧
        ∀ inv stage, pc = .invoking inv stage → s.inputQueue.finished = true → stage.array = none) → Manned after :=
    fun w old pc after stands => manned_move after w old pc manned stands
  have elsewhere : ∀ (w : Nat) (old : ThreadPc Task), s.threads[w]? = some old → ¬ OfMain old → w ≠ mainThread := by
    rintro w old stands foreign rfl
    obtain ⟨pc, read, ofMain⟩ := single.crewed.roles.main
    cases read.symm.trans stands
    exact foreign ofMain
  have worker : ∀ (w : Nat) (old pc : ThreadPc Task) (after : Operator Task Name), s.threads[w]? = some old → ¬ OfMain old →
      after.threads = s.threads.set w pc → after.workers = s.workers →
      after.inputQueue.finished = s.inputQueue.finished → Manned after :=
    fun w old pc after stands foreign threads workers finished =>
      move w old pc after stands threads workers finished fun main => absurd main (elsewhere w old stands foreign)
  -- a call of invoke that goes on keeps its array or gives it up
  have onward : ∀ (w : Nat) (inv : Invocation Task) (stage next : InvokePc) (after : Operator Task Name),
      s.threads[w]? = some (.invoking inv stage) → after.threads = s.threads.set w (.invoking inv next) →
      after.workers = s.workers → after.inputQueue.finished = s.inputQueue.finished →
      (next.array = none ∨ next.array = stage.array) → Manned after := by
    intro w inv stage next after stands threads workers finished held
    refine move w _ _ after stands threads workers finished ?_
    rintro rfl
    refine ⟨by simp, by simp, ?_⟩
    rintro other place ⟨⟩ ended
    exact held.elim id fun same => same.trans (manned.spared ended inv stage stands)
  cases effect with
  | popRetired w n wake stands => exact worker w _ .exited _ stands (by simp [OfMain]) rfl rfl rfl
  | popClosed w n wake cv stands => exact worker w _ .exited _ stands (by simp [OfMain]) rfl rfl rfl
  | popWait w n wake stands => exact worker w _ (.popping n) _ stands (by simp [OfMain]) rfl rfl rfl
  | popTask w n wake cv task rest stands => exact worker w _ (.popped task) _ stands (by simp [OfMain]) rfl rfl rfl
  | start w task stands => exact worker w _ (.running task) _ stands (by simp [OfMain]) rfl rfl rfl
  | call w root task stands => exact absurd noNested (no_nested_call w root)
  | taskEnd w task stands => exact worker w _ (.executed task) _ stands (by simp [OfMain]) rfl rfl rfl
  | complete w i task content stands => exact worker w _ (.popping 0) _ stands (by simp [OfMain]) rfl rfl rfl
  | reset w inv stands => exact onward w inv _ .trace _ stands rfl rfl rfl (.inl rfl)
  | traceBatch w needed inv status tracerState stands result =>
      refine move w _ (.invoking inv (.assign s.fetchedTasks)) _ stands rfl rfl rfl fun _ => ⟨by simp, by simp, ?_⟩
      rintro other stage ⟨⟩ finished
      exact absurd result (covered_nil single w needed inv status tracerState stands (covered w needed inv rfl stands finished))
  | traceNil w needed inv tracerState stands =>
      have left := after_loop_main inv (single.solitary.alone w inv _ stands)
      exact move w _ (afterLoop inv) _ stands rfl rfl rfl fun _ => by simp [left]
  | traceError w needed inv error tracerState stands => exact onward w inv _ .raised _ stands rfl rfl rfl (.inl rfl)
  | assign w a inv stands => exact onward w inv _ (.push a) _ stands rfl rfl rfl (.inr rfl)
  | push w a inv wake cv stands => exact onward w inv _ (.collect a 0) _ stands rfl rfl rfl (.inr rfl)
  | collect w a taken inv b rest stands => exact onward w inv _ (.collect a (taken + 1)) _ stands rfl rfl rfl (.inr rfl)
  | stray w a taken inv b rest stands => exact onward w inv _ .raised _ stands rfl rfl rfl (.inl rfl)
  | again w a taken inv stands => exact onward w inv _ .reset _ stands rfl rfl rfl (.inl rfl)
  | threadEnd w thread inv task stands => exact onward w inv _ (.joining thread) _ stands rfl rfl rfl (.inl rfl)
  | join w thread own inv task stands => exact move w _ (.running task) _ stands rfl rfl rfl fun _ => by simp
  | invokeTask name rest root stands =>
      refine move mainThread _ (.invoking ⟨root, s.outputs.length, none⟩ .reset) _ stands rfl rfl rfl
        fun _ => ⟨by simp, by simp, ?_⟩
      rintro inv stage ⟨⟩ -
      rfl
  | invokeUnknown name rest stands queued unknown =>
      obtain ⟨root, found, -⟩ := listed name (single.served.todo (queued ▸ List.mem_cons_self))
      rw [unknown] at found
      cases found
  | finish wake cv stands =>
      have moved : (s.threads.set mainThread .joinWorkers)[mainThread]? = some .joinWorkers := by
        rw [Slots.lookup_set s.threads mainThread mainThread _ _ stands, if_pos rfl]
      refine ⟨manned.staff, ?_, fun _ => rfl, fun _ inv stage read => ?_⟩
      · show (s.threads.set mainThread .joinWorkers)[mainThread]? ≠ _
        simp [moved]
      · cases moved.symm.trans read
  | joinWorkers stands => exact move mainThread _ .idle _ stands rfl rfl rfl fun _ => by simp

omit [DecidableEq Task] in
theorem manned_new (n : Nat) (names : List Name) (staffed : 1 ≤ n) : Manned (new n names : Operator Task Name) :=
  ⟨staffed, by simp [new], by simp [new], fun closed => by cases closed⟩

theorem manned_progress [Fintype Task] (manned : Manned s) (single : Single app names s) (listed : Listed app names) :
    Finished s ∨ ∀ needed, Enabled app needed s := by
  obtain ⟨pc, stands, ofMain⟩ := single.crewed.roles.main
  cases pc with
  | idle =>
      cases waiting : s.todo with
      | nil => exact .inl ⟨waiting, stands⟩
      | cons name rest =>
          obtain ⟨root, found, -⟩ := listed name (single.served.todo (waiting ▸ List.mem_cons_self))
          exact .inr fun needed => ⟨.invokeTask, _, rfl, asks_nothing _ _ rfl, by simp only [step, stands, waiting, found]; rfl⟩
  | finishing => exact .inr fun needed => finish_enabled stands
  | joinWorkers => exact .inr fun needed => joining_enabled single stands (manned.closed stands)
  | exited => exact absurd stands manned.present
  | invoking inv stage =>
      refine .inr fun needed => ?_
      cases stage with
      | reset => exact ⟨.reset mainThread, _, rfl, asks_nothing _ _ rfl, by simp only [step, stands]; rfl⟩
      | trace => exact trace_enabled mainThread inv stands
      | assign a => exact ⟨.assign mainThread, _, rfl, asks_nothing _ _ rfl, by simp only [step, stands]; rfl⟩
      | push a => exact push_enabled mainThread a inv stands
      | collect a taken =>
          refine collecting_enabled single manned.staff ?_ mainThread a taken inv stands
          by_contra finished
          have none := manned.spared (by simpa using finished) inv _ stands
          cases none
      | retire => exact absurd rfl ofMain.2.1
      | joining thread => exact absurd rfl (ofMain.2.2 thread)
      | raised => exact absurd stands (single.crewed.books.routing.sound mainThread inv)
  | _ => exact ofMain.elim

-- A queued task is one the main thread still counts on, so finish has not come.
theorem manned_queued (manned : Manned s) (single : Single app names s) (queued : s.inputQueue.q ≠ []) :
    s.inputQueue.finished = false := by
  have books := single.crewed.books
  obtain ⟨task, member⟩ := List.exists_mem_of_ne_nil _ queued
  obtain ⟨pushed, uncollected⟩ := stage_pending books.ledger task (.inr (.inr (.inr member)))
  obtain ⟨w, inv, a, taken, stands, -, -, -⟩ := pending_owner books.shape books.ledger books.routing task pushed uncollected
  have main := solitary_main single.crewed.roles single.solitary w inv _ stands
  by_contra finished
  have none := manned.spared (by simpa using finished) inv _ (main ▸ stands)
  cases none

theorem manned_invoked [Fintype Task] (manned : Manned s) (single : Single app names s) (listed : Listed app names) :
    TasksInvoked app names s where
  once := started_nodup single.crewed.books.ledger
  unfailed := ⟨manned.present, single.crewed.books.routing.sound⟩
  alive := by
    refine fun queued => ⟨0, manned.staff, fun gone => ?_⟩
    have late := (single.crewed.standins.staying (manned_queued manned single queued) 0 gone).1
    have staff := manned.staff
    omega
  progress := manned_progress manned single listed
  complete := by
    rintro ⟨none, idle⟩ name member root found
    have left : ∀ inv stage, s.threads[mainThread]? ≠ some (.invoking inv stage) := by simp [idle]
    have done := single_root_done single name member root found none left
    have ledger := single.crewed.books.ledger
    exact ⟨done_invoked ledger root done, fun task below => done_exactly ledger task (done_below single root task done below)⟩

end Facts

section Runs

variable [Fintype Task] {app : Application Task Name Scope} {names : List Name}

theorem manned_run (n : Nat) (staffed : 1 ≤ n) (listed : Listed app names) (s : Operator Task Name)
    (run : Machine.Run (step app) (fun s label => NoNested label ∧ Covered app s label) (new n names) s) : Manned s := by
  have single := single_run n (listed_buildable listed) (fun s label => NoNested label ∧ Covered app s label)
    (fun _ _ allowed => allowed.1)
  exact Machine.run_invariant Manned (new n names) (manned_new n names staffed)
    (fun before after label reached manned allowed taken => manned_step after label manned (single before reached) listed
      allowed.1 allowed.2 (step_effect app before after label taken)) s run

theorem single_ends (n : Nat) (listed : BuildableNames app names) (guard : Operator Task Name → OperatorLabel Task → Prop)
    (noNested : ∀ s label, guard s label → NoNested label) : ¬ Machine.Endless (step app) guard (new n names) := by
  refine Machine.run_ends (step app) guard (new n names) work fun before after label run allowed taken => ?_
  have single := single_run n listed guard noNested
  exact work_step after label (single before run) (single after (.tail before after label run allowed taken))
    (noNested before label allowed) (step_effect app before after label taken)

end Runs

-- Runs in which no action calls Task#invoke, with one worker or more and any
-- answers of needed? that keep the condition. What remains is that no run
-- goes on for ever, so each ends with every call of invoke_task returned.
theorem invoke_tasks_in_order [Fintype Task] (app : Application Task Name Scope) (names : List Name) (listed : Listed app names)
    (n : Nat) (staffed : 1 ≤ n) :
    (∀ s : Operator Task Name, Machine.Run (step app) (fun s label => NoNested label ∧ Covered app s label) (new n names) s →
      TasksInvoked app names s) ∧
    ¬ Machine.Endless (step app) (fun (s : Operator Task Name) label => NoNested label ∧ Covered app s label) (new n names) :=
  ⟨fun s run => manned_invoked (manned_run n staffed listed s run)
      (single_run n (listed_buildable listed) _ (fun _ _ allowed => allowed.1) s run) listed,
    single_ends n (listed_buildable listed) _ fun _ _ allowed => allowed.1⟩

-- A trace after the first finish with nothing left to run anywhere.
def Spent (s : Operator Task Name) (label : OperatorLabel Task) : Prop :=
  s.inputQueue.finished = true → ∀ needed ∈ answering label, ∀ task, task ∈ s.invoked ∨ needed task = false

instance [Fintype Task] (s : Operator Task Name) (label : OperatorLabel Task) : Decidable (Spent s label) := by
  unfold Spent
  infer_instance

theorem two_leaves_listed (names : List (Fin 5)) : Listed (graph twoLeaves) names :=
  fun name _ => ⟨name, rfl, two_leaves_buildable name⟩

theorem invoke_tasks_in_order_shared :
    ∃ s : Operator (Fin 5) (Fin 5), Finished s ∧ s.ended = [1, 2, 0] ∧ TasksInvoked (graph twoLeaves) [0, 1] s := by
  obtain ⟨s, run, none, idle, ended⟩ := Machine.run_of_exec (step (graph twoLeaves))
    (fun s label => NoNested label ∧ Spent s label)
    (fun s => s.todo = [] ∧ s.threads[mainThread]? = some .idle ∧ s.ended = [1, 2, 0])
    [.invokeTask, .reset 0, .trace 0 allNeeded, .assign 0, .push 0 none, .pop 1 none, .start 1, .taskEnd 1, .complete 1,
      .pop 1 none, .start 1, .taskEnd 1, .complete 1, .pop 1 none, .collect 0, .collect 0, .again 0, .reset 0,
      .trace 0 allNeeded, .assign 0, .push 0 (some 1), .pop 1 none, .start 1, .taskEnd 1, .complete 1, .pop 1 none,
      .collect 0, .again 0, .reset 0, .trace 0 allNeeded, .finish (some 1), .pop 1 none, .joinWorkers, .invokeTask,
      .reset 0, .trace 0 (fun task => task < 3), .finish none, .joinWorkers] (new 1 [0, 1]) (by decide)
  refine ⟨s, ⟨none, idle⟩, ended, (invoke_tasks_in_order (graph twoLeaves) [0, 1] (two_leaves_listed _) 1 le_rfl).1 s ?_⟩
  refine Machine.run_mono _ _ s (fun s label => And.imp_right fun spent w needed inv same _ finished task _ => ?_) run
  subst same
  exact spent finished needed rfl task

-- Task 1 and then task 2, with one worker. The worker left at the end of the
-- first call, so task 2 stays in the queue and the second call waits for it.
theorem second_task_never_taken :
    ¬ ∀ (app : Application (Fin 5) (Fin 5) Unit) (names : List (Fin 5)) (n : Nat) (s : Operator (Fin 5) (Fin 5)),
      Listed app names → 1 ≤ n → Machine.Run (step app) (fun _ label => NoNested label) (new n names) s →
      TasksInvoked app names s := by
  intro always
  obtain ⟨s, run, queued, single, gone⟩ := Machine.run_of_exec (step (graph twoLeaves)) (fun _ label => NoNested label)
    (fun s => s.inputQueue.q = [2] ∧ s.workers = 1 ∧ s.threads[1]? = some .exited)
    [.invokeTask, .reset 0, .trace 0 allNeeded, .assign 0, .push 0 none, .pop 1 none, .start 1, .taskEnd 1, .complete 1,
      .pop 1 none, .collect 0, .again 0, .reset 0, .trace 0 allNeeded, .finish (some 1), .pop 1 none, .joinWorkers,
      .invokeTask, .reset 0, .trace 0 allNeeded, .assign 0, .push 0 none] (new 1 [1, 2]) (by decide)
  obtain ⟨i, hired, stays⟩ := (always (graph twoLeaves) [1, 2] 1 s (two_leaves_listed _) le_rfl run).alive (by simp [queued])
  have first : i = 0 := by omega
  exact stays (first ▸ gone)

end Operator

end Pwrake
