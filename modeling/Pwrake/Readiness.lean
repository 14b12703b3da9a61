import Pwrake.Invocations

set_option autoImplicit false

namespace Pwrake

namespace Operator

open Tracer

variable {Task Name Scope : Type*} [DecidableEq Task]

def Done (s : Operator Task Name) (task : Task) : Prop := task ∈ s.ended ∨ task ∈ s.skipped

def Ready (app : Application Task Name Scope) (s : Operator Task Name) (task : Task) : Prop :=
  ∀ prereq, Needs app task prereq → Done s prereq

-- What a trace from root is going to fetch, told from the state it starts in.
structure Fetchable (app : Application Task Name Scope) (needed : Task → Bool) (s : TraceState Task) (root task : Task) :
    Prop where
  seen : Sees app s root task
  uninvoked : task ∉ s.invoked
  unmarked : task ∉ s.footprint
  unfetched : task ∉ s.fetched
  wanted : needed task = true
  resolved : ∀ prereq, Needs app task prereq → Resolved app needed s prereq

-- No trace comes to a task that it is going to fetch while a prerequisite of
-- the task has been started and has not ended.
def Calm (app : Application Task Name Scope) (s : Operator Task Name) (label : OperatorLabel Task) : Prop :=
  ∀ w needed inv, label = .trace w needed → s.threads[w]? = some (.invoking inv .trace) →
    ∀ task, Fetchable app needed s.tracer inv.root task →
      ∀ prereq, Needs app task prereq → prereq ∈ s.started → prereq ∈ s.ended

structure Readied (app : Application Task Name Scope) (s : Operator Task Name) : Prop where
  flags : ∀ task ∈ s.invoked, task ∈ s.started ∨ task ∈ s.skipped
  arrays : ∀ a, ∀ task ∈ s.batch a, Ready app s task
  queued : ∀ task ∈ s.inputQueue.q, Ready app s task
  popped : ∀ (w : Nat) (task : Task), s.threads[w]? = some (.popped task) → Ready app s task

variable [Fintype Task]

-- Every step that starts a task starts one whose prerequisites are done.
def StartsReady (app : Application Task Name Scope) (s : Operator Task Name) : Prop :=
  ∀ label next, s.step app label = some next →
    next.started = s.started ∨ ∃ task, next.started = s.started ++ [task] ∧ Ready app s task

section Steps

variable {app : Application Task Name Scope}

omit [DecidableEq Task] [Fintype Task] in
theorem ready_mono (s after : Operator Task Name) (ended : s.ended ⊆ after.ended) (skipped : s.skipped ⊆ after.skipped)
    (task : Task) (ready : Ready app s task) : Ready app after task :=
  fun prereq edge => (ready prereq edge).imp (fun member => ended member) (fun member => skipped member)

theorem effect_done (s after : Operator Task Name) (label : OperatorLabel Task) (effect : Effect app s label after) :
    s.ended ⊆ after.ended ∧ s.skipped ⊆ after.skipped := by
  cases effect with
  | taskEnd => exact ⟨List.subset_append_left _ _, subset_rfl⟩
  | traceBatch => exact ⟨List.Subset.refl _, Finset.subset_union_left⟩
  | traceNil => exact ⟨List.Subset.refl _, Finset.subset_union_left⟩
  | traceError => exact ⟨List.Subset.refl _, Finset.subset_union_left⟩
  | _ => exact ⟨List.Subset.refl _, subset_rfl⟩

theorem readied_trace (s : Operator Task Name) (needed : Task → Bool) (root : Task)
    (result : Except (TraceError Task Name) (Option Status)) (after : TraceState Task)
    (ran : availableTask app needed root s.tracer = (result, after)) (readied : Readied app s)
    (calm : ∀ task, Fetchable app needed s.tracer root task → ∀ prereq, Needs app task prereq →
      prereq ∈ s.started → prereq ∈ s.ended) :
    (∀ task ∈ after.invoked, task ∈ s.started ∨ task ∈ (s.traced after).skipped) ∧
      ∀ a, ∀ task ∈ (s.traced after).batch a, Ready app (s.traced after) task := by
  obtain ⟨added, outcome⟩ := trace_outcome app needed root s.tracer result after ran
  have flags : ∀ task ∈ after.invoked, task ∈ s.started ∨ task ∈ (s.traced after).skipped := by
    intro task member
    by_cases before : task ∈ s.invoked
    · exact (readied.flags task before).imp_right fun skipped => Finset.mem_union_left _ skipped
    · exact .inr (Finset.mem_union_right _ (Finset.mem_sdiff.mpr ⟨member, before⟩))
  refine ⟨flags, fun a task member => ?_⟩
  have kept : ∀ other ∈ s.batch a, Ready app (s.traced after) other := fun other member =>
    ready_mono s (s.traced after) (List.Subset.refl _) Finset.subset_union_left other (readied.arrays a other member)
  rw [traced_batch] at member
  split at member
  · rename_i current
    rw [outcome.appended] at member
    rcases List.mem_append.mp member with earlier | fetched
    · exact kept task (current.1 ▸ earlier)
    · obtain ⟨⟨seen, unmarked⟩, unfetched, uninvoked, wanted, ready⟩ := outcome.chosen task fetched
      intro prereq edge
      have settled := calm task ⟨seen, fun before => uninvoked (outcome.invoked before), unmarked, unfetched, wanted,
        fun prereq edge => outcome.resolved prereq (ready prereq edge)⟩ prereq edge
      exact (flags prereq (ready prereq edge)).imp_left settled
  · exact kept task member

theorem readied_step (s after : Operator Task Name) (label : OperatorLabel Task) (readied : Readied app s)
    (calm : Calm app s label) (effect : Effect app s label after) : Readied app after := by
  have kept : ∀ task, Ready app s task → Ready app after task := fun task =>
    ready_mono s after (effect_done s after label effect).1 (effect_done s after label effect).2 task
  have elsewhere : ∀ (w : Nat) (pc : ThreadPc Task), (∀ task, pc ≠ .popped task) → ∀ (i : Nat) (task : Task),
      (s.threads.set w pc)[i]? = some (.popped task) → Ready app after task := by
    intro w pc other i task read
    rcases Slots.lookup_set_cases s.threads w i pc _ read with ⟨-, same⟩ | ⟨-, old⟩
    · exact absurd same.symm (other task)
    · exact kept task (readied.popped i task old)
  cases effect with
  | popTask w n wake cv task rest stands awake notHead unfinished content signalled =>
      have queued : ∀ other ∈ task :: rest, Ready app s other := fun other member =>
        readied.queued other (content ▸ member)
      refine ⟨readied.flags, readied.arrays, fun other member => queued other (List.mem_cons_of_mem task member), ?_⟩
      intro i other read
      rcases Slots.lookup_set_cases s.threads w i _ _ read with ⟨-, same⟩ | ⟨-, old⟩
      · cases same
        exact queued task List.mem_cons_self
      · exact readied.popped i other old
  | start w task stands =>
      refine ⟨fun other member => ?_, readied.arrays, readied.queued, elsewhere w _ (by simp)⟩
      rcases Finset.mem_insert.mp member with rfl | earlier
      · exact .inl (List.mem_append_right _ List.mem_cons_self)
      · exact (readied.flags other earlier).imp_left (List.mem_append_left _)
  | call w root task stands =>
      refine ⟨readied.flags, readied.arrays, readied.queued, fun i other read => ?_⟩
      rcases Slots.lookup_append _ i _ _ read with old | ⟨-, same⟩
      · exact elsewhere w _ (by simp) i other old
      · cases same
  | taskEnd w task stands =>
      exact ⟨readied.flags, fun a task member => kept task (readied.arrays a task member),
        fun task member => kept task (readied.queued task member), elsewhere w _ (by simp)⟩
  | reset w inv stands =>
      refine ⟨readied.flags, fun a task member => ?_, readied.queued, elsewhere w _ (by simp)⟩
      exact readied.arrays a task (batch_append s a ▸ member)
  | traceBatch w needed inv status tracedState stands result =>
      obtain ⟨flags, arrays⟩ := readied_trace s needed inv.root _ tracedState result readied
        (calm w needed inv rfl stands)
      exact ⟨flags, arrays, fun task member => kept task (readied.queued task member), elsewhere w _ (by simp)⟩
  | traceNil w needed inv tracedState stands result =>
      obtain ⟨flags, arrays⟩ := readied_trace s needed inv.root _ tracedState result readied
        (calm w needed inv rfl stands)
      refine ⟨flags, arrays, fun task member => kept task (readied.queued task member), elsewhere w _ ?_⟩
      unfold afterLoop
      split <;> simp
  | traceError w needed inv error tracedState stands result =>
      obtain ⟨flags, arrays⟩ := readied_trace s needed inv.root _ tracedState result readied
        (calm w needed inv rfl stands)
      exact ⟨flags, arrays, fun task member => kept task (readied.queued task member), elsewhere w _ (by simp)⟩
  | push w a inv wake cv stands signalled =>
      refine ⟨readied.flags, readied.arrays, fun task member => ?_, elsewhere w _ (by simp)⟩
      rcases List.mem_append.mp member with earlier | pushed
      · exact readied.queued task earlier
      · exact readied.arrays a task pushed
  | popRetired w => exact ⟨readied.flags, readied.arrays, readied.queued, elsewhere w _ (by simp)⟩
  | popClosed w => exact ⟨readied.flags, readied.arrays, readied.queued, elsewhere w _ (by simp)⟩
  | popWait w => exact ⟨readied.flags, readied.arrays, readied.queued, elsewhere w _ (by simp)⟩
  | complete w => exact ⟨readied.flags, readied.arrays, readied.queued, elsewhere w _ (by simp)⟩
  | assign w => exact ⟨readied.flags, readied.arrays, readied.queued, elsewhere w _ (by simp)⟩
  | collect w => exact ⟨readied.flags, readied.arrays, readied.queued, elsewhere w _ (by simp)⟩
  | stray w => exact ⟨readied.flags, readied.arrays, readied.queued, elsewhere w _ (by simp)⟩
  | again w => exact ⟨readied.flags, readied.arrays, readied.queued, elsewhere w _ (by simp)⟩
  | threadEnd w => exact ⟨readied.flags, readied.arrays, readied.queued, elsewhere w _ (by simp)⟩
  | join w => exact ⟨readied.flags, readied.arrays, readied.queued, elsewhere w _ (by simp)⟩
  | invokeTask => exact ⟨readied.flags, readied.arrays, readied.queued, elsewhere mainThread _ (by simp)⟩
  | invokeUnknown => exact ⟨readied.flags, readied.arrays, readied.queued, elsewhere mainThread _ (by simp)⟩
  | finish => exact ⟨readied.flags, readied.arrays, readied.queued, elsewhere mainThread _ (by simp)⟩
  | joinWorkers => exact ⟨readied.flags, readied.arrays, readied.queued, elsewhere mainThread _ (by simp)⟩

omit [DecidableEq Task] [Fintype Task] in
theorem readied_new (n : Nat) (names : List Name) : Readied app (new n names : Operator Task Name) := by
  refine ⟨by simp [new], by simp [new, batch], by simp [new, TaskQueue.new], fun w task read => ?_⟩
  cases w with
  | zero => cases read
  | succ w => cases Slots.lookup_replicate n w _ _ read

theorem readied_run (n : Nat) (names : List Name) (guard : Operator Task Name → OperatorLabel Task → Prop)
    (calm : ∀ s label, guard s label → Calm app s label) (s : Operator Task Name)
    (run : Machine.Run (step app) guard (new n names) s) : Readied app s :=
  Machine.run_invariant (Readied app) (new n names) (readied_new n names)
    (fun before after label _ readied allowed taken =>
      readied_step before after label readied (calm before label allowed) (step_effect app before after label taken))
    s run

theorem readied_starts (s : Operator Task Name) (readied : Readied app s) : StartsReady app s := by
  intro label next taken
  cases step_effect app s next label taken with
  | start w task stands => exact .inr ⟨task, rfl, readied.popped w task stands⟩
  | _ => exact .inl rfl

-- Whatever else the actions invoke, tasks start in order as long as every
-- trace is calm.
theorem prerequisites_finish_first (n : Nat) (names : List Name) (s : Operator Task Name)
    (run : Machine.Run (step app) (Calm app) (new n names) s) : StartsReady app s :=
  readied_starts s (readied_run n names (Calm app) (fun _ _ calm => calm) s run)

end Steps

-- Task 0 needs 1 and 2, task 3 needs 2.
def sharedGraph (task : Fin 4) : List (Fin 4) := ([[1, 2], [], [], [2]] : List (List (Fin 4))).getD task []

def rootAt : Option (ThreadPc (Fin 4)) → Option (Fin 4)
  | some (.invoking inv .trace) => some inv.root
  | _ => none

-- A guard that can be computed: a trace comes before anything is started, or
-- from 3 when 2 has ended.
def EndedFirst (s : Operator (Fin 4) (Fin 4)) : OperatorLabel (Fin 4) → Prop
  | .trace w _ => s.started = [] ∨ (2 ∈ s.ended ∧ rootAt s.threads[w]? = some 3)
  | _ => True

instance (s : Operator (Fin 4) (Fin 4)) (label : OperatorLabel (Fin 4)) : Decidable (EndedFirst s label) := by
  cases label <;> unfold EndedFirst <;> infer_instance

theorem shared_below (task : Fin 4) (reached : Reach (graph sharedGraph) 3 task) : task = 3 ∨ task = 2 := by
  induction reached with
  | refl => exact .inl rfl
  | tail _ edge earlier =>
      have closed : ∀ upper lower : Fin 4, upper = 3 ∨ upper = 2 → lower ∈ sharedGraph upper → lower = 3 ∨ lower = 2 := by decide
      exact closed _ _ earlier ((graph_needs sharedGraph _ _).mp edge)

theorem ended_first_calm (s : Operator (Fin 4) (Fin 4)) (label : OperatorLabel (Fin 4)) (allowed : EndedFirst s label) :
    Calm (graph sharedGraph) s label := by
  rintro w needed inv rfl stands task fetchable prereq edge started
  rcases allowed with nothing | ⟨ended, root⟩
  · rw [nothing] at started
    cases started
  · rw [stands] at root
    have below : Reach (graph sharedGraph) 3 task := Option.some.inj root ▸ sees_reach _ _ _ _ fetchable.seen
    have listed := (graph_needs sharedGraph task prereq).mp edge
    rcases shared_below task below with rfl | rfl
    · have only : ∀ lower : Fin 4, lower ∈ sharedGraph 3 → lower = 2 := by decide
      exact only prereq listed ▸ ended
    · cases listed

-- Task 1 invokes 3 when 2 has ended and 1 itself runs on. The stand-in starts 3.
theorem prerequisites_finish_first_shared :
    ∃ s after, s.started = [2, 1] ∧ s.ended = [2] ∧ step (graph sharedGraph) s (.start 3) = some after ∧
      after.started = [2, 1, 3] ∧ StartsReady (graph sharedGraph) s ∧ StartsReady (graph sharedGraph) after := by
  obtain ⟨s, run, started, ended, onward⟩ := Machine.run_of_exec (step (graph sharedGraph)) EndedFirst
    (fun s => s.started = [2, 1] ∧ s.ended = [2] ∧
      (step (graph sharedGraph) s (.start 3)).any (fun after => decide (after.started = [2, 1, 3])) = true)
    [.invokeTask, .reset 0, .trace 0 allNeeded, .assign 0, .push 0 none, .pop 1 none, .pop 2 none, .start 2, .taskEnd 2,
      .complete 2, .start 1, .call 1 3, .reset 1, .trace 1 allNeeded, .assign 1, .push 1 none, .pop 3 none]
    (new 2 [0]) (by decide)
  have calm : Machine.Run (step (graph sharedGraph)) (Calm (graph sharedGraph)) (new 2 [0]) s :=
    Machine.run_mono _ _ s (fun state label allowed => ended_first_calm state label allowed) run
  cases taken : step (graph sharedGraph) s (.start 3) with
  | none => simp [taken] at onward
  | some after =>
      rw [taken] at onward
      have later := Machine.Run.tail s after (.start 3) calm (ended_first_calm s (.start 3) trivial) taken
      exact ⟨s, after, started, ended, taken, by simpa using onward, prerequisites_finish_first 2 [0] s calm,
        prerequisites_finish_first 2 [0] after later⟩

-- Task 1 invokes 3 while 2 is running: the trace takes 2's flag for a sign that
-- it is done, and 3 is started beside it.
theorem nested_trace_starts_early :
    ¬ ∀ (app : Application (Fin 4) (Fin 4) Unit) (n : Nat) (names : List (Fin 4)) (s : Operator (Fin 4) (Fin 4)),
      (∀ root, Buildable app root) → Machine.Run (step app) AtomicCalls (new n names) s → StartsReady app s := by
  intro always
  obtain ⟨s, run, stands, unfinished⟩ := Machine.run_of_exec (step (graph sharedGraph)) AtomicCalls
    (fun s => s.threads[3]? = some (.popped (3 : Fin 4)) ∧ 2 ∉ s.ended ∧ 2 ∉ s.skipped)
    [.invokeTask, .reset 0, .trace 0 allNeeded, .assign 0, .push 0 none, .pop 1 none, .pop 2 none, .start 1, .start 2,
      .call 1 3, .reset 1, .trace 1 allNeeded, .assign 1, .push 1 none, .pop 3 none] (new 2 [0]) (by decide)
  have buildable := graph_buildable sharedGraph (fun task => ([2, 0, 0, 1] : List Nat).getD task 0) (by decide)
  have taken : step (graph sharedGraph) s (.start 3) =
      some ({ s with invoked := insert 3 s.invoked, started := s.started ++ [3] }.setThread 3 (.running 3)) := by
    simp only [step, stands]
  rcases always (graph sharedGraph) 2 [0] s buildable run (.start 3) _ taken with nothing | ⟨task, started, ready⟩
  · simp [setThread] at nothing
  · have same : 3 = task := by simpa [setThread] using started
    subst same
    exact not_or.mpr unfinished (ready 2 ((graph_needs sharedGraph 3 2).mpr (by decide)))

end Operator

end Pwrake
