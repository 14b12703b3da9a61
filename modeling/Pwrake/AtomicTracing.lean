import Pwrake.Ownership
import Pwrake.Tracing

set_option autoImplicit false

namespace Pwrake

namespace Operator

open Tracer

variable {Task Name Scope : Type*} [DecidableEq Task]

def AtomicBuildable (app : Application Task Name Scope) (s : Operator Task Name) (label : OperatorLabel Task) : Prop :=
  AtomicCalls s label ∧ BuildableCalls app label

-- A trace about to run finds the Tracer as its own reset left it.
def Primed (s : Operator Task Name) : Prop :=
  ∀ (w : Nat) inv, s.threads[w]? = some (.invoking inv .trace) →
    s.footprint = ∅ ∧ s.batch s.fetchedTasks = [] ∧ ∀ call ∈ s.calls, call.array ≠ s.fetchedTasks

-- The Operator seen as its Tracer, the batches it returned and the tasks that
-- workers started.
structure Mirrors (s : Operator Task Name) (t : Tracing Task) : Prop where
  invoked : t.trace.invoked = s.invoked
  fetched : t.trace.fetched = s.fetched
  batches : t.batches = s.calls.map fun call => s.batch call.array
  executed : t.executed = s.started

section Steps

variable [Fintype Task] {app : Application Task Name Scope} {s after : Operator Task Name} {label : OperatorLabel Task}

theorem trace_entered (effect : Effect app s label after) (v : Nat) (inv : Invocation Task)
    (read : after.threads[v]? = some (.invoking inv .trace)) :
    label = .reset v ∨ (s.threads[v]? = some (.invoking inv .trace) ∧ tracing label ≠ some v) := by
  have old : ∀ (w : Nat) (pc : ThreadPc Task), after.threads = s.threads.set w pc → (∀ other, pc ≠ .invoking other .trace) →
      v ≠ w ∧ s.threads[v]? = some (.invoking inv .trace) := by
    intro w pc threads outside
    rw [threads] at read
    rcases Slots.lookup_set_cases s.threads w v pc _ read with ⟨-, same⟩ | earlier
    · exact absurd same.symm (outside inv)
    · exact earlier
  have other : ∀ (w : Nat) (pc : ThreadPc Task), after.threads = s.threads.set w pc → (∀ other, pc ≠ .invoking other .trace) →
      tracing label = none → label = .reset v ∨ (s.threads[v]? = some (.invoking inv .trace) ∧ tracing label ≠ some v) :=
    fun w pc threads outside silent => .inr ⟨(old w pc threads outside).2, by simp [silent]⟩
  have own : ∀ (w : Nat) (pc : ThreadPc Task), after.threads = s.threads.set w pc → (∀ other, pc ≠ .invoking other .trace) →
      tracing label = some w → label = .reset v ∨ (s.threads[v]? = some (.invoking inv .trace) ∧ tracing label ≠ some v) := by
    intro w pc threads outside traces
    obtain ⟨apart, earlier⟩ := old w pc threads outside
    refine .inr ⟨earlier, fun same => apart ?_⟩
    rw [traces] at same
    exact (Option.some.inj same).symm
  cases effect with
  | popRetired w => exact other w .exited rfl (by simp) rfl
  | popClosed w => exact other w .exited rfl (by simp) rfl
  | popWait w n => exact other w (.popping n) rfl (by simp) rfl
  | popTask w n wake cv task => exact other w (.popped task) rfl (by simp) rfl
  | start w task => exact other w (.running task) rfl (by simp) rfl
  | call w root task stands =>
      rcases call_threads s.threads w _ v inv .trace read with ⟨-, same⟩ | ⟨-, earlier⟩
      · cases same
      · exact .inr ⟨earlier, by simp [tracing]⟩
  | taskEnd w task => exact other w (.executed task) rfl (by simp) rfl
  | complete w => exact other w (.popping 0) rfl (by simp) rfl
  | reset w inner stands =>
      rcases Slots.lookup_set_cases s.threads w v _ _ read with ⟨same, -⟩ | ⟨-, earlier⟩
      · exact .inl (congrArg OperatorLabel.reset same.symm)
      · exact .inr ⟨earlier, by simp [tracing]⟩
  | traceBatch w needed inner => exact own w (.invoking inner (.assign s.fetchedTasks)) rfl (by simp) rfl
  | traceNil w needed inner =>
      refine own w (afterLoop inner) rfl (fun outer => ?_) rfl
      unfold afterLoop
      split <;> simp
  | traceError w needed inner => exact own w (.invoking inner .raised) rfl (by simp) rfl
  | assign w a inner => exact other w (.invoking inner (.push a)) rfl (by simp) rfl
  | push w a inner => exact other w (.invoking inner (.collect a 0)) rfl (by simp) rfl
  | collect w a taken inner => exact other w (.invoking inner (.collect a (taken + 1))) rfl (by simp) rfl
  | stray w a taken inner => exact other w (.invoking inner .raised) rfl (by simp) rfl
  | again w a taken inner => exact other w (.invoking inner .reset) rfl (by simp) rfl
  | threadEnd w thread inner => exact other w (.invoking inner (.joining thread)) rfl (by simp) rfl
  | join w thread own inner task => exact other w (.running task) rfl (by simp) rfl
  | invokeTask name rest root => exact other mainThread _ rfl (by simp) rfl
  | invokeUnknown => exact other mainThread .exited rfl (by simp) rfl
  | finish => exact other mainThread .joinWorkers rfl (by simp) rfl
  | joinWorkers => exact other mainThread .idle rfl (by simp) rfl

theorem primed_fresh (primed : Primed s) (effect : Effect app s label after) : Fresh s label := by
  intro traces
  cases effect with
  | traceBatch w needed inv status tracerState stands => exact (primed w inv stands).2.2
  | traceNil w needed inv tracerState stands => exact (primed w inv stands).2.2
  | traceError w needed inv error tracerState stands => exact (primed w inv stands).2.2
  | _ => cases traces

theorem primed_step (shape : Shape app s) (atomic : AtomicCalls s label)
    (effect : Effect app s label after) : Primed after := by
  intro v inv read
  rcases trace_entered effect v inv read with rfl | ⟨earlier, elsewhere⟩
  · cases effect with
    | reset _ inner stands =>
        refine ⟨rfl, ?_, fun call member same => ?_⟩
        · show (s.arrays ++ [[]]).getD s.arrays.length [] = []
          simp
        · exact absurd (shape.valid call member).1 (by rw [same]; exact Nat.lt_irrefl _)
  · have here : v < s.threads.length := (List.getElem?_eq_some_iff.mp earlier).1
    exact absurd (atomic v here (by rw [earlier]; rfl)) elsewhere

theorem atomic_run (n : Nat) (names : List Name) (buildable : BuildableNames app names)
    (run : Machine.Run (step app) (AtomicBuildable app) (new n names) s) : Books app s ∧ Primed s := by
  refine Machine.run_invariant (fun s => Books app s ∧ Primed s) (new n names) ⟨books_new n names buildable, ?_⟩ ?_ s run
  · intro w inv stands
    exact absurd stands (new_nobody n names w inv .trace)
  · rintro before after label - ⟨books, primed⟩ ⟨atomic, known⟩ taken
    have effect := step_effect app before after label taken
    exact ⟨books_step before after label books ⟨primed_fresh primed effect, known⟩ effect,
      primed_step books.shape atomic effect⟩

omit [DecidableEq Task] [Fintype Task] in
theorem mirrors_returned (t : Tracing Task) (mirrors : Mirrors s t) : t.returned = s.returned := by
  rw [Tracing.returned, mirrors.batches, Operator.returned, List.flatMap_def]

-- A task in a worker's hands was returned once more than it was started.
omit [Fintype Task] in
theorem popped_startable (ledger : Ledger s) (t : Tracing Task) (mirrors : Mirrors s t) (w : Nat) (task : Task)
    (stands : s.threads[w]? = some (.popped task)) : t.executed.count task < t.returned.count task := by
  have held : task ∈ s.total popped := total_member s w _ stands popped task (by simp [popped])
  have inHand : 0 < (s.total popped).count task := Multiset.count_pos.mpr held
  have pushed := congrArg (Multiset.count task) ledger.pushed
  have started := congrArg (Multiset.count task) ledger.started
  simp only [Multiset.count_add, Multiset.coe_count] at pushed started
  rw [mirrors_returned t mirrors, mirrors.executed]
  omega

omit [DecidableEq Task] [Fintype Task] in
theorem primed_cleared (primed : Primed s) (t : Tracing Task) (mirrors : Mirrors s t) (w : Nat) (inv : Invocation Task)
    (stands : s.threads[w]? = some (.invoking inv .trace)) : Tracing.cleared t.trace = s.tracer := by
  obtain ⟨footprint, batch, -⟩ := primed w inv stands
  simp [Tracing.cleared, tracer, mirrors.invoked, mirrors.fetched, footprint, batch]

omit [Fintype Task] in
theorem traced_batches (primed : Primed s) (w : Nat) (inv : Invocation Task)
    (stands : s.threads[w]? = some (.invoking inv .trace)) (tracerState : TraceState Task) :
    (s.calls.map fun call => (s.traced tracerState).batch call.array) = s.calls.map fun call => s.batch call.array := by
  obtain ⟨-, -, unreturned⟩ := primed w inv stands
  apply List.map_congr_left
  intro call member
  rw [traced_batch, if_neg fun same => unreturned call member same.1]

theorem mirrors_step (books : Books app s) (primed : Primed s) (t : Tracing Task) (mirrors : Mirrors s t)
    (effect : Effect app s label after) :
    ∃ next, Machine.Run (Tracing.step app) (fun _ _ => True) t next ∧ Mirrors after next := by
  have still : (∀ a, after.batch a = s.batch a) → after.invoked = s.invoked → after.fetched = s.fetched →
      after.calls = s.calls → after.started = s.started →
      ∃ next, Machine.Run (Tracing.step app) (fun _ _ => True) t next ∧ Mirrors after next := by
    intro batch invoked fetched calls started
    refine ⟨t, .refl, mirrors.invoked.trans invoked.symm, mirrors.fetched.trans fetched.symm, ?_,
      mirrors.executed.trans started.symm⟩
    simp only [mirrors.batches, calls, batch]
  cases effect with
  | start w task stands =>
      have queued := popped_startable books.ledger t mirrors w task stands
      have moved : t.step app (.execute task) = some
          { t with trace := { t.trace with invoked := insert task t.trace.invoked }, executed := t.executed ++ [task] } := by
        rw [Tracing.step, if_pos queued]
      refine ⟨_, Machine.run_single t _ _ trivial moved, ?_, mirrors.fetched, mirrors.batches, ?_⟩
      · exact congrArg (insert task) mirrors.invoked
      · exact congrArg (· ++ [task]) mirrors.executed
  | reset w inv stands => exact still (batch_append s) rfl rfl rfl rfl
  | traceBatch w needed inv status tracerState stands result =>
      rw [← primed_cleared primed t mirrors w inv stands] at result
      have moved : t.step app (.call inv.root needed) = some
          { t with trace := tracerState, batches := t.batches ++ [tracerState.fetchedTasks] } := by
        rw [Tracing.step, result]
      refine ⟨_, Machine.run_single t _ _ trivial moved, rfl, rfl, ?_, mirrors.executed⟩
      have own : (s.traced tracerState).batch s.fetchedTasks = tracerState.fetchedTasks := by
        rw [traced_batch, if_pos ⟨rfl, books.shape.tracing w inv stands⟩]
      show t.batches ++ [tracerState.fetchedTasks] =
        (s.calls ++ [BatchCall.mk s.fetchedTasks inv.outputQueue]).map fun call => (s.traced tracerState).batch call.array
      rw [List.map_append, traced_batches primed w inv stands, mirrors.batches, List.map_singleton, own]
  | traceNil w needed inv tracerState stands result =>
      rw [← primed_cleared primed t mirrors w inv stands] at result
      have moved : t.step app (.call inv.root needed) = some { t with trace := tracerState } := by
        rw [Tracing.step, result]
      exact ⟨_, Machine.run_single t _ _ trivial moved, rfl, rfl,
        mirrors.batches.trans (traced_batches primed w inv stands tracerState).symm, mirrors.executed⟩
  | traceError w needed inv error tracerState stands result =>
      rw [← primed_cleared primed t mirrors w inv stands] at result
      have moved : t.step app (.call inv.root needed) = some { t with trace := tracerState } := by
        rw [Tracing.step, result]
      exact ⟨_, Machine.run_single t _ _ trivial moved, rfl, rfl,
        mirrors.batches.trans (traced_batches primed w inv stands tracerState).symm, mirrors.executed⟩
  | _ => exact still (fun _ => rfl) rfl rfl rfl rfl

end Steps

section Runs

variable [Fintype Task] (app : Application Task Name Scope)

theorem atomic_run_mirrored (n : Nat) (names : List Name) (buildable : BuildableNames app names) (s : Operator Task Name)
    (run : Machine.Run (step app) (AtomicBuildable app) (new n names) s) :
    ∃ t, Machine.Run (Tracing.step app) (fun _ _ => True) .new t ∧ Mirrors s t := by
  refine Machine.run_simulates Mirrors (new n names) .new ⟨rfl, rfl, rfl, rfl⟩ ?_ s run
  intro before after label t earlier mirrors _ taken
  obtain ⟨books, primed⟩ := atomic_run n names buildable earlier
  exact mirrors_step books primed t mirrors (step_effect app before after label taken)

end Runs

end Operator

end Pwrake
