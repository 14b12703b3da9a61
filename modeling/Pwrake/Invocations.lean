import Pwrake.OperatorEffect

set_option autoImplicit false

namespace Pwrake

-- The array a thread between available_task and the end of its collecting works on.
def InvokePc.array : InvokePc → Option Nat
  | .assign a => some a
  | .push a => some a
  | .collect a _ => some a
  | _ => none

namespace Operator

open Tracer

variable {Task Name Scope : Type*} [DecidableEq Task]

def tracing : OperatorLabel Task → Option Nat
  | .trace w _ => some w
  | _ => none

def atTrace : Option (ThreadPc Task) → Bool
  | some (.invoking _ .trace) => true
  | _ => false

-- available_task as one atomic step: between its reset and its trace nothing
-- else moves.
def AtomicCalls (s : Operator Task Name) (label : OperatorLabel Task) : Prop :=
  ∀ w < s.threads.length, atTrace s.threads[w]? = true → tracing label = some w

instance (s : Operator Task Name) (label : OperatorLabel Task) : Decidable (AtomicCalls s label) := by
  unfold AtomicCalls
  infer_instance

-- A trace writes to an array that no call of available_task has returned yet.
def Fresh (s : Operator Task Name) (label : OperatorLabel Task) : Prop :=
  (tracing label).isSome → ∀ call ∈ s.calls, call.array ≠ s.fetchedTasks

instance (s : Operator Task Name) (label : OperatorLabel Task) : Decidable (Fresh s label) := by
  unfold Fresh
  infer_instance

-- The answers of needed? to a trace that finds no task up to date.
def allNeeded (_ : Task) : Bool := true

def BuildableCalls (app : Application Task Name Scope) (label : OperatorLabel Task) : Prop :=
  ∀ w root, label = .call w root → Buildable app root

def BuildableNames (app : Application Task Name Scope) (names : List Name) : Prop :=
  ∀ name ∈ names, ∀ root, app.lookup name none = some root → Buildable app root

-- How the running calls of invoke, the arrays and the output queues hang
-- together while every trace is fresh.
structure Shape (app : Application Task Name Scope) (s : Operator Task Name) : Prop where
  names : BuildableNames app s.todo
  roots : ∀ (w : Nat) inv pc, s.threads[w]? = some (.invoking inv pc) → Buildable app inv.root
  queues : ∀ (w : Nat) inv pc, s.threads[w]? = some (.invoking inv pc) → inv.outputQueue < s.outputs.length
  distinct : ∀ (w v : Nat) inv other pc stage, s.threads[w]? = some (.invoking inv pc) →
    s.threads[v]? = some (.invoking other stage) → inv.outputQueue = other.outputQueue → w = v
  valid : ∀ call ∈ s.calls, call.array < s.arrays.length ∧ call.outputQueue < s.outputs.length
  arrays : (s.calls.map BatchCall.array).Nodup
  unreturned : ∀ a, (∀ call ∈ s.calls, call.array ≠ a) → s.batch a = []
  tracing : ∀ (w : Nat) inv, s.threads[w]? = some (.invoking inv .trace) → s.fetchedTasks < s.arrays.length
  current : ∀ (w : Nat) inv pc a, s.threads[w]? = some (.invoking inv pc) → pc.array = some a →
    ⟨a, inv.outputQueue⟩ ∈ s.calls

-- A step that returns no batch: it moves one thread, may make an array or an
-- output queue, and a call of invoke is either a new one or the one before.
structure Moves (app : Application Task Name Scope) (s after : Operator Task Name) (w : Nat) (pc : ThreadPc Task) : Prop where
  threads : ∀ (j : Nat) inv stage, after.threads[j]? = some (.invoking inv stage) →
    (j = w ∧ pc = .invoking inv stage) ∨ (j ≠ w ∧ s.threads[j]? = some (.invoking inv stage))
  todo : after.todo ⊆ s.todo
  calls : after.calls = s.calls
  batch : ∀ a, after.batch a = s.batch a
  arrays : s.arrays.length ≤ after.arrays.length
  outputs : s.outputs.length ≤ after.outputs.length
  scratch : after.fetchedTasks < after.arrays.length ∨
    (after.fetchedTasks = s.fetchedTasks ∧ ∀ inv, pc ≠ .invoking inv .trace)
  buildable : ∀ inv stage, pc = .invoking inv stage → Buildable app inv.root
  entered : ∀ inv stage, pc = .invoking inv stage → (∃ earlier, s.threads[w]? = some (.invoking inv earlier)) ∨
    (s.outputs.length ≤ inv.outputQueue ∧ inv.outputQueue < after.outputs.length)
  held : ∀ inv stage a, pc = .invoking inv stage → stage.array = some a →
    ∃ earlier, s.threads[w]? = some (.invoking inv earlier) ∧ earlier.array = some a

section Steps

variable {app : Application Task Name Scope}

omit [DecidableEq Task] in
theorem shape_moves (s after : Operator Task Name) (w : Nat) (pc : ThreadPc Task) (shape : Shape app s)
    (moves : Moves app s after w pc) : Shape app after where
  names := fun name member => shape.names name (moves.todo member)
  roots := by
    intro j inv stage read
    rcases moves.threads j inv stage read with ⟨rfl, same⟩ | ⟨-, old⟩
    · exact moves.buildable inv stage same
    · exact shape.roots j inv stage old
  queues := by
    intro j inv stage read
    rcases moves.threads j inv stage read with ⟨rfl, same⟩ | ⟨-, old⟩
    · rcases moves.entered inv stage same with ⟨earlier, old⟩ | ⟨-, fresh⟩
      · exact (shape.queues j inv earlier old).trans_le moves.outputs
      · exact fresh
    · exact (shape.queues j inv stage old).trans_le moves.outputs
  distinct := by
    intro j k inv other stage next left right same
    -- the moved thread keeps its output queue or holds one that nobody had
    have moved : ∀ inv stage, pc = .invoking inv stage → ∀ k other next, s.threads[k]? = some (.invoking other next) →
        inv.outputQueue = other.outputQueue → k = w := by
      intro inv stage here k other next there same
      rcases moves.entered inv stage here with ⟨earlier, old⟩ | ⟨fresh, -⟩
      · exact (shape.distinct w k inv other earlier next old there same).symm
      · have bound := shape.queues k other next there
        omega
    rcases moves.threads j inv stage left with ⟨rfl, here⟩ | ⟨apart, old⟩
    · rcases moves.threads k other next right with ⟨rfl, -⟩ | ⟨-, there⟩
      · rfl
      · exact (moved inv stage here k other next there same).symm
    · rcases moves.threads k other next right with ⟨rfl, there⟩ | ⟨-, there⟩
      · exact absurd (moved other next there j inv stage old same.symm) apart
      · exact shape.distinct j k inv other stage next old there same
  valid := fun call member => by
    obtain ⟨array, queue⟩ := shape.valid call (moves.calls ▸ member)
    exact ⟨array.trans_le moves.arrays, queue.trans_le moves.outputs⟩
  arrays := by rw [moves.calls]; exact shape.arrays
  unreturned := fun a absent => by rw [moves.batch]; exact shape.unreturned a (moves.calls ▸ absent)
  tracing := by
    intro j inv read
    rcases moves.scratch with bound | ⟨same, elsewhere⟩
    · exact bound
    · rcases moves.threads j inv .trace read with ⟨-, here⟩ | ⟨-, old⟩
      · exact absurd here (elsewhere inv)
      · exact same ▸ (shape.tracing j inv old).trans_le moves.arrays
  current := by
    intro j inv stage a read holds
    rw [moves.calls]
    rcases moves.threads j inv stage read with ⟨rfl, here⟩ | ⟨-, old⟩
    · obtain ⟨earlier, old, held⟩ := moves.held inv stage a here holds
      exact shape.current j inv earlier a old held
    · exact shape.current j inv stage a old holds

omit [DecidableEq Task] in
theorem set_thread_moves (s after : Operator Task Name) (w : Nat) (pc : ThreadPc Task)
    (threads : after.threads = s.threads.set w pc) (j : Nat) (inv : Invocation Task) (stage : InvokePc)
    (read : after.threads[j]? = some (.invoking inv stage)) :
    (j = w ∧ pc = .invoking inv stage) ∨ (j ≠ w ∧ s.threads[j]? = some (.invoking inv stage)) := by
  rw [threads] at read
  exact (Slots.lookup_set_cases s.threads w j pc _ read).imp_left fun ⟨here, same⟩ => ⟨here, same.symm⟩

-- The steps at which a call of invoke goes from one statement to the next, or
-- no call of invoke is concerned.
omit [DecidableEq Task] in
theorem steady_moves (s after : Operator Task Name) (w : Nat) (pc : ThreadPc Task) (shape : Shape app s)
    (threads : after.threads = s.threads.set w pc) (todo : after.todo ⊆ s.todo) (calls : after.calls = s.calls)
    (arrays : after.arrays = s.arrays) (outputs : after.outputs.length = s.outputs.length)
    (scratch : after.fetchedTasks = s.fetchedTasks)
    (advances : ∀ inv stage, pc = .invoking inv stage → stage ≠ .trace ∧ ∃ earlier,
      s.threads[w]? = some (.invoking inv earlier) ∧ ∀ a, stage.array = some a → earlier.array = some a) :
    Moves app s after w pc where
  threads := set_thread_moves s after w pc threads
  todo := todo
  calls := calls
  batch := fun a => by simp only [batch, arrays]
  arrays := by rw [arrays]
  outputs := outputs.ge
  scratch := .inr ⟨scratch, fun inv same => (advances inv .trace same).1 rfl⟩
  buildable := fun inv stage same => by
    obtain ⟨-, earlier, old, -⟩ := advances inv stage same
    exact shape.roots w inv earlier old
  entered := fun inv stage same => by
    obtain ⟨-, earlier, old, -⟩ := advances inv stage same
    exact .inl ⟨earlier, old⟩
  held := fun inv stage a same holds => by
    obtain ⟨-, earlier, old, keeps⟩ := advances inv stage same
    exact ⟨earlier, old, keeps a holds⟩

-- nil: the trace appended nothing, so the array stays what it was.
theorem trace_nil (s : Operator Task Name) [Fintype Task] (needed : Task → Bool) (root : Task) (after : TraceState Task)
    (result : availableTask app needed root s.tracer = (.ok none, after)) :
    root ∈ after.invoked ∧ after.fetchedTasks = s.batch s.fetchedTasks ∧ (s.traced after).arrays = s.arrays := by
  have found := available_task_found app needed root s.tracer
  rw [result] at found
  have same : after.fetchedTasks = s.batch s.fetchedTasks := found.nothing rfl
  refine ⟨found.invoked rfl, same, ?_⟩
  simp only [traced, same, batch]
  apply List.ext_getElem?
  intro j
  by_cases here : j = s.fetchedTasks
  · subst here
    by_cases bound : s.fetchedTasks < s.arrays.length
    · simp [bound]
    · simp [bound]
  · rw [List.getElem?_set_ne (Ne.symm here)]

section Fintype

variable [Fintype Task]

-- What the only other step, a trace that returns a batch, leaves behind.
structure Returns (app : Application Task Name Scope) (s after : Operator Task Name) (w : Nat) (inv : Invocation Task)
    (added : List Task) : Prop where
  threads : after.threads = s.threads.set w (.invoking inv (.assign s.fetchedTasks))
  todo : after.todo = s.todo
  calls : after.calls = s.calls ++ [⟨s.fetchedTasks, inv.outputQueue⟩]
  outputs : after.outputs = s.outputs
  arrays : after.arrays.length = s.arrays.length
  scratch : after.fetchedTasks = s.fetchedTasks
  batch : ∀ a, after.batch a = if a = s.fetchedTasks then added else s.batch a

theorem trace_returns (s : Operator Task Name) (w : Nat) (needed : Task → Bool) (inv : Invocation Task)
    (status : Status) (tracerState : TraceState Task) (shape : Shape app s)
    (fresh : ∀ call ∈ s.calls, call.array ≠ s.fetchedTasks) (stands : s.threads[w]? = some (.invoking inv .trace))
    (result : availableTask app needed inv.root s.tracer = (.ok (some status), tracerState)) :
    ∃ added, Outcome app needed (fun task => Sees app s.tracer inv.root task ∧ task ∉ s.footprint) s.tracer tracerState added ∧
      Returns app s (((s.traced tracerState).handOut ⟨s.fetchedTasks, inv.outputQueue⟩).setThread w
        (.invoking inv (.assign s.fetchedTasks))) w inv added := by
  obtain ⟨added, outcome⟩ := trace_outcome app needed inv.root s.tracer _ tracerState result
  refine ⟨added, outcome, rfl, rfl, rfl, rfl, by simp [handOut, setThread, traced], rfl, fun a => ?_⟩
  have unused : s.batch s.fetchedTasks = [] := shape.unreturned s.fetchedTasks fresh
  have appended : tracerState.fetchedTasks = added := outcome.appended.trans (by simp [tracer, unused])
  have written : (s.traced tracerState).batch a = if a = s.fetchedTasks then tracerState.fetchedTasks else s.batch a := by
    simpa [shape.tracing w inv stands] using traced_batch s tracerState a
  exact appended ▸ written

omit [DecidableEq Task] [Fintype Task] in
theorem shape_returns (s after : Operator Task Name) (w : Nat) (inv : Invocation Task) (added : List Task)
    (shape : Shape app s) (fresh : ∀ call ∈ s.calls, call.array ≠ s.fetchedTasks)
    (stands : s.threads[w]? = some (.invoking inv .trace)) (returns : Returns app s after w inv added) :
    Shape app after := by
  have threads := set_thread_moves s after w _ returns.threads
  have bound := shape.tracing w inv stands
  refine ⟨by rw [returns.todo]; exact shape.names, ?_, ?_, ?_, ?_, ?_, ?_, ?_, ?_⟩
  · intro j other stage read
    rcases threads j other stage read with ⟨rfl, same⟩ | ⟨-, old⟩
    · cases same
      exact shape.roots j inv .trace stands
    · exact shape.roots j other stage old
  · intro j other stage read
    rw [returns.outputs]
    rcases threads j other stage read with ⟨rfl, same⟩ | ⟨-, old⟩
    · cases same
      exact shape.queues j inv .trace stands
    · exact shape.queues j other stage old
  · intro j k left right stage next readLeft readRight same
    rcases threads j left stage readLeft with ⟨rfl, here⟩ | ⟨apart, old⟩
    · rcases threads k right next readRight with ⟨rfl, -⟩ | ⟨-, there⟩
      · rfl
      · cases here
        exact shape.distinct j k inv right .trace next stands there same
    · rcases threads k right next readRight with ⟨rfl, there⟩ | ⟨-, there⟩
      · cases there
        exact shape.distinct j k left inv stage .trace old stands same
      · exact shape.distinct j k left right stage next old there same
  · intro call member
    rw [returns.arrays, returns.outputs]
    rw [returns.calls] at member
    rcases List.mem_append.mp member with earlier | latest
    · exact shape.valid call earlier
    · rw [List.mem_singleton.mp latest]
      exact ⟨bound, shape.queues w inv .trace stands⟩
  · rw [returns.calls, List.map_append]
    refine shape.arrays.append (List.nodup_singleton _) ?_
    intro a earlier latest
    obtain ⟨call, member, rfl⟩ := List.mem_map.mp earlier
    exact fresh call member (List.mem_singleton.mp latest)
  · intro a absent
    rw [returns.calls] at absent
    rw [returns.batch, if_neg (Ne.symm (absent ⟨s.fetchedTasks, inv.outputQueue⟩ (List.mem_append_right _ List.mem_cons_self)))]
    exact shape.unreturned a fun call member => absent call (List.mem_append_left _ member)
  · intro j other read
    rw [returns.scratch, returns.arrays]
    exact bound
  · intro j other stage a read holds
    rw [returns.calls]
    rcases threads j other stage read with ⟨rfl, same⟩ | ⟨-, old⟩
    · cases same
      cases holds
      exact List.mem_append_right _ List.mem_cons_self
    · exact List.mem_append_left _ (shape.current j other stage a old holds)

omit [DecidableEq Task] [Fintype Task] in
theorem call_threads (table : List (ThreadPc Task)) (w : Nat) (pc : ThreadPc Task) (j : Nat) (inv : Invocation Task)
    (stage : InvokePc) (read : (table.set w pc ++ [.popping 0])[j]? = some (.invoking inv stage)) :
    (j = w ∧ pc = .invoking inv stage) ∨ (j ≠ w ∧ table[j]? = some (.invoking inv stage)) := by
  rcases Slots.lookup_append _ j _ _ read with old | ⟨-, same⟩
  · exact (Slots.lookup_set_cases table w j _ _ old).imp_left fun ⟨here, same⟩ => ⟨here, same.symm⟩
  · cases same

omit [DecidableEq Task] [Fintype Task] in
theorem call_moves (s : Operator Task Name) (w : Nat) (root task : Task) (buildable : Buildable app root) :
    Moves app s
      { s with
        outputs := s.outputs ++ [[]]
        threads := s.threads.set w
          (.invoking ⟨root, s.outputs.length, some (task, s.threads.length)⟩ .reset) ++ [.popping 0] }
      w (.invoking ⟨root, s.outputs.length, some (task, s.threads.length)⟩ .reset) where
  threads := call_threads s.threads w _
  todo := List.Subset.refl _
  calls := rfl
  batch := fun _ => rfl
  arrays := le_rfl
  outputs := by simp
  scratch := .inr ⟨rfl, by simp⟩
  buildable := by rintro inv stage ⟨⟩; exact buildable
  entered := by rintro inv stage ⟨⟩; exact .inr ⟨le_rfl, by simp⟩
  held := by rintro inv stage a ⟨⟩ ⟨⟩

omit [DecidableEq Task] [Fintype Task] in
theorem invoke_task_moves (s : Operator Task Name) (name : Name) (rest : List Name) (root : Task) (shape : Shape app s)
    (queued : s.todo = name :: rest) (known : app.lookup name none = some root) :
    Moves app s
      ({ s with outputs := s.outputs ++ [[]], todo := rest }.setThread mainThread
        (.invoking ⟨root, s.outputs.length, none⟩ .reset))
      mainThread (.invoking ⟨root, s.outputs.length, none⟩ .reset) where
  threads := set_thread_moves s _ mainThread _ rfl
  todo := by rw [queued]; exact List.subset_cons_self name rest
  calls := rfl
  batch := fun _ => rfl
  arrays := le_rfl
  outputs := by simp [setThread]
  scratch := .inr ⟨rfl, by simp⟩
  buildable := by
    rintro inv stage ⟨⟩
    exact shape.names name (queued ▸ List.mem_cons_self) root known
  entered := by rintro inv stage ⟨⟩; exact .inr ⟨le_rfl, by simp [setThread]⟩
  held := by rintro inv stage a ⟨⟩ ⟨⟩

omit [DecidableEq Task] [Fintype Task] in
theorem reset_moves (s : Operator Task Name) (w : Nat) (inv : Invocation Task) (shape : Shape app s)
    (stands : s.threads[w]? = some (.invoking inv .reset)) :
    Moves app s
      ({ s with footprint := ∅, fetchedTasks := s.arrays.length, arrays := s.arrays ++ [[]] }.setThread w
        (.invoking inv .trace))
      w (.invoking inv .trace) where
  threads := set_thread_moves s _ w _ rfl
  todo := List.Subset.refl _
  calls := rfl
  batch := batch_append s
  arrays := by simp [setThread]
  outputs := le_rfl
  scratch := .inl (by simp [setThread])
  buildable := by rintro other stage ⟨⟩; exact shape.roots w inv .reset stands
  entered := by rintro other stage ⟨⟩; exact .inl ⟨.reset, stands⟩
  held := by rintro other stage a ⟨⟩ ⟨⟩

theorem shape_step (s after : Operator Task Name) (label : OperatorLabel Task) (shape : Shape app s)
    (fresh : Fresh s label) (buildable : BuildableCalls app label) (effect : Effect app s label after) :
    Shape app after := by
  have steady : ∀ (w : Nat) (pc : ThreadPc Task) (after : Operator Task Name), after.threads = s.threads.set w pc →
      after.todo ⊆ s.todo → after.calls = s.calls → after.arrays = s.arrays → after.outputs.length = s.outputs.length →
      after.fetchedTasks = s.fetchedTasks →
      (∀ inv stage, pc = .invoking inv stage → stage ≠ .trace ∧ ∃ earlier,
        s.threads[w]? = some (.invoking inv earlier) ∧ ∀ a, stage.array = some a → earlier.array = some a) →
      Shape app after :=
    fun w pc after threads todo calls arrays outputs scratch advances => shape_moves s after w pc shape
      (steady_moves s after w pc shape threads todo calls arrays outputs scratch advances)
  cases effect with
  | popRetired w => exact steady w .exited _ rfl (List.Subset.refl _) rfl rfl rfl rfl (by simp)
  | popClosed w => exact steady w .exited _ rfl (List.Subset.refl _) rfl rfl rfl rfl (by simp)
  | popWait w n => exact steady w (.popping n) _ rfl (List.Subset.refl _) rfl rfl rfl rfl (by simp)
  | popTask w n wake cv task => exact steady w (.popped task) _ rfl (List.Subset.refl _) rfl rfl rfl rfl (by simp)
  | start w task => exact steady w (.running task) _ rfl (List.Subset.refl _) rfl rfl rfl rfl (by simp)
  | call w root task stands => exact shape_moves s _ w _ shape (call_moves s w root task (buildable w root rfl))
  | taskEnd w task => exact steady w (.executed task) _ rfl (List.Subset.refl _) rfl rfl rfl rfl (by simp)
  | complete w i task content =>
      exact steady w (.popping 0) _ rfl (List.Subset.refl _) rfl rfl (by simp [setThread]) rfl (by simp)
  | reset w inv stands => exact shape_moves s _ w _ shape (reset_moves s w inv shape stands)
  | traceBatch w needed inv status tracerState stands result =>
      obtain ⟨added, -, returns⟩ := trace_returns s w needed inv status tracerState shape (fresh rfl) stands result
      exact shape_returns s _ w inv added shape (fresh rfl) stands returns
  | traceNil w needed inv tracerState stands result =>
      refine steady w (afterLoop inv) _ rfl (List.Subset.refl _) rfl (trace_nil s needed inv.root tracerState result).2.2
        rfl rfl fun other stage same => ?_
      obtain ⟨rfl, rfl⟩ := after_loop_invoking inv other stage same
      exact ⟨by simp, .trace, stands, by simp [InvokePc.array]⟩
  | traceError w needed inv error tracerState stands result =>
      exact absurd result (available_task_no_error app needed inv.root s.tracer _ (shape.roots w inv .trace stands) error)
  | assign w a inv stands =>
      refine steady w (.invoking inv (.push a)) _ rfl (List.Subset.refl _) rfl rfl rfl rfl ?_
      rintro other stage ⟨⟩
      exact ⟨by simp, .assign a, stands, fun _ holds => holds⟩
  | push w a inv wake cv stands =>
      refine steady w (.invoking inv (.collect a 0)) _ rfl (List.Subset.refl _) rfl rfl rfl rfl ?_
      rintro other stage ⟨⟩
      exact ⟨by simp, .push a, stands, fun _ holds => holds⟩
  | collect w a taken inv b rest stands =>
      refine steady w (.invoking inv (.collect a (taken + 1))) _ rfl (List.Subset.refl _) rfl rfl (by simp [setThread]) rfl ?_
      rintro other stage ⟨⟩
      exact ⟨by simp, .collect a taken, stands, fun _ holds => holds⟩
  | stray w a taken inv b rest stands =>
      refine steady w (.invoking inv .raised) _ rfl (List.Subset.refl _) rfl rfl (by simp [setThread]) rfl ?_
      rintro other stage ⟨⟩
      exact ⟨by simp, .collect a taken, stands, by simp [InvokePc.array]⟩
  | again w a taken inv stands =>
      refine steady w (.invoking inv .reset) _ rfl (List.Subset.refl _) rfl rfl rfl rfl ?_
      rintro other stage ⟨⟩
      exact ⟨by simp, .collect a taken, stands, by simp [InvokePc.array]⟩
  | threadEnd w thread inv task stands =>
      refine steady w (.invoking inv (.joining thread)) _ rfl (List.Subset.refl _) rfl rfl rfl rfl ?_
      rintro other stage ⟨⟩
      exact ⟨by simp, .retire, stands, by simp [InvokePc.array]⟩
  | join w thread own inv task => exact steady w (.running task) _ rfl (List.Subset.refl _) rfl rfl rfl rfl (by simp)
  | invokeTask name rest root stands queued known =>
      exact shape_moves s _ mainThread _ shape (invoke_task_moves s name rest root shape queued known)
  | invokeUnknown name rest stands queued =>
      exact steady mainThread .exited _ rfl (by rw [queued]; exact List.subset_cons_self name rest) rfl rfl rfl rfl (by simp)
  | finish => exact steady mainThread .joinWorkers _ rfl (List.Subset.refl _) rfl rfl rfl rfl (by simp)
  | joinWorkers => exact steady mainThread .idle _ rfl (List.Subset.refl _) rfl rfl rfl rfl (by simp)

omit [DecidableEq Task] [Fintype Task] in
theorem new_nobody (n : Nat) (names : List Name) (w : Nat) (inv : Invocation Task) (stage : InvokePc) :
    (new n names : Operator Task Name).threads[w]? ≠ some (.invoking inv stage) := by
  intro read
  cases w with
  | zero => cases read
  | succ w => cases Slots.lookup_replicate n w _ _ read

omit [DecidableEq Task] [Fintype Task] in
theorem shape_new (n : Nat) (names : List Name) (buildable : BuildableNames app names) :
    Shape app (new n names : Operator Task Name) where
  names := buildable
  roots := fun w inv pc read => absurd read (new_nobody n names w inv pc)
  queues := fun w inv pc read => absurd read (new_nobody n names w inv pc)
  distinct := fun w _ inv _ pc _ read _ _ => absurd read (new_nobody n names w inv pc)
  valid := by simp [new]
  arrays := by simp [new]
  unreturned := by simp [new, batch]
  tracing := fun w inv read => absurd read (new_nobody n names w inv .trace)
  current := fun w inv pc _ read _ => absurd read (new_nobody n names w inv pc)

end Fintype

end Steps

end Operator

end Pwrake
