import Pwrake.Crew

set_option autoImplicit false

namespace Pwrake

namespace Operator

open Tracer

variable {Task Name Scope : Type*} [DecidableEq Task]

-- Output queues are numbered in the order they are made, so their numbers tell
-- which call of invoke began inside which.
structure Timed (s : Operator Task Name) : Prop where
  issued : ∀ task i, s.outputQueue task = some i → i < s.outputs.length
  caller : ∀ (w : Nat) inv stage task thread i, s.threads[w]? = some (.invoking inv stage) →
    inv.nested = some (task, thread) → s.outputQueue task = some i → i < inv.outputQueue
  standin : ∀ (w : Nat) inv stage task thread other next, s.threads[w]? = some (.invoking inv stage) →
    inv.nested = some (task, thread) → s.threads[thread]? = some (.invoking other next) → inv.outputQueue < other.outputQueue

def Holds (pc : ThreadPc Task) (task : Task) : Prop := task ∈ popped pc ∨ task ∈ running pc ∨ task ∈ executed pc

section Facts

variable {app : Application Task Name Scope} {s : Operator Task Name}

omit [DecidableEq Task] in
theorem holds_pending (ledger : Ledger s) (w : Nat) (pc : ThreadPc Task) (task : Task) (stands : s.threads[w]? = some pc)
    (holds : Holds pc task) : task ∈ s.pushed ∧ task ∉ s.collected := by
  refine stage_pending ledger task ?_
  rcases holds with inside | inside | inside
  · exact .inl (total_member s w pc stands popped task inside)
  · exact .inr (.inl (total_member s w pc stands running task inside))
  · exact .inr (.inr (.inl (total_member s w pc stands executed task inside)))

omit [DecidableEq Task] in
theorem nested_holds (inv : Invocation Task) (stage : InvokePc) (task : Task) (thread : Nat)
    (nested : inv.nested = some (task, thread)) : Holds (.invoking inv stage) task :=
  .inr (.inl (by simp [running, nested]))

omit [DecidableEq Task] in
theorem pushed_place (ledger : Ledger s) (task : Task) (pushed : task ∈ s.pushed) (uncollected : task ∉ s.collected) :
    task ∈ s.inputQueue.q ∨ (∃ (w : Nat) (pc : ThreadPc Task), s.threads[w]? = some pc ∧ Holds pc task) ∨
      ∃ (i : Nat) (content : List Task), s.outputs[i]? = some content ∧ task ∈ content := by
  have held : ∀ weight, task ∈ s.total weight → (∀ pc, task ∈ weight pc → Holds pc task) →
      ∃ (w : Nat) (pc : ThreadPc Task), s.threads[w]? = some pc ∧ Holds pc task := by
    intro weight inside holds
    obtain ⟨w, pc, stands, weighs⟩ := total_holder s weight task inside
    exact ⟨w, pc, stands, holds pc weighs⟩
  have place : task ∈ (s.pushed : Multiset Task) := Multiset.mem_coe.mpr pushed
  rw [ledger.started, ledger.ended, ledger.collected] at place
  simp only [Multiset.mem_add, Multiset.mem_coe] at place
  rcases place with (queued | popping) | runs | (executes | output) | collected
  · exact .inl queued
  · exact .inr (.inl (held popped popping fun _ => .inl))
  · exact .inr (.inl (held running runs fun _ inside => .inr (.inl inside)))
  · exact .inr (.inl (held executed executes fun _ inside => .inr (.inr inside)))
  · exact .inr (.inr (outputted_member s task output))
  · exact absurd collected uncollected

-- What a thread at an empty output queue is waiting for: a task of its batch
-- that is still queued or in some thread's hands.
theorem collecting_waits_for (books : Books app s) (w a taken : Nat) (inv : Invocation Task)
    (stands : s.threads[w]? = some (.invoking inv (.collect a taken))) (short : taken < (s.batch a).length)
    (output : s.outputs[inv.outputQueue]? = some []) :
    ∃ task, s.outputQueue task = some inv.outputQueue ∧
      (task ∈ s.inputQueue.q ∨ ∃ (v : Nat) (pc : ThreadPc Task), s.threads[v]? = some pc ∧ Holds pc task) := by
  have own := books.shape.current w inv _ a stands rfl
  obtain ⟨task, member, uncollected⟩ : ∃ task ∈ s.batch a, task ∉ s.collected := by
    by_contra all
    have inside : s.batch a ⊆ s.collected.filter (· ∈ s.batch a) := by
      intro task member
      by_contra missing
      exact all ⟨task, member, fun collected => missing (List.mem_filter.mpr ⟨collected, by simpa using member⟩)⟩
    have distinct : (s.batch a).Nodup := batch_nodup books.ledger _ own
    have long := (List.subperm_of_subset distinct inside).length_le
    rw [books.routing.counted w inv a taken stands] at long
    omega
  refine ⟨task, collecting_owns books.shape books.routing w a taken inv stands task member, ?_⟩
  rcases pushed_place books.ledger task (collecting_pushed books.shape books.ledger w a taken inv stands task member)
      uncollected with queued | held | ⟨i, content, read, inside⟩
  · exact .inl queued
  · exact .inr held
  · obtain ⟨call, listed, queue, owned⟩ := books.routing.routed i content read task inside
    have same := batch_owner books.ledger call _ listed own task owned member
    rw [same] at queue
    rw [show i = inv.outputQueue from queue.symm, output] at read
    cases read
    cases inside

-- A worker with a task in hand is working for the main thread: the call that
-- waits for the task is the main thread's, or was made inside a task that an
-- earlier call waits for.
theorem worker_serves_main (books : Books app s) (roles : Roles s) (timed : Timed s) (i w : Nat) (pc : ThreadPc Task)
    (task : Task) (stands : s.threads[w]? = some pc) (holds : Holds pc task) (queue : s.outputQueue task = some i) :
    ∃ (inv : Invocation Task) (a taken : Nat), s.threads[mainThread]? = some (.invoking inv (.collect a taken)) := by
  induction i using Nat.strong_induction_on generalizing w pc task with
  | _ i ih =>
      obtain ⟨pushed, uncollected⟩ := holds_pending books.ledger w pc task stands holds
      obtain ⟨v, inv, a, taken, waits, -, -, owner⟩ :=
        pending_owner books.shape books.ledger books.routing task pushed uncollected
      rw [queue, Option.some.injEq] at owner
      cases v with
      | zero => exact ⟨inv, a, taken, waits⟩
      | succ v =>
          obtain ⟨⟨outer, thread⟩, nested⟩ := Option.ne_none_iff_exists'.mp (roles.crew v _ waits)
          have outerHeld := nested_holds inv (.collect a taken) outer thread nested
          obtain ⟨outerPushed, outerUncollected⟩ := holds_pending books.ledger (v + 1) _ outer waits outerHeld
          obtain ⟨-, earlier, -, -, -, -, -, outerQueue⟩ :=
            pending_owner books.shape books.ledger books.routing outer outerPushed outerUncollected
          have sooner := timed.caller (v + 1) inv _ outer thread _ waits nested outerQueue
          exact ih earlier.outputQueue (owner ▸ sooner) (v + 1) _ outer waits outerHeld outerQueue

end Facts

section Steps

variable {app : Application Task Name Scope} {s : Operator Task Name}

omit [DecidableEq Task] in
theorem timed_move (after : Operator Task Name) (timed : Timed s) (queues : after.outputQueue = s.outputQueue)
    (outputs : s.outputs.length ≤ after.outputs.length)
    (before : ∀ (v : Nat) inv stage, after.threads[v]? = some (.invoking inv stage) →
      (∃ earlier, s.threads[v]? = some (.invoking inv earlier)) ∨
      (inv.outputQueue = s.outputs.length ∧ ∀ task thread, inv.nested = some (task, thread) →
        ∀ other stage, after.threads[thread]? ≠ some (.invoking other stage)))
    (queue : ∀ (v : Nat) inv stage, s.threads[v]? = some (.invoking inv stage) → inv.outputQueue < s.outputs.length) :
    Timed after where
  issued := by
    intro task i owner
    rw [queues] at owner
    exact (timed.issued task i owner).trans_le outputs
  caller := by
    intro w inv stage task thread i read nested owner
    rw [queues] at owner
    rcases before w inv stage read with ⟨earlier, old⟩ | ⟨fresh, -⟩
    · exact timed.caller w inv earlier task thread i old nested owner
    · rw [fresh]
      exact timed.issued task i owner
  standin := by
    intro w inv stage task thread other next read nested there
    rcases before w inv stage read with ⟨earlier, old⟩ | ⟨-, alone⟩
    · rcases before thread other next there with ⟨first, theirs⟩ | ⟨fresh, -⟩
      · exact timed.standin w inv earlier task thread other first old nested theirs
      · rw [fresh]
        exact queue w inv earlier old
    · exact absurd there (alone task thread nested other next)

omit [DecidableEq Task] in
theorem timed_set (after : Operator Task Name) (w : Nat) (old pc : ThreadPc Task) (timed : Timed s) (shape : Shape app s)
    (stands : s.threads[w]? = some old) (threads : after.threads = s.threads.set w pc)
    (queues : after.outputQueue = s.outputQueue) (outputs : s.outputs.length ≤ after.outputs.length)
    (entered : ∀ inv stage, pc = .invoking inv stage → (∃ earlier, old = .invoking inv earlier) ∨
      (inv.outputQueue = s.outputs.length ∧ inv.nested = none)) : Timed after := by
  refine timed_move after timed queues outputs (fun v inv stage read => ?_) (fun v inv stage => shape.queues v inv stage)
  rw [threads] at read
  rcases Slots.lookup_set_cases s.threads w v pc _ read with ⟨rfl, same⟩ | ⟨-, earlier⟩
  · rcases entered inv stage same.symm with ⟨before, here⟩ | ⟨fresh, alone⟩
    · exact .inl ⟨before, here ▸ stands⟩
    · exact .inr ⟨fresh, by simp [alone]⟩
  · exact .inl ⟨stage, earlier⟩

theorem timed_step [Fintype Task] (after : Operator Task Name) (label : OperatorLabel Task) (timed : Timed s)
    (books : Books app s) (effect : Effect app s label after) : Timed after := by
  have move : ∀ (w : Nat) (old pc : ThreadPc Task) (after : Operator Task Name), s.threads[w]? = some old →
      after.threads = s.threads.set w pc → after.outputQueue = s.outputQueue → s.outputs.length ≤ after.outputs.length →
      (∀ inv stage, pc = .invoking inv stage → (∃ earlier, old = .invoking inv earlier) ∨
        (inv.outputQueue = s.outputs.length ∧ inv.nested = none)) → Timed after :=
    fun w old pc after stands => timed_set after w old pc timed books.shape stands
  have onward : ∀ (w : Nat) (inv : Invocation Task) (stage next : InvokePc) (after : Operator Task Name),
      s.threads[w]? = some (.invoking inv stage) → after.threads = s.threads.set w (.invoking inv next) →
      after.outputQueue = s.outputQueue → s.outputs.length ≤ after.outputs.length → Timed after := by
    intro w inv stage next after stands threads queues outputs
    refine move w _ _ after stands threads queues outputs ?_
    rintro other later ⟨⟩
    exact .inl ⟨stage, rfl⟩
  cases effect with
  | popRetired w n wake stands => exact move w _ .exited _ stands rfl rfl le_rfl (by simp)
  | popClosed w n wake cv stands => exact move w _ .exited _ stands rfl rfl le_rfl (by simp)
  | popWait w n wake stands => exact move w _ (.popping n) _ stands rfl rfl le_rfl (by simp)
  | popTask w n wake cv task rest stands => exact move w _ (.popped task) _ stands rfl rfl le_rfl (by simp)
  | start w task stands => exact move w _ (.running task) _ stands rfl rfl le_rfl (by simp)
  | call w root task stands =>
      refine timed_move _ timed rfl (by simp) (fun v inv stage read => ?_) (fun v inv stage => books.shape.queues v inv stage)
      rcases call_threads s.threads w _ v inv stage read with ⟨-, same⟩ | ⟨-, old⟩
      · cases same
        refine .inr ⟨rfl, fun hers thread nested other next there => ?_⟩
        have fresh : thread = s.threads.length := (Prod.mk.inj (Option.some.inj nested)).2.symm
        subst fresh
        simp at there
      · exact .inl ⟨stage, old⟩
  | taskEnd w task stands => exact move w _ (.executed task) _ stands rfl rfl le_rfl (by simp)
  | complete w i task content stands => exact move w _ (.popping 0) _ stands rfl rfl (by simp [setThread]) (by simp)
  | reset w inv stands => exact onward w inv _ .trace _ stands rfl rfl le_rfl
  | traceBatch w needed inv status tracerState stands => exact onward w inv _ (.assign s.fetchedTasks) _ stands rfl rfl le_rfl
  | traceNil w needed inv tracerState stands =>
      refine move w _ (afterLoop inv) _ stands rfl rfl le_rfl fun other stage same => ?_
      obtain ⟨rfl, rfl⟩ := after_loop_invoking inv other stage same
      exact .inl ⟨_, rfl⟩
  | traceError w needed inv error tracerState stands => exact onward w inv _ .raised _ stands rfl rfl le_rfl
  | assign w a inv stands =>
      have order : Timed (s.setThread w (.invoking inv (.push a))) := onward w inv _ (.push a) _ stands rfl rfl le_rfl
      refine ⟨fun task i owner => ?_, fun v other stage task thread i read nested owner => ?_, order.standin⟩
      · simp only [setThread] at owner
        split at owner
        · cases owner
          exact books.shape.queues w inv _ stands
        · exact timed.issued task i owner
      · -- a task of the batch is not running yet
        have stays : task ∉ s.batch a := by
          intro member
          obtain ⟨earlier, old⟩ : ∃ earlier, s.threads[v]? = some (.invoking other earlier) := by
            rcases Slots.lookup_set_cases s.threads w v _ _ read with ⟨rfl, same⟩ | ⟨-, old⟩
            · cases same
              exact ⟨_, stands⟩
            · exact ⟨stage, old⟩
          exact batched_unpushed books.ledger w _ stands task (Multiset.mem_coe.mpr member)
            (holds_pending books.ledger v _ task old (nested_holds other earlier task thread nested)).1
        simp only [setThread, if_neg stays] at owner
        exact order.caller v other stage task thread i read nested owner
  | push w a inv wake cv stands => exact onward w inv _ (.collect a 0) _ stands rfl rfl le_rfl
  | collect w a taken inv b rest stands =>
      exact onward w inv _ (.collect a (taken + 1)) _ stands rfl rfl (by simp [setThread])
  | stray w a taken inv b rest stands => exact onward w inv _ .raised _ stands rfl rfl (by simp [setThread])
  | again w a taken inv stands => exact onward w inv _ .reset _ stands rfl rfl le_rfl
  | threadEnd w thread inv task stands => exact onward w inv _ (.joining thread) _ stands rfl rfl le_rfl
  | join w thread own inv task stands => exact move w _ (.running task) _ stands rfl rfl le_rfl (by simp)
  | invokeTask name rest root stands =>
      refine move mainThread _ (.invoking ⟨root, s.outputs.length, none⟩ .reset) _ stands rfl rfl (by simp [setThread]) ?_
      rintro inv stage ⟨⟩
      exact .inr ⟨rfl, rfl⟩
  | invokeUnknown name rest stands => exact move mainThread _ .exited _ stands rfl rfl le_rfl (by simp)
  | finish wake cv stands => exact move mainThread _ .joinWorkers _ stands rfl rfl le_rfl (by simp)
  | joinWorkers stands => exact move mainThread _ .idle _ stands rfl rfl le_rfl (by simp)

end Steps

end Operator

end Pwrake
