import Pwrake.Nesting

set_option autoImplicit false

namespace Pwrake

namespace Operator

open Tracer

variable {Task Name Scope : Type*} [DecidableEq Task]

-- After finish the workers only leave.
def Quiet (s : Operator Task Name) : Prop :=
  s.inputQueue.finished = true → ∀ (w : Nat) pc, s.threads[w + 1]? = some pc → (∃ n, pc = .popping n) ∨ pc = .exited

-- Wake-ups meet a thread that will use them: a registered thread never waits,
-- and a signal that is owed goes to a thread that is not registered.
structure Alert (s : Operator Task Name) : Prop where
  aside : ∀ thread ∈ s.inputQueue.thEnd, thread ∉ s.inputQueue.cv.waiting
  awake : s.inputQueue.q ≠ [] → s.inputQueue.cv.waiting ≠ [] →
    ∃ thread ∈ s.inputQueue.cv.notified, thread ∉ s.inputQueue.thEnd
  closing : s.inputQueue.finished = true → s.inputQueue.cv.waiting ≠ [] → s.inputQueue.cv.notified ≠ []

-- A registered thread that runs pop finds itself at the head of @th_end.
def Headed (s : Operator Task Name) : OperatorLabel Task → Prop
  | .pop w _ => w ∈ s.inputQueue.thEnd → s.inputQueue.thEnd.head? = some w
  | _ => True

instance (s : Operator Task Name) (label : OperatorLabel Task) : Decidable (Headed s label) := by
  unfold Headed
  split <;> infer_instance

def Orderly (app : Application Task Name Scope) (s : Operator Task Name) (label : OperatorLabel Task) : Prop :=
  FreshCalls app s label ∧ Headed s label

structure Crewed (app : Application Task Name Scope) (s : Operator Task Name) : Prop where
  books : Books app s
  roles : Roles s
  parked : Parked s
  standins : Standins s
  timed : Timed s
  quiet : Quiet s
  alert : Alert s

section Facts

variable {app : Application Task Name Scope} {s : Operator Task Name}

omit [DecidableEq Task] in
theorem quiet_nobody (quiet : Quiet s) (roles : Roles s) (finished : s.inputQueue.finished = true) (w : Nat)
    (inv : Invocation Task) (stage : InvokePc) (stands : s.threads[w]? = some (.invoking inv stage)) : inv.nested = none := by
  cases w with
  | zero =>
      obtain ⟨pc, read, ofMain⟩ := roles.main
      cases read.symm.trans stands
      exact ofMain.1
  | succ w =>
      rcases quiet finished w _ stands with ⟨n, same⟩ | same
      · cases same
      · cases same

omit [DecidableEq Task] in
theorem worker_places (roles : Roles s) (w : Nat) (pc : ThreadPc Task) (stands : s.threads[w + 1]? = some pc) :
    ((∃ n, pc = .popping n) ∨ pc = .exited) ∨ ∃ task, Holds pc task := by
  have ofWorker := roles.crew w pc stands
  cases pc with
  | popping n => exact .inl (.inl ⟨n, rfl⟩)
  | popped task => exact .inr ⟨task, .inl (Multiset.mem_singleton_self task)⟩
  | running task => exact .inr ⟨task, .inr (.inl (Multiset.mem_singleton_self task))⟩
  | executed task => exact .inr ⟨task, .inr (.inr (Multiset.mem_singleton_self task))⟩
  | invoking inv stage =>
      obtain ⟨⟨task, thread⟩, nested⟩ := Option.ne_none_iff_exists'.mp ofWorker
      exact .inr ⟨task, nested_holds inv stage task thread nested⟩
  | exited => exact .inl (.inr rfl)
  | _ => exact ofWorker.elim

omit [DecidableEq Task] in
theorem quiet_move (after : Operator Task Name) (w : Nat) (old pc : ThreadPc Task) (quiet : Quiet s)
    (stands : s.threads[w]? = some old) (threads : after.threads = s.threads.set w pc)
    (finished : after.inputQueue.finished = s.inputQueue.finished)
    (leaves : s.inputQueue.finished = true → w ≠ mainThread → ((∃ n, old = .popping n) ∨ old = .exited) →
      (∃ n, pc = .popping n) ∨ pc = .exited) : Quiet after := by
  intro closed v found read
  rw [finished] at closed
  rw [threads] at read
  rcases Slots.lookup_set_cases s.threads w (v + 1) pc found read with ⟨rfl, rfl⟩ | ⟨-, earlier⟩
  · exact leaves closed (Nat.succ_ne_zero v) (quiet closed v old stands)
  · exact quiet closed v found earlier

theorem finishing_idle (books : Books app s) (roles : Roles s) (timed : Timed s)
    (stands : s.threads[mainThread]? = some .finishing) (w : Nat) (pc : ThreadPc Task)
    (read : s.threads[w + 1]? = some pc) : (∃ n, pc = .popping n) ∨ pc = .exited := by
  rcases worker_places roles w pc read with idle | ⟨task, holds⟩
  · exact idle
  · obtain ⟨pushed, uncollected⟩ := holds_pending books.ledger (w + 1) pc task read holds
    obtain ⟨-, inv, -, -, -, -, -, queue⟩ := pending_owner books.shape books.ledger books.routing task pushed uncollected
    obtain ⟨other, a, taken, collecting⟩ := worker_serves_main books roles timed _ (w + 1) pc task read holds queue
    cases stands.symm.trans collecting

theorem quiet_step [Fintype Task] (after : Operator Task Name) (label : OperatorLabel Task) (books : Books app s)
    (roles : Roles s) (timed : Timed s) (quiet : Quiet s) (effect : Effect app s label after) : Quiet after := by
  have move : ∀ (w : Nat) (old pc : ThreadPc Task) (after : Operator Task Name), s.threads[w]? = some old →
      after.threads = s.threads.set w pc → after.inputQueue.finished = s.inputQueue.finished →
      (s.inputQueue.finished = true → w ≠ mainThread → ((∃ n, old = .popping n) ∨ old = .exited) →
        (∃ n, pc = .popping n) ∨ pc = .exited) → Quiet after :=
    fun w old pc after stands => quiet_move after w old pc quiet stands
  cases effect with
  | popRetired w n wake stands => exact move w _ .exited _ stands rfl rfl (fun _ _ _ => .inr rfl)
  | popClosed w n wake cv stands => exact move w _ .exited _ stands rfl rfl (fun _ _ _ => .inr rfl)
  | popWait w n wake stands => exact move w _ (.popping n) _ stands rfl rfl (fun _ _ _ => .inl ⟨n, rfl⟩)
  | popTask w n wake cv task rest stands awake notHead unfinished =>
      refine move w _ (.popped task) _ stands rfl rfl (fun closed => ?_)
      rw [unfinished] at closed
      cases closed
  | start w task stands => exact move w _ (.running task) _ stands rfl rfl (by simp)
  | call w root task stands =>
      intro closed v pc read
      rcases Slots.lookup_append _ (v + 1) _ pc read with earlier | ⟨-, rfl⟩
      · exact move w _ _ (s.setThread w _) stands rfl rfl (by simp) closed v pc earlier
      · exact .inl ⟨0, rfl⟩
  | taskEnd w task stands => exact move w _ (.executed task) _ stands rfl rfl (by simp)
  | complete w i task content stands => exact move w _ (.popping 0) _ stands rfl rfl (fun _ _ _ => .inl ⟨0, rfl⟩)
  | reset w inv stands => exact move w _ (.invoking inv .trace) _ stands rfl rfl (by simp)
  | traceBatch w needed inv status tracerState stands =>
      exact move w _ (.invoking inv (.assign s.fetchedTasks)) _ stands rfl rfl (by simp)
  | traceNil w needed inv tracerState stands => exact move w _ (afterLoop inv) _ stands rfl rfl (by simp)
  | traceError w needed inv error tracerState stands => exact move w _ (.invoking inv .raised) _ stands rfl rfl (by simp)
  | assign w a inv stands => exact move w _ (.invoking inv (.push a)) _ stands rfl rfl (by simp)
  | push w a inv wake cv stands => exact move w _ (.invoking inv (.collect a 0)) _ stands rfl rfl (by simp)
  | collect w a taken inv b rest stands =>
      exact move w _ (.invoking inv (.collect a (taken + 1))) _ stands rfl rfl (by simp)
  | stray w a taken inv b rest stands => exact move w _ (.invoking inv .raised) _ stands rfl rfl (by simp)
  | again w a taken inv stands => exact move w _ (.invoking inv .reset) _ stands rfl rfl (by simp)
  | threadEnd w thread inv task stands => exact move w _ (.invoking inv (.joining thread)) _ stands rfl rfl (by simp)
  | join w thread own inv task stands => exact move w _ (.running task) _ stands rfl rfl (by simp)
  | invokeTask name rest root stands =>
      exact move mainThread _ (.invoking ⟨root, s.outputs.length, none⟩ .reset) _ stands rfl rfl
        (fun _ apart => absurd rfl apart)
  | invokeUnknown name rest stands => exact move mainThread _ .exited _ stands rfl rfl (fun _ apart => absurd rfl apart)
  | finish wake cv stands =>
      intro _ v pc read
      rcases Slots.lookup_set_cases s.threads mainThread (v + 1) _ pc read with ⟨same, -⟩ | ⟨-, earlier⟩
      · cases same
      · exact finishing_idle books roles timed stands v pc earlier
  | joinWorkers stands => exact move mainThread _ .idle _ stands rfl rfl (fun _ apart => absurd rfl apart)

theorem alert_step [Fintype Task] (after : Operator Task Name) (label : OperatorLabel Task) (roles : Roles s)
    (standins : Standins s) (quiet : Quiet s) (alert : Alert s) (headed : Headed s label)
    (effect : Effect app s label after) : Alert after := by
  have same : after.inputQueue = s.inputQueue → Alert after := fun same =>
    ⟨by rw [same]; exact alert.aside, by rw [same]; exact alert.awake, by rw [same]; exact alert.closing⟩
  have vacant := fun finished => standins_unregistered standins (quiet_nobody quiet roles finished)
  -- after a signal, a thread that still waits leaves somebody woken in its place
  have signalled : ∀ (cv next : CondVar Nat) wake, cv.signal wake = some next → (∀ v ∈ cv.waiting, v ∈ s.inputQueue.cv.waiting) →
      (∀ thread ∈ s.inputQueue.thEnd, thread ∉ next.waiting) ∧
        (next.waiting ≠ [] → ∃ thread ∈ next.notified, thread ∉ s.inputQueue.thEnd) := by
    intro cv next wake signalled older
    refine ⟨fun thread member waits => ?_, fun waiters => ?_⟩
    · exact alert.aside thread member (older thread (CondVar.signal_waiting cv next wake signalled thread waits))
    · obtain ⟨thread, waited, woken⟩ := CondVar.signal_woken cv next wake signalled waiters
      exact ⟨thread, woken, fun member => alert.aside thread member (older thread waited)⟩
  cases effect with
  | popRetired w n wake stands awake head =>
      have member : w ∈ s.inputQueue.thEnd := List.mem_of_head? head
      refine ⟨fun thread later => alert.aside thread (List.mem_of_mem_tail later), fun queued waiters => ?_,
        fun closed => ?_⟩
      · obtain ⟨thread, woken, free⟩ := alert.awake queued waiters
        have apart : thread ≠ w := fun same => free (same ▸ member)
        exact ⟨thread, (List.mem_erase_of_ne apart).mpr woken, fun later => free (List.mem_of_mem_tail later)⟩
      · rw [vacant closed] at member
        cases member
  | popClosed w n wake cv stands awake notHead finished woke =>
      obtain ⟨aside, owed⟩ := signalled _ cv wake woke (fun _ waits => waits)
      refine ⟨aside, fun _ waiters => owed waiters, fun _ waiters => ?_⟩
      obtain ⟨thread, woken, -⟩ := owed waiters
      exact List.ne_nil_of_mem woken
  | popWait w n wake stands awake notHead unfinished vacant =>
      have free : w ∉ s.inputQueue.thEnd := fun member => notHead (headed member)
      refine ⟨fun thread member waits => ?_, fun queued => absurd vacant queued, fun closed => ?_⟩
      · rcases List.mem_cons.mp waits with rfl | earlier
        · exact free member
        · exact alert.aside thread member earlier
      · rw [show s.inputQueue.finished = true from closed] at unfinished
        cases unfinished
  | popTask w n wake cv task rest stands awake notHead unfinished content woke =>
      obtain ⟨aside, owed⟩ := signalled _ cv wake woke (fun _ waits => waits)
      refine ⟨aside, fun _ waiters => owed waiters, fun closed => ?_⟩
      rw [show s.inputQueue.finished = true from closed] at unfinished
      cases unfinished
  | push w a inv wake cv stands woke =>
      obtain ⟨aside, owed⟩ := signalled _ cv wake woke (fun _ waits => waits)
      refine ⟨aside, fun _ waiters => owed waiters, fun _ waiters => ?_⟩
      obtain ⟨thread, woken, -⟩ := owed waiters
      exact List.ne_nil_of_mem woken
  | finish wake cv stands woke =>
      obtain ⟨aside, owed⟩ := signalled _ cv wake woke (fun _ waits => waits)
      refine ⟨aside, fun _ waiters => owed waiters, fun _ waiters => ?_⟩
      obtain ⟨thread, woken, -⟩ := owed waiters
      exact List.ne_nil_of_mem woken
  | threadEnd =>
      exact ⟨fun _ _ waits => absurd waits List.not_mem_nil, fun _ waiters => absurd rfl waiters,
        fun _ waiters => absurd rfl waiters⟩
  | _ => exact same rfl

omit [DecidableEq Task] in
theorem alert_new (n : Nat) (names : List Name) : Alert (new n names : Operator Task Name) :=
  ⟨fun _ member => absurd member List.not_mem_nil, fun queued => absurd rfl queued, fun closed => by cases closed⟩

end Facts

section Runs

variable [Fintype Task] {app : Application Task Name Scope}

theorem crewed_step (s after : Operator Task Name) (label : OperatorLabel Task) (crewed : Crewed app s)
    (orderly : Orderly app s label) (effect : Effect app s label after) : Crewed app after where
  books := books_step s after label crewed.books orderly.1 effect
  roles := roles_step s after label crewed.roles effect
  parked := parked_step s after label crewed.parked effect
  standins := standins_step s after label crewed.standins crewed.roles effect
    (quiet_nobody crewed.quiet crewed.roles)
  timed := timed_step after label crewed.timed crewed.books effect
  quiet := quiet_step after label crewed.books crewed.roles crewed.timed crewed.quiet effect
  alert := alert_step after label crewed.roles crewed.standins crewed.quiet crewed.alert orderly.2 effect

omit [Fintype Task] in
theorem crewed_new (n : Nat) (names : List Name) (buildable : BuildableNames app names) :
    Crewed app (new n names : Operator Task Name) where
  books := books_new n names buildable
  roles := roles_new n names
  parked := parked_new n names
  standins := standins_new n names
  timed := ⟨fun task i owner => (by cases owner), fun w inv stage _ _ _ read => absurd read (new_nobody n names w inv stage),
    fun w inv stage _ _ _ _ read => absurd read (new_nobody n names w inv stage)⟩
  quiet := fun closed => by cases closed
  alert := alert_new n names

end Runs

-- A thread that cannot go on by itself: it waits un-notified in pop, in
-- thread.join, or on an empty output queue, or it has nothing left to do.
def Blocked (s : Operator Task Name) (w : Nat) : Prop :=
  match s.threads[w]? with
  | some (.popping _) => w ∈ s.inputQueue.cv.waiting
  | some (.invoking _ (.joining thread)) => s.threads[thread]? ≠ some .exited
  | some (.invoking inv (.collect a taken)) => taken < (s.batch a).length ∧ s.outputs[inv.outputQueue]? = some []
  | some .joinWorkers => ¬ s.WorkersExited
  | some .exited => True
  | some .idle => True
  | none => True
  | _ => False

instance (s : Operator Task Name) (w : Nat) : Decidable (Blocked s w) := by
  unfold Blocked
  split <;> infer_instance

section Blocking

variable {app : Application Task Name Scope} {s : Operator Task Name}

end Blocking

end Operator

end Pwrake
