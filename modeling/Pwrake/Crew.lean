import Pwrake.Ownership

set_option autoImplicit false

namespace Pwrake

namespace Operator

variable {Task Name Scope : Type*} [DecidableEq Task]

def OfMain : ThreadPc Task → Prop
  | .idle | .finishing | .joinWorkers | .exited => True
  | .invoking inv stage => inv.nested = none ∧ stage ≠ .retire ∧ ∀ thread, stage ≠ .joining thread
  | _ => False

def OfWorker : ThreadPc Task → Prop
  | .popping _ | .popped _ | .running _ | .executed _ | .exited => True
  | .invoking inv _ => inv.nested ≠ none
  | _ => False

structure Roles (s : Operator Task Name) : Prop where
  main : ∃ pc, s.threads[mainThread]? = some pc ∧ OfMain pc
  crew : ∀ (w : Nat) pc, s.threads[w + 1]? = some pc → OfWorker pc
  hired : s.workers < s.threads.length

-- Only threads inside pop are known to @cv.
structure Parked (s : Operator Task Name) : Prop where
  tidy : s.inputQueue.cv.Tidy
  waiters : ∀ w ∈ s.inputQueue.cv.waiting, ∃ n, s.threads[w]? = some (.popping n)
  woken : ∀ w ∈ s.inputQueue.cv.notified, ∃ n, s.threads[w]? = some (.popping n)

-- The threads made by nested calls. Each belongs to one call, is registered in
-- @th_end exactly while that call joins it, and does not exit before.
structure Standins (s : Operator Task Name) : Prop where
  bound : ∀ (w : Nat) inv stage task thread, s.threads[w]? = some (.invoking inv stage) →
    inv.nested = some (task, thread) → s.workers < thread ∧ thread < s.threads.length
  distinct : ∀ (w v : Nat) inv other stage next task hers thread, s.threads[w]? = some (.invoking inv stage) →
    s.threads[v]? = some (.invoking other next) → inv.nested = some (task, thread) → other.nested = some (hers, thread) →
    w = v
  joining : ∀ (w : Nat) inv thread, s.threads[w]? = some (.invoking inv (.joining thread)) →
    (∃ task, inv.nested = some (task, thread)) ∧ (thread ∈ s.inputQueue.thEnd ∨ s.threads[thread]? = some .exited)
  registered : ∀ thread ∈ s.inputQueue.thEnd, s.threads[thread]? ≠ some .exited ∧
    ∃ (w : Nat) (inv : Invocation Task), s.threads[w]? = some (.invoking inv (.joining thread))
  once : s.inputQueue.thEnd.Nodup
  staying : s.inputQueue.finished = false → ∀ thread, s.threads[thread + 1]? = some .exited →
    s.workers < thread + 1 ∧ ∀ (w : Nat) inv stage task, s.threads[w]? = some (.invoking inv stage) →
      inv.nested = some (task, thread + 1) → stage = .joining (thread + 1)

section Moves

variable {app : Application Task Name Scope} {s : Operator Task Name}

omit [DecidableEq Task] in
theorem standins_unregistered (standins : Standins s)
    (alone : ∀ (w : Nat) (inv : Invocation Task) (stage : InvokePc), s.threads[w]? = some (.invoking inv stage) →
      inv.nested = none) : s.inputQueue.thEnd = [] := by
  by_contra someone
  obtain ⟨thread, member⟩ := List.exists_mem_of_ne_nil _ someone
  obtain ⟨-, v, inv, joins⟩ := standins.registered thread member
  obtain ⟨task, nested⟩ := (standins.joining v inv thread joins).1
  rw [alone v inv _ joins] at nested
  cases nested

omit [DecidableEq Task] in
theorem roles_move (after : Operator Task Name) (w : Nat) (old pc : ThreadPc Task) (roles : Roles s)
    (stands : s.threads[w]? = some old) (threads : after.threads = s.threads.set w pc) (workers : after.workers = s.workers)
    (main : OfMain old → OfMain pc) (worker : OfWorker old → OfWorker pc) : Roles after where
  main := by
    obtain ⟨here, read, ofMain⟩ := roles.main
    rw [threads, Slots.lookup_set s.threads w mainThread old pc stands]
    by_cases same : mainThread = w
    · rw [← same, read] at stands
      cases stands
      exact ⟨pc, if_pos same, main ofMain⟩
    · exact ⟨here, by rw [if_neg same, read], ofMain⟩
  crew := by
    intro v found read
    rw [threads] at read
    rcases Slots.lookup_set_cases s.threads w (v + 1) pc found read with ⟨rfl, rfl⟩ | ⟨-, earlier⟩
    · exact worker (roles.crew v old stands)
    · exact roles.crew v found earlier
  hired := by rw [workers, threads, List.length_set]; exact roles.hired

theorem roles_step [Fintype Task] (s after : Operator Task Name) (label : OperatorLabel Task) (roles : Roles s)
    (effect : Effect app s label after) : Roles after := by
  have move : ∀ (w : Nat) (old pc : ThreadPc Task) (after : Operator Task Name), s.threads[w]? = some old →
      after.threads = s.threads.set w pc → after.workers = s.workers → (OfMain old → OfMain pc) →
      (OfWorker old → OfWorker pc) → Roles after :=
    fun w old pc after stands => roles_move after w old pc roles stands
  cases effect with
  | popRetired w n wake stands => exact move w _ .exited _ stands rfl rfl (fun h => h.elim) (fun _ => trivial)
  | popClosed w n wake cv stands => exact move w _ .exited _ stands rfl rfl (fun h => h.elim) (fun _ => trivial)
  | popWait w n wake stands => exact move w _ (.popping n) _ stands rfl rfl (fun h => h.elim) (fun _ => trivial)
  | popTask w n wake cv task rest stands => exact move w _ (.popped task) _ stands rfl rfl (fun h => h.elim) (fun _ => trivial)
  | start w task stands => exact move w _ (.running task) _ stands rfl rfl (fun h => h.elim) (fun _ => trivial)
  | call w root task stands =>
      have called := move w _ (.invoking ⟨root, s.outputs.length, some (task, s.threads.length)⟩ .reset)
        (s.setThread w _) stands rfl rfl (fun h => h.elim) (fun _ => by simp [OfWorker])
      refine ⟨?_, fun v pc read => ?_, ?_⟩
      · obtain ⟨pc, read, ofMain⟩ := called.main
        exact ⟨pc, Slots.lookup_old _ mainThread _ pc read, ofMain⟩
      · rcases Slots.lookup_append _ (v + 1) _ pc read with earlier | ⟨-, rfl⟩
        · exact called.crew v pc earlier
        · trivial
      · have hired := roles.hired
        simp only [List.length_append, List.length_set, List.length_singleton]
        omega
  | taskEnd w task stands => exact move w _ (.executed task) _ stands rfl rfl (fun h => h.elim) (fun _ => trivial)
  | complete w i task content stands => exact move w _ (.popping 0) _ stands rfl rfl (fun h => h.elim) (fun _ => trivial)
  | reset w inv stands =>
      exact move w _ (.invoking inv .trace) _ stands rfl rfl (fun h => ⟨h.1, by simp, by simp⟩) (fun h => h)
  | traceBatch w needed inv status tracerState stands =>
      exact move w _ (.invoking inv (.assign s.fetchedTasks)) _ stands rfl rfl (fun h => ⟨h.1, by simp, by simp⟩) (fun h => h)
  | traceNil w needed inv tracerState stands =>
      refine move w _ (afterLoop inv) _ stands rfl rfl (fun h => ?_) (fun h => ?_)
      · simp [afterLoop, h.1, OfMain]
      · obtain ⟨nested, isNested⟩ := Option.ne_none_iff_exists'.mp h
        simp [afterLoop, isNested, OfWorker]
  | traceError w needed inv error tracerState stands =>
      exact move w _ (.invoking inv .raised) _ stands rfl rfl (fun h => ⟨h.1, by simp, by simp⟩) (fun h => h)
  | assign w a inv stands =>
      exact move w _ (.invoking inv (.push a)) _ stands rfl rfl (fun h => ⟨h.1, by simp, by simp⟩) (fun h => h)
  | push w a inv wake cv stands =>
      exact move w _ (.invoking inv (.collect a 0)) _ stands rfl rfl (fun h => ⟨h.1, by simp, by simp⟩) (fun h => h)
  | collect w a taken inv b rest stands =>
      exact move w _ (.invoking inv (.collect a (taken + 1))) _ stands rfl rfl (fun h => ⟨h.1, by simp, by simp⟩) (fun h => h)
  | stray w a taken inv b rest stands =>
      exact move w _ (.invoking inv .raised) _ stands rfl rfl (fun h => ⟨h.1, by simp, by simp⟩) (fun h => h)
  | again w a taken inv stands =>
      exact move w _ (.invoking inv .reset) _ stands rfl rfl (fun h => ⟨h.1, by simp, by simp⟩) (fun h => h)
  | threadEnd w thread inv task stands =>
      exact move w _ (.invoking inv (.joining thread)) _ stands rfl rfl (fun h => absurd rfl h.2.1) (fun h => h)
  | join w thread own inv task stands =>
      exact move w _ (.running task) _ stands rfl rfl (fun h => absurd rfl (h.2.2 thread)) (fun _ => trivial)
  | invokeTask name rest root stands =>
      exact move mainThread _ (.invoking ⟨root, s.outputs.length, none⟩ .reset) _ stands rfl rfl
        (fun _ => ⟨rfl, by simp, by simp⟩) (fun h => h.elim)
  | invokeUnknown name rest stands => exact move mainThread _ .exited _ stands rfl rfl (fun _ => trivial) (fun h => h.elim)
  | finish wake cv stands => exact move mainThread _ .joinWorkers _ stands rfl rfl (fun _ => trivial) (fun h => h.elim)
  | joinWorkers stands => exact move mainThread _ .idle _ stands rfl rfl (fun _ => trivial) (fun h => h.elim)

omit [DecidableEq Task] in
theorem roles_new (n : Nat) (names : List Name) : Roles (new n names : Operator Task Name) where
  main := ⟨.idle, rfl, trivial⟩
  crew := fun w pc read => by
    cases Slots.lookup_replicate n w _ _ read
    trivial
  hired := by simp [new]

omit [DecidableEq Task] in
theorem parked_outside (parked : Parked s) (w : Nat) (pc : ThreadPc Task) (stands : s.threads[w]? = some pc)
    (outside : ∀ n, pc ≠ .popping n) : w ∉ s.inputQueue.cv.waiting ∧ w ∉ s.inputQueue.cv.notified := by
  constructor
  · intro member
    obtain ⟨n, inside⟩ := parked.waiters w member
    exact outside n (Option.some.inj (stands.symm.trans inside))
  · intro member
    obtain ⟨n, inside⟩ := parked.woken w member
    exact outside n (Option.some.inj (stands.symm.trans inside))

omit [DecidableEq Task] in
theorem parked_move (after : Operator Task Name) (w : Nat) (parked : Parked s)
    (tidy : after.inputQueue.cv.Tidy)
    (others : ∀ v, v ≠ w → ∀ n, s.threads[v]? = some (.popping n) → after.threads[v]? = some (.popping n))
    (known : ∀ v, v ∈ after.inputQueue.cv.waiting ∨ v ∈ after.inputQueue.cv.notified →
      (v ≠ w ∧ (v ∈ s.inputQueue.cv.waiting ∨ v ∈ s.inputQueue.cv.notified)) ∨ ∃ n, after.threads[v]? = some (.popping n)) :
    Parked after := by
  have stands : ∀ v, v ∈ after.inputQueue.cv.waiting ∨ v ∈ after.inputQueue.cv.notified →
      ∃ n, after.threads[v]? = some (.popping n) := by
    intro v member
    rcases known v member with ⟨apart, waiting | notified⟩ | stands
    · obtain ⟨n, read⟩ := parked.waiters v waiting
      exact ⟨n, others v apart n read⟩
    · obtain ⟨n, read⟩ := parked.woken v notified
      exact ⟨n, others v apart n read⟩
    · exact stands
  exact ⟨tidy, fun v member => stands v (.inl member), fun v member => stands v (.inr member)⟩

omit [DecidableEq Task] in
theorem parked_set (after : Operator Task Name) (w : Nat) (old pc : ThreadPc Task) (parked : Parked s)
    (stands : s.threads[w]? = some old) (outside : ∀ n, old ≠ .popping n) (threads : after.threads = s.threads.set w pc)
    (tidy : after.inputQueue.cv.Tidy)
    (known : ∀ v, v ∈ after.inputQueue.cv.waiting ∨ v ∈ after.inputQueue.cv.notified →
      v ∈ s.inputQueue.cv.waiting ∨ v ∈ s.inputQueue.cv.notified) : Parked after := by
  have unknown := parked_outside parked w old stands outside
  refine parked_move after w parked tidy (fun v apart n read => ?_) (fun v member => .inl ⟨?_, known v member⟩)
  · rw [threads, List.getElem?_set_ne (Ne.symm apart)]
    exact read
  · rintro rfl
    rcases known v member with waiting | notified
    · exact unknown.1 waiting
    · exact unknown.2 notified

-- The thread at its turn in pop is unknown to @cv once it has resumed.
omit [DecidableEq Task] in
theorem resumed_known (parked : Parked s) (w : Nat) (awake : w ∉ s.inputQueue.cv.waiting) (v : Nat)
    (member : v ∈ (s.inputQueue.cv.resume w).waiting ∨ v ∈ (s.inputQueue.cv.resume w).notified) :
    v ≠ w ∧ (v ∈ s.inputQueue.cv.waiting ∨ v ∈ s.inputQueue.cv.notified) := by
  rcases member with waiting | notified
  · refine ⟨?_, .inl waiting⟩
    rintro rfl
    exact awake waiting
  · obtain ⟨apart, notified⟩ := parked.tidy.notified.mem_erase_iff.mp notified
    exact ⟨apart, .inr notified⟩

omit [DecidableEq Task] in
theorem signalled_known (cv next : CondVar Nat) (wake : Option Nat) (signalled : cv.signal wake = some next) (v : Nat)
    (member : v ∈ next.waiting ∨ v ∈ next.notified) : v ∈ cv.waiting ∨ v ∈ cv.notified := by
  rcases member with waiting | notified
  · exact .inl (CondVar.signal_waiting cv next wake signalled v waiting)
  · exact (CondVar.signal_notified cv next wake signalled v notified).symm

theorem parked_step [Fintype Task] (s after : Operator Task Name) (label : OperatorLabel Task) (parked : Parked s)
    (effect : Effect app s label after) : Parked after := by
  have still : ∀ (w : Nat) (old pc : ThreadPc Task) (after : Operator Task Name), s.threads[w]? = some old →
      (∀ n, old ≠ .popping n) → after.threads = s.threads.set w pc → after.inputQueue.cv = s.inputQueue.cv → Parked after := by
    intro w old pc after stands outside threads same
    exact parked_set after w old pc parked stands outside threads (same ▸ parked.tidy) (by rw [same]; exact fun _ member => member)
  have leaves : ∀ (w : Nat) (pc : ThreadPc Task) (after : Operator Task Name), w ∉ s.inputQueue.cv.waiting →
      after.threads = s.threads.set w pc → after.inputQueue.cv.Tidy →
      (∀ v, v ∈ after.inputQueue.cv.waiting ∨ v ∈ after.inputQueue.cv.notified →
        v ∈ (s.inputQueue.cv.resume w).waiting ∨ v ∈ (s.inputQueue.cv.resume w).notified) → Parked after := by
    intro w pc after awake threads tidy known
    refine parked_move after w parked tidy (fun v apart n read => ?_)
      (fun v member => .inl (resumed_known parked w awake v (known v member)))
    rw [threads, List.getElem?_set_ne (Ne.symm apart)]
    exact read
  have resumed := fun w => CondVar.resume_tidy s.inputQueue.cv w parked.tidy
  cases effect with
  | popRetired w n wake stands awake => exact leaves w .exited _ awake rfl (resumed w) (fun _ member => member)
  | popClosed w n wake cv stands awake notHead finished signalled =>
      exact leaves w .exited _ awake rfl (CondVar.signal_tidy _ cv wake signalled (resumed w))
        (signalled_known _ cv wake signalled)
  | popTask w n wake cv task rest stands awake notHead unfinished content signalled =>
      exact leaves w (.popped task) _ awake rfl (CondVar.signal_tidy _ cv wake signalled (resumed w))
        (signalled_known _ cv wake signalled)
  | popWait w n wake stands awake =>
      have absent : ∀ v, v ∈ (s.inputQueue.cv.resume w).waiting ∨ v ∈ (s.inputQueue.cv.resume w).notified → v ≠ w :=
        fun v member => (resumed_known parked w awake v member).1
      refine parked_move _ w parked (CondVar.wait_tidy _ w (resumed w) (fun member => absent w (.inl member) rfl)
        (fun member => absent w (.inr member) rfl)) (fun v apart n read => ?_) (fun v member => ?_)
      · show (s.threads.set w _)[v]? = _
        rw [List.getElem?_set_ne (Ne.symm apart)]
        exact read
      · by_cases here : v = w
        · subst here
          exact .inr ⟨n, by
            show (s.threads.set v _)[v]? = _
            rw [Slots.lookup_set s.threads v v _ _ stands, if_pos rfl]⟩
        · refine .inl (resumed_known parked w awake v (member.imp_left fun waiting => ?_))
          exact (List.mem_cons.mp waiting).resolve_left here
  | start w task stands => exact still w _ (.running task) _ stands (by simp) rfl rfl
  | call w root task stands =>
      refine parked_move _ w parked parked.tidy (fun v apart n read => Slots.lookup_old _ v _ _ ?_)
        (fun v member => .inl ⟨?_, member⟩)
      · rw [List.getElem?_set_ne (Ne.symm apart)]
        exact read
      · rintro rfl
        have unknown := parked_outside parked v _ stands (by simp)
        exact member.elim unknown.1 unknown.2
  | taskEnd w task stands => exact still w _ (.executed task) _ stands (by simp) rfl rfl
  | complete w i task content stands => exact still w _ (.popping 0) _ stands (by simp) rfl rfl
  | reset w inv stands => exact still w _ (.invoking inv .trace) _ stands (by simp) rfl rfl
  | traceBatch w needed inv status tracerState stands =>
      exact still w _ (.invoking inv (.assign s.fetchedTasks)) _ stands (by simp) rfl rfl
  | traceNil w needed inv tracerState stands => exact still w _ (afterLoop inv) _ stands (by simp) rfl rfl
  | traceError w needed inv error tracerState stands => exact still w _ (.invoking inv .raised) _ stands (by simp) rfl rfl
  | assign w a inv stands => exact still w _ (.invoking inv (.push a)) _ stands (by simp) rfl rfl
  | push w a inv wake cv stands signalled =>
      exact parked_set _ w _ (.invoking inv (.collect a 0)) parked stands (by simp) rfl
        (CondVar.signal_tidy _ cv wake signalled parked.tidy) (signalled_known _ cv wake signalled)
  | collect w a taken inv b rest stands => exact still w _ (.invoking inv (.collect a (taken + 1))) _ stands (by simp) rfl rfl
  | stray w a taken inv b rest stands => exact still w _ (.invoking inv .raised) _ stands (by simp) rfl rfl
  | again w a taken inv stands => exact still w _ (.invoking inv .reset) _ stands (by simp) rfl rfl
  | threadEnd w thread inv task stands =>
      refine parked_set _ w _ (.invoking inv (.joining thread)) parked stands (by simp) rfl
        (CondVar.broadcast_tidy _ parked.tidy) (fun v member => ?_)
      rcases member with waiting | notified
      · cases waiting
      · exact List.mem_append.mp notified
  | join w thread own inv task stands => exact still w _ (.running task) _ stands (by simp) rfl rfl
  | invokeTask name rest root stands =>
      exact still mainThread _ (.invoking ⟨root, s.outputs.length, none⟩ .reset) _ stands (by simp) rfl rfl
  | invokeUnknown name rest stands => exact still mainThread _ .exited _ stands (by simp) rfl rfl
  | finish wake cv stands signalled =>
      exact parked_set _ mainThread _ .joinWorkers parked stands (by simp) rfl
        (CondVar.signal_tidy _ cv wake signalled parked.tidy) (signalled_known _ cv wake signalled)
  | joinWorkers stands => exact still mainThread _ .idle _ stands (by simp) rfl rfl

omit [DecidableEq Task] in
theorem parked_new (n : Nat) (names : List Name) : Parked (new n names : Operator Task Name) :=
  ⟨⟨List.nodup_nil, List.nodup_nil, fun _ member => absurd member List.not_mem_nil⟩,
    fun _ member => absurd member List.not_mem_nil, fun _ member => absurd member List.not_mem_nil⟩

omit [DecidableEq Task] in
theorem standins_move (after : Operator Task Name) (w : Nat) (old pc : ThreadPc Task) (standins : Standins s)
    (stands : s.threads[w]? = some old) (threads : after.threads = s.threads.set w pc) (workers : after.workers = s.workers)
    (thEnd : after.inputQueue.thEnd = s.inputQueue.thEnd)
    (finished : after.inputQueue.finished = false → s.inputQueue.finished = false)
    (alive : old ≠ .exited) (lives : pc = .exited → w = mainThread)
    (entered : ∀ inv stage, pc = .invoking inv stage → inv.nested = none ∨ ∃ earlier, old = .invoking inv earlier)
    (apart : ∀ inv thread, old ≠ .invoking inv (.joining thread) ∧ pc ≠ .invoking inv (.joining thread)) : Standins after := by
  have lookup := fun v found => Slots.lookup_set_cases s.threads w v pc found
  have before : ∀ (v : Nat) inv stage task thread, after.threads[v]? = some (.invoking inv stage) →
      inv.nested = some (task, thread) → ∃ earlier, s.threads[v]? = some (.invoking inv earlier) := by
    intro v inv stage task thread read nested
    rw [threads] at read
    rcases lookup v _ read with ⟨rfl, same⟩ | ⟨-, earlier⟩
    · rcases entered inv stage same.symm with main | ⟨earlier, here⟩
      · rw [main] at nested
        cases nested
      · exact ⟨earlier, here ▸ stands⟩
    · exact ⟨stage, earlier⟩
  have joiner : ∀ (v : Nat) inv thread, after.threads[v]? = some (.invoking inv (.joining thread)) ↔
      s.threads[v]? = some (.invoking inv (.joining thread)) := by
    intro v inv thread
    rw [threads, Slots.lookup_set s.threads w v old pc stands]
    by_cases here : v = w
    · subst here
      rw [if_pos rfl, stands]
      exact ⟨fun same => absurd (Option.some.inj same) (apart inv thread).2,
        fun same => absurd (Option.some.inj same) (apart inv thread).1⟩
    · rw [if_neg here]
  have gone : ∀ v : Nat, s.threads[v]? = some .exited → after.threads[v]? = some .exited := by
    intro v exited
    have here : v ≠ w := by
      rintro rfl
      exact alive (Option.some.inj (stands.symm.trans exited))
    rw [threads, List.getElem?_set_ne (Ne.symm here)]
    exact exited
  have goneBefore : ∀ v : Nat, after.threads[v]? = some .exited → v = mainThread ∨ s.threads[v]? = some .exited := by
    intro v exited
    rw [threads] at exited
    rcases lookup v _ exited with ⟨rfl, same⟩ | ⟨-, earlier⟩
    · exact .inl (lives same.symm)
    · exact .inr earlier
  refine ⟨?_, ?_, ?_, ?_, by rw [thEnd]; exact standins.once, ?_⟩
  · intro v inv stage task thread read nested
    obtain ⟨earlier, old⟩ := before v inv stage task thread read nested
    have bound := standins.bound v inv earlier task thread old nested
    rw [workers, threads, List.length_set]
    exact bound
  · intro v u inv other stage next task hers thread left right nested shared
    obtain ⟨first, mine⟩ := before v inv stage task thread left nested
    obtain ⟨second, theirs⟩ := before u other next hers thread right shared
    exact standins.distinct v u inv other first second task hers thread mine theirs nested shared
  · intro v inv thread read
    obtain ⟨nested, registered⟩ := standins.joining v inv thread ((joiner v inv thread).mp read)
    rw [thEnd]
    exact ⟨nested, registered.imp_right (gone thread)⟩
  · intro thread member
    rw [thEnd] at member
    obtain ⟨present, v, inv, joins⟩ := standins.registered thread member
    refine ⟨fun exited => ?_, v, inv, (joiner v inv thread).mpr joins⟩
    rcases goneBefore thread exited with main | earlier
    · obtain ⟨task, nested⟩ := (standins.joining v inv thread joins).1
      have bound := (standins.bound v inv _ task thread joins nested).1
      rw [main] at bound
      exact absurd bound (Nat.not_lt_zero _)
    · exact present earlier
  · intro unfinished thread exited
    obtain ⟨retired, others⟩ := standins.staying (finished unfinished) thread
      ((goneBefore (thread + 1) exited).resolve_left (Nat.succ_ne_zero thread))
    refine ⟨workers ▸ retired, fun v inv stage task read nested => ?_⟩
    obtain ⟨earlier, old⟩ := before v inv stage task (thread + 1) read nested
    have joins := others v inv earlier task old nested
    subst joins
    have now := (joiner v inv (thread + 1)).mpr old
    rw [now] at read
    cases read
    rfl

-- A thread that leaves thread_loop: retired as the head of @th_end, or closed
-- after finish, when nobody is registered any more.
omit [DecidableEq Task] in
theorem standins_leave (after : Operator Task Name) (w n : Nat) (standins : Standins s)
    (stands : s.threads[w]? = some (.popping n)) (threads : after.threads = s.threads.set w .exited)
    (workers : after.workers = s.workers)
    (fewer : ∀ thread, thread ∈ after.inputQueue.thEnd ↔ thread ∈ s.inputQueue.thEnd ∧ thread ≠ w)
    (once : after.inputQueue.thEnd.Nodup)
    (finished : after.inputQueue.finished = s.inputQueue.finished)
    (allowed : w ∈ s.inputQueue.thEnd ∨ s.inputQueue.finished = true) : Standins after := by
  have same : ∀ (v : Nat) inv stage, after.threads[v]? = some (.invoking inv stage) ↔
      s.threads[v]? = some (.invoking inv stage) := by
    intro v inv stage
    rw [threads, Slots.lookup_set s.threads w v _ _ stands]
    by_cases here : v = w
    · subst here
      simp [stands]
    · rw [if_neg here]
  have exitedNow : after.threads[w]? = some .exited := by
    rw [threads, Slots.lookup_set s.threads w w _ _ stands, if_pos rfl]
  have exitedOthers : ∀ v : Nat, v ≠ w → after.threads[v]? = s.threads[v]? := by
    intro v apart
    rw [threads, List.getElem?_set_ne (Ne.symm apart)]
  refine ⟨?_, ?_, ?_, ?_, once, ?_⟩
  · intro v inv stage task thread read nested
    rw [workers, threads, List.length_set]
    exact standins.bound v inv stage task thread ((same v inv stage).mp read) nested
  · intro v u inv other stage next task hers thread left right nested shared
    exact standins.distinct v u inv other stage next task hers thread ((same v inv stage).mp left)
      ((same u other next).mp right) nested shared
  · intro v inv thread read
    obtain ⟨nested, registered⟩ := standins.joining v inv thread ((same v inv _).mp read)
    refine ⟨nested, ?_⟩
    by_cases here : thread = w
    · exact .inr (here ▸ exitedNow)
    · rcases registered with member | exited
      · exact .inl ((fewer thread).mpr ⟨member, here⟩)
      · exact .inr ((exitedOthers thread here).trans exited)
  · intro thread member
    obtain ⟨earlier, apart⟩ := (fewer thread).mp member
    obtain ⟨present, v, inv, joins⟩ := standins.registered thread earlier
    exact ⟨by rw [exitedOthers thread apart]; exact present, v, inv, (same v inv _).mpr joins⟩
  · intro unfinished thread exited
    rw [finished] at unfinished
    by_cases here : thread + 1 = w
    · have member : w ∈ s.inputQueue.thEnd := allowed.resolve_right (by simp [unfinished])
      obtain ⟨-, v, inv, joins⟩ := standins.registered w member
      obtain ⟨task, nested⟩ := (standins.joining v inv w joins).1
      rw [here, workers]
      refine ⟨(standins.bound v inv _ task w joins nested).1, fun u other stage hers read shared => ?_⟩
      have old := (same u other stage).mp read
      have holder := standins.distinct u v other inv stage _ hers task w old joins shared nested
      subst holder
      rw [joins] at old
      cases old
      rfl
    · rw [exitedOthers _ here] at exited
      obtain ⟨retired, others⟩ := standins.staying unfinished thread exited
      exact ⟨workers ▸ retired, fun v inv stage task read nested => others v inv stage task ((same v inv stage).mp read) nested⟩

omit [DecidableEq Task] in
theorem standins_call (w : Nat) (root task : Task) (standins : Standins s) (roles : Roles s)
    (stands : s.threads[w]? = some (.running task)) :
    Standins { s with
      outputs := s.outputs ++ [[]]
      threads := s.threads.set w (.invoking ⟨root, s.outputs.length, some (task, s.threads.length)⟩ .reset) ++
        [.popping 0] } := by
  have lookup := call_threads s.threads w (.invoking ⟨root, s.outputs.length, some (task, s.threads.length)⟩ .reset)
  have others : ∀ (v : Nat) pc, v ≠ w → s.threads[v]? = some pc →
      (s.threads.set w (.invoking ⟨root, s.outputs.length, some (task, s.threads.length)⟩ .reset) ++
        [.popping 0])[v]? = some pc := by
    intro v pc apart read
    refine Slots.lookup_old _ v _ pc ?_
    rw [List.getElem?_set_ne (Ne.symm apart)]
    exact read
  have exitedBefore : ∀ v : Nat, (s.threads.set w
      (.invoking ⟨root, s.outputs.length, some (task, s.threads.length)⟩ .reset) ++ [.popping 0])[v]? = some .exited →
      s.threads[v]? = some .exited := by
    intro v exited
    rcases Slots.lookup_append _ v _ _ exited with earlier | ⟨-, same⟩
    · rcases Slots.lookup_set_cases s.threads w v _ _ earlier with ⟨-, same⟩ | ⟨-, old⟩
      · cases same
      · exact old
    · cases same
  have apartFrom : ∀ (v : Nat) pc, s.threads[v]? = some pc → pc ≠ .running task → v ≠ w := by
    rintro v pc read different rfl
    exact different (Option.some.inj (read.symm.trans stands))
  refine ⟨?_, ?_, ?_, ?_, standins.once, ?_⟩
  · intro v inv stage hers thread read nested
    simp only [List.length_append, List.length_set, List.length_singleton]
    rcases lookup v inv stage read with ⟨rfl, same⟩ | ⟨-, old⟩
    · cases same
      cases nested
      exact ⟨roles.hired, Nat.lt_succ_self _⟩
    · have bound := standins.bound v inv stage hers thread old nested
      exact ⟨bound.1, bound.2.trans (Nat.lt_succ_self _)⟩
  · intro v u inv other stage next mine hers thread left right nested shared
    rcases lookup v inv stage left with ⟨rfl, same⟩ | ⟨-, old⟩
    · rcases lookup u other next right with ⟨rfl, -⟩ | ⟨-, there⟩
      · rfl
      · cases same
        cases nested
        exact absurd (standins.bound u other next hers _ there shared).2 (Nat.lt_irrefl _)
    · rcases lookup u other next right with ⟨rfl, same⟩ | ⟨-, there⟩
      · cases same
        cases shared
        exact absurd (standins.bound v inv stage mine _ old nested).2 (Nat.lt_irrefl _)
      · exact standins.distinct v u inv other stage next mine hers thread old there nested shared
  · intro v inv thread read
    rcases lookup v inv _ read with ⟨-, same⟩ | ⟨-, old⟩
    · cases same
    · obtain ⟨nested, registered⟩ := standins.joining v inv thread old
      exact ⟨nested, registered.imp_right fun exited =>
        others thread _ (apartFrom thread _ exited (by simp)) exited⟩
  · intro thread member
    obtain ⟨present, v, inv, joins⟩ := standins.registered thread member
    exact ⟨fun exited => present (exitedBefore thread exited), v, inv, others v _ (apartFrom v _ joins (by simp)) joins⟩
  · intro unfinished thread exited
    obtain ⟨retired, rest⟩ := standins.staying unfinished thread (exitedBefore _ exited)
    refine ⟨retired, fun v inv stage hers read nested => ?_⟩
    rcases lookup v inv stage read with ⟨-, same⟩ | ⟨-, old⟩
    · cases same
      have bound := (List.getElem?_eq_some_iff.mp (exitedBefore _ exited)).1
      have fresh : s.threads.length = thread + 1 := (Prod.mk.inj (Option.some.inj nested)).2
      omega
    · exact rest v inv stage hers old nested

omit [DecidableEq Task] in
theorem standins_register (w thread : Nat) (inv : Invocation Task) (task : Task) (standins : Standins s)
    (stands : s.threads[w]? = some (.invoking inv .retire)) (nested : inv.nested = some (task, thread))
    (unfinished : s.inputQueue.finished = false) :
    Standins ({ s with inputQueue := s.inputQueue.threadEnd thread }.setThread w (.invoking inv (.joining thread))) := by
  have threads := set_thread_moves s
    ({ s with inputQueue := s.inputQueue.threadEnd thread }.setThread w (.invoking inv (.joining thread))) w _ rfl
  have lookup : ∀ v : Nat, (s.threads.set w (.invoking inv (.joining thread)))[v]? =
      if v = w then some (.invoking inv (.joining thread)) else s.threads[v]? :=
    fun v => Slots.lookup_set s.threads w v _ _ stands
  have exited : ∀ v : Nat, (s.threads.set w (.invoking inv (.joining thread)))[v]? = some .exited ↔
      s.threads[v]? = some .exited := by
    intro v
    rw [lookup]
    by_cases here : v = w
    · subst here
      simp [stands]
    · rw [if_neg here]
  have earlier : ∀ (v : Nat) other stage, (s.threads.set w (.invoking inv (.joining thread)))[v]? =
      some (.invoking other stage) → ∃ before, s.threads[v]? = some (.invoking other before) := by
    intro v other stage read
    rcases threads v other stage read with ⟨rfl, same⟩ | ⟨-, old⟩
    · cases same
      exact ⟨.retire, stands⟩
    · exact ⟨stage, old⟩
  have fresh : thread ∉ s.inputQueue.thEnd := by
    intro member
    obtain ⟨-, v, other, joins⟩ := standins.registered thread member
    obtain ⟨hers, theirs⟩ := (standins.joining v other thread joins).1
    have same := standins.distinct v w other inv _ _ hers task thread joins stands theirs nested
    subst same
    rw [joins] at stands
    cases stands
  have bound := standins.bound w inv _ task thread stands nested
  have present : s.threads[thread]? ≠ some .exited := by
    intro gone
    obtain ⟨before, rfl⟩ := Nat.exists_eq_succ_of_ne_zero (Nat.ne_of_gt (Nat.zero_lt_of_lt bound.1))
    have late := (standins.staying unfinished before gone).2 w inv _ task stands nested
    cases late
  refine ⟨?_, ?_, ?_, ?_, ?_, ?_⟩
  · intro v other stage hers there read theirs
    obtain ⟨before, old⟩ := earlier v other stage read
    simpa [setThread] using standins.bound v other before hers there old theirs
  · intro v u left right stage next mine hers there readLeft readRight nestedLeft nestedRight
    obtain ⟨first, oldLeft⟩ := earlier v left stage readLeft
    obtain ⟨second, oldRight⟩ := earlier u right next readRight
    exact standins.distinct v u left right first second mine hers there oldLeft oldRight nestedLeft nestedRight
  · intro v other there read
    rcases threads v other _ read with ⟨-, same⟩ | ⟨-, old⟩
    · cases same
      exact ⟨⟨task, nested⟩, .inl (List.mem_append_right _ List.mem_cons_self)⟩
    · obtain ⟨theirs, registered⟩ := standins.joining v other there old
      exact ⟨theirs, registered.imp (List.mem_append_left _) (exited there).mpr⟩
  · intro there member
    rcases List.mem_append.mp member with old | latest
    · obtain ⟨stays, v, other, joins⟩ := standins.registered there old
      have apart : v ≠ w := by
        rintro rfl
        rw [stands] at joins
        cases joins
      exact ⟨fun gone => stays ((exited there).mp gone), v, other, (lookup v).trans ((if_neg apart).trans joins)⟩
    · rw [List.mem_singleton.mp latest]
      exact ⟨fun gone => present ((exited thread).mp gone), w, inv, (lookup w).trans (if_pos rfl)⟩
  · refine standins.once.append (List.nodup_singleton thread) fun there old latest => ?_
    exact fresh (List.mem_singleton.mp latest ▸ old)
  · intro _ there gone
    obtain ⟨retired, others⟩ := standins.staying unfinished there ((exited _).mp gone)
    refine ⟨retired, fun v other stage hers read theirs => ?_⟩
    rcases threads v other stage read with ⟨rfl, same⟩ | ⟨-, old⟩
    · cases same
      have late := others v inv _ hers stands theirs
      cases late
    · exact others v other stage hers old theirs

omit [DecidableEq Task] in
theorem standins_join (w thread : Nat) (inv : Invocation Task) (task : Task) (standins : Standins s)
    (stands : s.threads[w]? = some (.invoking inv (.joining thread))) (gone : s.threads[thread]? = some .exited) :
    Standins (s.setThread w (.running task)) := by
  have threads := set_thread_moves s (s.setThread w (.running task)) w _ rfl
  have earlier : ∀ (v : Nat) other stage, (s.threads.set w (.running task))[v]? = some (.invoking other stage) →
      v ≠ w ∧ s.threads[v]? = some (.invoking other stage) := by
    intro v other stage read
    rcases threads v other stage read with ⟨-, same⟩ | old
    · cases same
    · exact old
  have others : ∀ v : Nat, v ≠ w → (s.threads.set w (.running task))[v]? = s.threads[v]? :=
    fun v apart => List.getElem?_set_ne (Ne.symm apart)
  have exited : ∀ v : Nat, (s.threads.set w (.running task))[v]? = some .exited ↔ s.threads[v]? = some .exited := by
    intro v
    by_cases here : v = w
    · subst here
      rw [Slots.lookup_set s.threads v v _ _ stands, if_pos rfl, stands]
      simp
    · rw [others v here]
  refine ⟨?_, ?_, ?_, ?_, standins.once, ?_⟩
  · intro v other stage hers there read theirs
    simpa [setThread] using standins.bound v other stage hers there (earlier v other stage read).2 theirs
  · intro v u left right stage next mine hers there readLeft readRight nestedLeft nestedRight
    exact standins.distinct v u left right stage next mine hers there (earlier v left stage readLeft).2
      (earlier u right next readRight).2 nestedLeft nestedRight
  · intro v other there read
    obtain ⟨theirs, registered⟩ := standins.joining v other there (earlier v other _ read).2
    exact ⟨theirs, registered.imp_right (exited there).mpr⟩
  · intro there member
    obtain ⟨stays, v, other, joins⟩ := standins.registered there member
    have apart : v ≠ w := by
      rintro rfl
      rw [stands] at joins
      cases joins
      exact stays gone
    exact ⟨fun left => stays ((exited there).mp left), v, other, (others v apart).trans joins⟩
  · intro unfinished there left
    obtain ⟨retired, rest⟩ := standins.staying unfinished there ((exited _).mp left)
    exact ⟨retired, fun v other stage hers read theirs => rest v other stage hers (earlier v other stage read).2 theirs⟩

theorem standins_step [Fintype Task] (s after : Operator Task Name) (label : OperatorLabel Task) (standins : Standins s)
    (roles : Roles s) (effect : Effect app s label after)
    (quiet : s.inputQueue.finished = true → ∀ (w : Nat) inv stage, s.threads[w]? = some (.invoking inv stage) → inv.nested = none) :
    Standins after := by
  have move : ∀ (w : Nat) (old pc : ThreadPc Task) (after : Operator Task Name), s.threads[w]? = some old →
      after.threads = s.threads.set w pc → after.workers = s.workers → after.inputQueue.thEnd = s.inputQueue.thEnd →
      (after.inputQueue.finished = false → s.inputQueue.finished = false) → old ≠ .exited → (pc = .exited → w = mainThread) →
      (∀ inv stage, pc = .invoking inv stage → inv.nested = none ∨ ∃ earlier, old = .invoking inv earlier) →
      (∀ inv thread, old ≠ .invoking inv (.joining thread) ∧ pc ≠ .invoking inv (.joining thread)) → Standins after :=
    fun w old pc after stands => standins_move after w old pc standins stands
  have onward : ∀ (w : Nat) (inv : Invocation Task) (stage next : InvokePc) (after : Operator Task Name),
      s.threads[w]? = some (.invoking inv stage) → after.threads = s.threads.set w (.invoking inv next) →
      after.workers = s.workers → after.inputQueue.thEnd = s.inputQueue.thEnd →
      after.inputQueue.finished = s.inputQueue.finished →
      (∀ thread, stage ≠ .joining thread ∧ next ≠ .joining thread) → Standins after := by
    intro w inv stage next after stands threads workers thEnd finished apart
    refine move w _ (.invoking inv next) after stands threads workers thEnd (finished ▸ id) (by simp) (by simp) ?_ ?_
    · rintro other later ⟨⟩
      exact .inr ⟨stage, rfl⟩
    · intro other thread
      simpa using And.intro (fun _ => (apart thread).1) fun _ => (apart thread).2
  have nobody : s.inputQueue.finished = true → s.inputQueue.thEnd = [] := by
    intro finished
    by_contra some
    obtain ⟨thread, member⟩ := List.exists_mem_of_ne_nil _ some
    obtain ⟨-, v, inv, joins⟩ := standins.registered thread member
    obtain ⟨task, nested⟩ := (standins.joining v inv thread joins).1
    rw [quiet finished v inv _ joins] at nested
    cases nested
  cases effect with
  | popRetired w n wake stands awake head =>
      obtain ⟨rest, shape⟩ := List.head?_eq_some_iff.mp head
      have once := standins.once
      rw [shape] at once
      obtain ⟨absent, restOnce⟩ := List.nodup_cons.mp once
      refine standins_leave _ w n standins stands rfl rfl (fun thread => ?_) (by simpa [setThread, shape] using restOnce) rfl
        (.inl (by simp [shape]))
      simp only [setThread, shape, List.tail_cons, List.mem_cons]
      constructor
      · exact fun member => ⟨.inr member, fun same => absent (same ▸ member)⟩
      · rintro ⟨same | member, apart⟩
        · exact absurd same apart
        · exact member
  | popClosed w n wake cv stands awake notHead finished =>
      refine standins_leave _ w n standins stands rfl rfl (fun thread => ?_) standins.once rfl (.inr finished)
      simp [setThread, nobody finished]
  | popWait w n wake stands =>
      exact move w _ (.popping n) _ stands rfl rfl rfl id (by simp) (by simp) (by simp) (by simp)
  | popTask w n wake cv task rest stands =>
      exact move w _ (.popped task) _ stands rfl rfl rfl id (by simp) (by simp) (by simp) (by simp)
  | start w task stands => exact move w _ (.running task) _ stands rfl rfl rfl id (by simp) (by simp) (by simp) (by simp)
  | call w root task stands => exact standins_call w root task standins roles stands
  | taskEnd w task stands => exact move w _ (.executed task) _ stands rfl rfl rfl id (by simp) (by simp) (by simp) (by simp)
  | complete w i task content stands =>
      exact move w _ (.popping 0) _ stands rfl rfl rfl id (by simp) (by simp) (by simp) (by simp)
  | reset w inv stands => exact onward w inv _ .trace _ stands rfl rfl rfl rfl (by simp)
  | traceBatch w needed inv status tracerState stands =>
      exact onward w inv _ (.assign s.fetchedTasks) _ stands rfl rfl rfl rfl (by simp)
  | traceNil w needed inv tracerState stands =>
      cases nested : inv.nested with
      | none =>
          refine move w _ (afterLoop inv) _ stands rfl rfl rfl id (by simp) ?_ ?_ ?_ <;> simp [afterLoop, nested]
      | some pair =>
          have next : afterLoop inv = .invoking inv .retire := by simp [afterLoop, nested]
          rw [next]
          exact onward w inv _ .retire _ stands rfl rfl rfl rfl (by simp)
  | traceError w needed inv error tracerState stands => exact onward w inv _ .raised _ stands rfl rfl rfl rfl (by simp)
  | assign w a inv stands => exact onward w inv _ (.push a) _ stands rfl rfl rfl rfl (by simp)
  | push w a inv wake cv stands => exact onward w inv _ (.collect a 0) _ stands rfl rfl rfl rfl (by simp)
  | collect w a taken inv b rest stands => exact onward w inv _ (.collect a (taken + 1)) _ stands rfl rfl rfl rfl (by simp)
  | stray w a taken inv b rest stands => exact onward w inv _ .raised _ stands rfl rfl rfl rfl (by simp)
  | again w a taken inv stands => exact onward w inv _ .reset _ stands rfl rfl rfl rfl (by simp)
  | threadEnd w thread inv task stands nested =>
      refine standins_register w thread inv task standins stands nested ?_
      by_contra closed
      rw [quiet (by simpa using closed) w inv _ stands] at nested
      cases nested
  | join w thread own inv task stands nested gone => exact standins_join w thread inv task standins stands gone
  | invokeTask name rest root stands =>
      refine move mainThread _ (.invoking ⟨root, s.outputs.length, none⟩ .reset) _ stands rfl rfl rfl id (by simp) (by simp) ?_
        (by simp)
      rintro inv stage ⟨⟩
      exact .inl rfl
  | invokeUnknown name rest stands =>
      exact move mainThread _ .exited _ stands rfl rfl rfl id (by simp) (fun _ => rfl) (by simp) (by simp)
  | finish wake cv stands =>
      exact move mainThread _ .joinWorkers _ stands rfl rfl rfl (by simp [setThread]) (by simp) (by simp) (by simp) (by simp)
  | joinWorkers stands => exact move mainThread _ .idle _ stands rfl rfl rfl id (by simp) (by simp) (by simp) (by simp)

omit [DecidableEq Task] in
theorem standins_new (n : Nat) (names : List Name) : Standins (new n names : Operator Task Name) := by
  refine ⟨fun w inv stage task thread read => absurd read (new_nobody n names w inv stage),
    fun w v inv other stage next task hers thread read => absurd read (new_nobody n names w inv stage),
    fun w inv thread read => absurd read (new_nobody n names w inv _), fun thread member => absurd member List.not_mem_nil,
    List.nodup_nil, fun _ thread exited => ?_⟩
  cases Slots.lookup_replicate n thread _ _ exited

end Moves

end Operator

end Pwrake
