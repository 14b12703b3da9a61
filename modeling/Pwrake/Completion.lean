import Pwrake.SingleInvoker

set_option autoImplicit false

namespace Pwrake

namespace Operator

open Tracer

variable {Task Name Scope : Type*} [DecidableEq Task]

-- What a thread still has to do, in steps, with what its steps hand on to the
-- queues counted in.
def load (s : Operator Task Name) : ThreadPc Task → Nat
  | .popping _ => 2
  | .popped _ => 6
  | .running _ => 5
  | .executed _ => 4
  | .invoking _ .reset => 6
  | .invoking _ .trace => 5
  | .invoking _ (.assign a) => 10 + 6 * (s.batch a).length
  | .invoking _ (.push a) => 9 + 6 * (s.batch a).length
  | .invoking _ (.collect _ _) => 7
  | .invoking _ _ => 0
  | .idle => 0
  | .finishing => 3
  | .joinWorkers => 1
  | .exited => 0

def loads (s : Operator Task Name) : Nat := (s.threads.map s.load).sum

def delivered (s : Operator Task Name) : Nat := (s.outputs.map List.length).sum

variable [Fintype Task]

def unfetched (s : Operator Task Name) : Nat := s.fetchedᶜ.card

-- A woken thread may go back to wait, so a thread that does not wait counts
-- one more than one that does.
def work (s : Operator Task Name) : Nat :=
  12 * s.unfetched + 6 * s.inputQueue.q.length + s.delivered + 7 * s.todo.length + s.loads +
    (s.threads.length - s.inputQueue.cv.waiting.length)

section Measure

variable {app : Application Task Name Scope} {s : Operator Task Name} {names : List Name}

omit [DecidableEq Task] [Fintype Task] in
theorem waiting_bounded (parked : Parked s) : s.inputQueue.cv.waiting.length ≤ s.threads.length := by
  have inside : s.inputQueue.cv.waiting ⊆ List.range s.threads.length := by
    intro w waits
    obtain ⟨n, stands⟩ := parked.waiters w waits
    exact List.mem_range.mpr (List.getElem?_eq_some_iff.mp stands).1
  simpa using (List.subperm_of_subset parked.tidy.waiting inside).length_le

omit [DecidableEq Task] [Fintype Task] in
theorem signal_length (cv next : CondVar Nat) (wake : Option Nat) (signalled : cv.signal wake = some next) :
    cv.waiting.length ≤ next.waiting.length + 1 := by
  rcases CondVar.signal_cases cv next wake signalled with ⟨-, rfl⟩ | ⟨thread, waits, rfl⟩
  · exact Nat.le_succ _
  · simp only [List.length_erase_of_mem waits]
    omega

omit [DecidableEq Task] [Fintype Task] in
theorem loads_set (after : Operator Task Name) (w : Nat) (old pc : ThreadPc Task) (stands : s.threads[w]? = some old)
    (threads : after.threads = s.threads.set w pc) (batch : after.batch = s.batch) :
    after.loads + s.load old = s.loads + s.load pc := by
  have same : after.load = s.load := by
    funext place
    unfold load
    rw [batch]
  unfold loads
  rw [threads, same]
  exact Slots.sum_set s.load s.threads w old pc stands

theorem work_move (after : Operator Task Name) (w : Nat) (old pc : ThreadPc Task) (parked : Parked s) (parkedAfter : Parked after)
    (stands : s.threads[w]? = some old) (threads : after.threads = s.threads.set w pc) (batch : after.batch = s.batch)
    (less : 12 * after.unfetched + 6 * after.inputQueue.q.length + after.delivered + 7 * after.todo.length + s.load pc +
        s.inputQueue.cv.waiting.length <
      12 * s.unfetched + 6 * s.inputQueue.q.length + s.delivered + 7 * s.todo.length + s.load old +
        after.inputQueue.cv.waiting.length) :
    after.work < s.work := by
  have moved := loads_set after w old pc stands threads batch
  have bound := waiting_bounded parked
  have boundAfter := waiting_bounded parkedAfter
  have length : after.threads.length = s.threads.length := by rw [threads, List.length_set]
  unfold work
  omega

omit [Fintype Task] [DecidableEq Task] in
theorem delivered_set (s : Operator Task Name) (i : Nat) (content fresh : List Task) (output : s.outputs[i]? = some content) :
    ((s.outputs.set i fresh).map List.length).sum + content.length = s.delivered + fresh.length :=
  Slots.sum_set List.length s.outputs i content fresh output

theorem fetched_fewer (before after : Finset Task) (added : List Task) (distinct : added.Nodup)
    (grows : before ⊆ after) (chosen : ∀ task ∈ added, task ∈ after ∧ task ∉ before) :
    afterᶜ.card + added.length ≤ beforeᶜ.card := by
  have apart : Disjoint afterᶜ added.toFinset := by
    rw [Finset.disjoint_left]
    intro task outside inside
    exact Finset.mem_compl.mp outside (chosen task (List.mem_toFinset.mp inside)).1
  have inside : afterᶜ ∪ added.toFinset ⊆ beforeᶜ := by
    refine Finset.union_subset (Finset.compl_subset_compl.mpr grows) fun task member => ?_
    exact Finset.mem_compl.mpr (chosen task (List.mem_toFinset.mp member)).2
  calc afterᶜ.card + added.length = afterᶜ.card + added.toFinset.card := by rw [List.toFinset_card_of_nodup distinct]
    _ = (afterᶜ ∪ added.toFinset).card := (Finset.card_union_of_disjoint apart).symm
    _ ≤ beforeᶜ.card := Finset.card_le_card inside

theorem work_batch (w : Nat) (needed : Task → Bool) (inv : Invocation Task) (status : Status) (tracerState : TraceState Task)
    (single : Single app names s) (stands : s.threads[w]? = some (.invoking inv .trace))
    (result : availableTask app needed inv.root s.tracer = (.ok (some status), tracerState))
    (next : Single app names (((s.traced tracerState).handOut ⟨s.fetchedTasks, inv.outputQueue⟩).setThread w
      (.invoking inv (.assign s.fetchedTasks)))) :
    (((s.traced tracerState).handOut ⟨s.fetchedTasks, inv.outputQueue⟩).setThread w
      (.invoking inv (.assign s.fetchedTasks))).work < s.work := by
  obtain ⟨-, fresh⟩ := single.solitary.scratch w inv stands
  obtain ⟨added, outcome, returns⟩ :=
    trace_returns s w needed inv status tracerState single.crewed.books.shape fresh stands result
  have fewer : tracerState.fetchedᶜ.card + added.length ≤ s.fetchedᶜ.card := by
    refine fetched_fewer s.fetched tracerState.fetched added outcome.distinct (fun task member => ?_) fun task member => ?_
    · exact (outcome.fetched task).mpr (.inl member)
    · exact ⟨(outcome.fetched task).mpr (.inr (.inl member)), (outcome.chosen task member).2.1⟩
  have same : (((s.traced tracerState).handOut ⟨s.fetchedTasks, inv.outputQueue⟩).setThread w
      (.invoking inv (.assign s.fetchedTasks))).delivered = s.delivered ∧
    (((s.traced tracerState).handOut ⟨s.fetchedTasks, inv.outputQueue⟩).setThread w
      (.invoking inv (.assign s.fetchedTasks))).inputQueue = s.inputQueue ∧
    (((s.traced tracerState).handOut ⟨s.fetchedTasks, inv.outputQueue⟩).setThread w
      (.invoking inv (.assign s.fetchedTasks))).fetched = tracerState.fetched := ⟨rfl, rfl, rfl⟩
  generalize ((s.traced tracerState).handOut ⟨s.fetchedTasks, inv.outputQueue⟩).setThread w
    (.invoking inv (.assign s.fetchedTasks)) = after at returns next same ⊢
  obtain ⟨delivered, queue, fetched⟩ := same
  have some : added ≠ [] := by
    have nonempty := next.served.nonempty ⟨s.fetchedTasks, inv.outputQueue⟩ (by simp [returns.calls])
    simpa [returns.batch] using nonempty
  -- the threads beside the invoker hold no array
  have others : s.threads.map after.load = s.threads.map s.load := by
    refine List.map_congr_left fun pc member => ?_
    obtain ⟨v, there⟩ := List.mem_iff_getElem?.mp member
    cases pc with
    | invoking other stage =>
        have main := solitary_main single.crewed.roles single.solitary v other stage there
        rw [main, ← solitary_main single.crewed.roles single.solitary w inv _ stands, stands] at there
        cases there
        rfl
    | _ => rfl
  have moved := Slots.sum_set after.load s.threads w _ (.invoking inv (.assign s.fetchedTasks)) stands
  rw [others, ← returns.threads] at moved
  have before : after.load (.invoking inv .trace) = 5 := rfl
  have held : after.load (.invoking inv (.assign s.fetchedTasks)) = 10 + 6 * added.length := by
    simp [load, returns.batch]
  have positive := List.length_pos_iff.mpr some
  have length : after.threads.length = s.threads.length := by rw [returns.threads, List.length_set]
  unfold work unfetched loads
  rw [queue, delivered, fetched, returns.todo, length]
  omega

theorem work_step (after : Operator Task Name) (label : OperatorLabel Task) (single : Single app names s)
    (next : Single app names after) (noNested : NoNested label) (effect : Effect app s label after) :
    after.work < s.work := by
  have parked := single.crewed.parked
  have parkedAfter := next.crewed.parked
  have vacant := standins_unregistered single.crewed.standins single.solitary.alone
  cases effect with
  | popRetired w n wake stands awake head =>
      rw [vacant] at head
      cases head
  | popClosed w n wake cv stands awake notHead finished signalled =>
      have woken := signal_length _ cv wake signalled
      refine work_move _ w _ .exited parked parkedAfter stands rfl rfl ?_
      simp only [CondVar.resume, load, unfetched, delivered, setThread] at woken ⊢
      omega
  | popWait w n wake stands =>
      refine work_move _ w _ (.popping n) parked parkedAfter stands rfl rfl ?_
      simp only [CondVar.resume, CondVar.wait, load, unfetched, delivered, setThread, List.length_cons]
      omega
  | popTask w n wake cv task rest stands awake notHead unfinished content signalled =>
      have woken := signal_length _ cv wake signalled
      refine work_move _ w _ (.popped task) parked parkedAfter stands rfl rfl ?_
      simp only [CondVar.resume, load, unfetched, delivered, setThread, content, List.length_cons] at woken ⊢
      omega
  | start w task stands =>
      refine work_move _ w _ (.running task) parked parkedAfter stands rfl rfl ?_
      simp only [load, unfetched, delivered, setThread]
      omega
  | call w root task stands => exact absurd noNested (no_nested_call w root)
  | taskEnd w task stands =>
      refine work_move _ w _ (.executed task) parked parkedAfter stands rfl rfl ?_
      simp only [load, unfetched, delivered, setThread]
      omega
  | complete w i task content stands owner output =>
      have put := delivered_set s i content (content ++ [task]) output
      refine work_move _ w _ (.popping 0) parked parkedAfter stands rfl rfl ?_
      simp only [load, unfetched, delivered, setThread, List.length_append, List.length_singleton] at put ⊢
      omega
  | reset w inv stands =>
      refine work_move _ w _ (.invoking inv .trace) parked parkedAfter stands rfl (funext (batch_append s)) ?_
      simp only [load, unfetched, delivered, setThread]
      omega
  | traceBatch w needed inv status tracerState stands result =>
      exact work_batch w needed inv status tracerState single stands result next
  | traceNil w needed inv tracerState stands result =>
      obtain ⟨added, outcome⟩ := trace_outcome app needed inv.root s.tracer _ tracerState result
      have fewer : tracerState.fetchedᶜ.card ≤ s.fetchedᶜ.card :=
        Finset.card_le_card (Finset.compl_subset_compl.mpr fun task member => (outcome.fetched task).mpr (.inl member))
      have same : (s.traced tracerState).batch = s.batch := by
        funext a
        simp only [batch, (trace_nil s needed inv.root tracerState result).2.2]
      have left := after_loop_main inv (single.solitary.alone w inv _ stands)
      refine work_move _ w _ (afterLoop inv) parked parkedAfter stands rfl same ?_
      simp only [load, unfetched, delivered, setThread, traced, left]
      omega
  | traceError w needed inv error tracerState stands =>
      refine absurd ?_ (next.crewed.books.routing.sound w inv)
      simp [setThread, traced, Slots.lookup_set s.threads w w _ _ stands]
  | assign w a inv stands =>
      refine work_move _ w _ (.invoking inv (.push a)) parked parkedAfter stands rfl rfl ?_
      simp only [load, unfetched, delivered, setThread]
      omega
  | push w a inv wake cv stands signalled =>
      have woken := signal_length _ cv wake signalled
      refine work_move _ w _ (.invoking inv (.collect a 0)) parked parkedAfter stands rfl rfl ?_
      simp only [load, unfetched, delivered, setThread, List.length_append]
      omega
  | collect w a taken inv b rest stands short output =>
      have took := delivered_set s inv.outputQueue (b :: rest) rest output
      refine work_move _ w _ (.invoking inv (.collect a (taken + 1))) parked parkedAfter stands rfl rfl ?_
      simp only [load, unfetched, delivered, setThread, List.length_cons] at took ⊢
      omega
  | stray w a taken inv b rest stands short output =>
      have took := delivered_set s inv.outputQueue (b :: rest) rest output
      refine work_move _ w _ (.invoking inv .raised) parked parkedAfter stands rfl rfl ?_
      simp only [load, unfetched, delivered, setThread, List.length_cons] at took ⊢
      omega
  | again w a taken inv stands =>
      refine work_move _ w _ (.invoking inv .reset) parked parkedAfter stands rfl rfl ?_
      simp only [load, unfetched, delivered, setThread]
      omega
  | threadEnd w thread inv task stands nested =>
      rw [single.solitary.alone w inv _ stands] at nested
      cases nested
  | join w thread own inv task stands nested =>
      rw [single.solitary.alone w inv _ stands] at nested
      cases nested
  | invokeTask name rest root stands queued =>
      refine work_move _ mainThread _ (.invoking ⟨root, s.outputs.length, none⟩ .reset) parked parkedAfter stands rfl rfl ?_
      simp only [load, unfetched, delivered, setThread, queued, List.length_cons, List.map_append, List.sum_append]
      simp only [List.map_cons, List.map_nil, List.sum_cons, List.sum_nil, List.length_nil]
      omega
  | invokeUnknown name rest stands queued =>
      refine work_move _ mainThread _ .exited parked parkedAfter stands rfl rfl ?_
      simp only [load, unfetched, delivered, setThread, queued, List.length_cons]
      omega
  | finish wake cv stands signalled =>
      have woken := signal_length _ cv wake signalled
      refine work_move _ mainThread _ .joinWorkers parked parkedAfter stands rfl rfl ?_
      simp only [load, unfetched, delivered, setThread]
      omega
  | joinWorkers stands =>
      refine work_move _ mainThread _ .idle parked parkedAfter stands rfl rfl ?_
      simp only [load, unfetched, delivered, setThread]
      omega

end Measure

def answering : OperatorLabel Task → Option (Task → Bool)
  | .trace _ answers => some answers
  | _ => none

-- A trace is answered by the oracle; the other labels ask it nothing.
def Answers (needed : Task → Bool) (label : OperatorLabel Task) : Prop := ∀ answers ∈ answering label, answers = needed

omit [DecidableEq Task] [Fintype Task] in
theorem asks_nothing (needed : Task → Bool) (label : OperatorLabel Task) (quiet : answering label = none) :
    Answers needed label := by simp [Answers, quiet]

def Enabled (app : Application Task Name Scope) (needed : Task → Bool) (s : Operator Task Name) : Prop :=
  ∃ label after, NoNested label ∧ Answers needed label ∧ step app s label = some after

section Progress

variable {app : Application Task Name Scope} {needed : Task → Bool} {s : Operator Task Name} {names : List Name}

theorem pop_enabled (w n : Nat) (stands : s.threads[w]? = some (.popping n)) (awake : w ∉ s.inputQueue.cv.waiting) :
    Enabled app needed s := by
  obtain ⟨wake, out, queue, turned⟩ :=
    TaskQueue.pop_turn_enabled SimpleQueue.ops (awakened s.inputQueue w) w () n
  refine ⟨.pop w wake, { s with inputQueue := parked queue w out }.setThread w (afterPop out), rfl, asks_nothing _ _ rfl, ?_⟩
  simp only [step, stands, if_neg awake, turned, Option.map_some]

-- Of the threads in pop, one that was notified is not waiting any more.
theorem notified_enabled (parked : Parked s) (woken : s.inputQueue.cv.notified ≠ []) : Enabled app needed s := by
  obtain ⟨w, member⟩ := List.exists_mem_of_ne_nil _ woken
  obtain ⟨n, stands⟩ := parked.woken w member
  exact pop_enabled w n stands fun waits => parked.tidy.disjoint w waits member

theorem holder_enabled (single : Single app names s) (w : Nat) (pc : ThreadPc Task) (task : Task)
    (stands : s.threads[w]? = some pc) (holds : Holds pc task) : Enabled app needed s := by
  cases pc with
  | popped other => exact ⟨.start w, _, rfl, asks_nothing _ _ rfl, by simp only [step, stands]; rfl⟩
  | running other => exact ⟨.taskEnd w, _, rfl, asks_nothing _ _ rfl, by simp only [step, stands]; rfl⟩
  | executed other =>
      obtain ⟨pushed, uncollected⟩ := executed_pending single.crewed.books.ledger w other stands
      obtain ⟨-, inv, -, -, -, -, -, owner⟩ :=
        pending_owner single.crewed.books.shape single.crewed.books.ledger single.crewed.books.routing other pushed uncollected
      have output := List.getElem?_eq_getElem (single.crewed.timed.issued other _ owner)
      exact ⟨.complete w, _, rfl, asks_nothing _ _ rfl, by simp only [step, stands, owner, output]; rfl⟩
  | invoking inv stage =>
      have alone := single.solitary.alone w inv stage stands
      simp [Holds, popped, running, executed, alone] at holds
  | _ => simp [Holds, popped, running, executed] at holds

-- A queued task finds a worker: one that was notified for it, or thread 1.
theorem queued_enabled (single : Single app names s) (staff : 1 ≤ s.workers) (unfinished : s.inputQueue.finished = false)
    (queued : s.inputQueue.q ≠ []) : Enabled app needed s := by
  by_cases waiters : s.inputQueue.cv.waiting = []
  · have present : 1 < s.threads.length := Nat.lt_of_le_of_lt staff single.crewed.roles.hired
    have stands := List.getElem?_eq_getElem present
    rcases worker_places single.crewed.roles 0 _ stands with (⟨n, pops⟩ | gone) | ⟨task, holds⟩
    · exact pop_enabled 1 n (pops ▸ stands) (by simp [waiters])
    · have late := (single.crewed.standins.staying unfinished 0 (gone ▸ stands)).1
      omega
    · exact holder_enabled single 1 _ task stands holds
  · obtain ⟨thread, woken, -⟩ := single.crewed.alert.awake queued waiters
    exact notified_enabled single.crewed.parked (List.ne_nil_of_mem woken)

theorem collecting_enabled (single : Single app names s) (staff : 1 ≤ s.workers) (unfinished : s.inputQueue.finished = false)
    (w a taken : Nat) (inv : Invocation Task) (stands : s.threads[w]? = some (.invoking inv (.collect a taken))) :
    Enabled app needed s := by
  by_cases short : taken < (s.batch a).length
  · obtain ⟨content, output⟩ : ∃ content, s.outputs[inv.outputQueue]? = some content :=
      ⟨_, List.getElem?_eq_getElem (single.crewed.books.shape.queues w inv _ stands)⟩
    cases content with
    | nil =>
        obtain ⟨task, -, queued | ⟨v, pc, there, holds⟩⟩ :=
          collecting_waits_for single.crewed.books w a taken inv stands short output
        · exact queued_enabled single staff unfinished (List.ne_nil_of_mem queued)
        · exact holder_enabled single v pc task there holds
    | cons b rest =>
        exact ⟨.collect w, _, rfl, asks_nothing _ _ rfl, by simp only [step, stands, if_pos short, output]; rfl⟩
  · exact ⟨.again w, _, rfl, asks_nothing _ _ rfl, by simp only [step, stands, if_neg short]; rfl⟩

-- After finish every worker is in pop or gone, and one that waits is woken.
theorem joining_enabled (single : Single app names s) (stands : s.threads[mainThread]? = some .joinWorkers)
    (finished : s.inputQueue.finished = true) : Enabled app needed s := by
  by_cases gone : s.WorkersExited
  · exact ⟨.joinWorkers, _, rfl, asks_nothing _ _ rfl, by simp only [step, stands, if_pos gone]; rfl⟩
  · obtain ⟨i, hired, stays⟩ : ∃ i < s.workers, s.threads[i + 1]? ≠ some .exited := by
      by_contra all
      exact gone fun i hired => by_contra fun stays => all ⟨i, hired, stays⟩
    have present : i + 1 < s.threads.length := by
      have hires := single.crewed.roles.hired
      omega
    have there := List.getElem?_eq_getElem present
    rcases single.crewed.quiet finished i _ there with ⟨n, pops⟩ | exited
    · by_cases waits : i + 1 ∈ s.inputQueue.cv.waiting
      · exact notified_enabled single.crewed.parked (single.crewed.alert.closing finished (List.ne_nil_of_mem waits))
      · exact pop_enabled (i + 1) n (pops ▸ there) waits
    · exact absurd (exited ▸ there) stays

theorem push_enabled (w a : Nat) (inv : Invocation Task) (stands : s.threads[w]? = some (.invoking inv (.push a))) :
    Enabled app needed s := by
  obtain ⟨wake, cv, signalled⟩ := CondVar.signal_enabled s.inputQueue.cv
  obtain ⟨after, taken⟩ : ∃ after, step app s (.push w wake) = some after := by
    simp [step, stands, pushBatch, TaskQueue.push, TaskQueue.signal, signalled]
  exact ⟨.push w wake, after, rfl, asks_nothing _ _ rfl, taken⟩

theorem finish_enabled (stands : s.threads[mainThread]? = some .finishing) : Enabled app needed s := by
  obtain ⟨wake, cv, signalled⟩ := CondVar.signal_enabled s.inputQueue.cv
  obtain ⟨after, taken⟩ : ∃ after, step app s (.finish wake) = some after := by
    simp [step, stands, TaskQueue.finish, TaskQueue.raiseFinished, TaskQueue.signal, signalled]
  exact ⟨.finish wake, after, rfl, asks_nothing _ _ rfl, taken⟩

theorem trace_enabled (w : Nat) (inv : Invocation Task) (stands : s.threads[w]? = some (.invoking inv .trace)) :
    Enabled app needed s := by
  have asked : Answers needed (.trace w needed) := fun answers given => (Option.some.inj given).symm
  refine ⟨.trace w needed, ?_⟩
  simp only [step, stands]
  split
  · exact ⟨_, rfl, asked, rfl⟩
  · exact ⟨_, rfl, asked, rfl⟩
  · exact ⟨_, rfl, asked, rfl⟩

end Progress

end Operator

end Pwrake
