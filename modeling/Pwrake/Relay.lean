import Pwrake.PoolInvariant

set_option autoImplicit false

namespace Pwrake

-- What a queue has to promise for its workers to be served: its state stays
-- sound, and pop_alt never leaves empty-handed while there is a task.
structure QueueLaws {Queue Task Host Choice : Type*} (ops : QueueOps Queue Task Host Choice) (Sound : Queue → Prop) :
    Prop where
  push : ∀ q task choice, Sound q → Sound (ops.push q task choice)
  pop : ∀ q host, Sound q → Sound (ops.pop q host).2
  popAlt : ∀ q host, Sound q → Sound (ops.popAlt q host).2
  steals : ∀ q host, Sound q → ops.isEmpty q = false → (ops.pop q host).1 = none →
    (ops.popAlt (ops.pop q host).2 host).1 ≠ none

-- From its third look on a turn does not come back without a task, when
-- pop_alt finds what pop left.
theorem TaskQueue.take_third {Queue Task Host Choice : Type*} (ops : QueueOps Queue Task Host Choice) (q : Queue) (host : Host)
    (n : Nat) (steals : (ops.pop q host).1 = none → (ops.popAlt (ops.pop q host).2 host).1 ≠ none) (third : 1 < n) :
    ∃ task, (TaskQueue.take ops q host n).1 = .task task := by
  unfold TaskQueue.take
  cases result : ops.pop q host with
  | mk found left =>
      rw [result] at steals
      cases found with
      | some task => exact ⟨task, rfl⟩
      | none =>
          simp only [if_pos third]
          cases second : ops.popAlt left host with
          | mk other rest =>
              cases other with
              | some task => exact ⟨task, rfl⟩
              | none => simp [second] at steals

namespace QueueLaws

variable {Queue Task Host Choice : Type*} {ops : QueueOps Queue Task Host Choice} {Sound : Queue → Prop}

theorem take_sound (laws : QueueLaws ops Sound) (q : Queue) (host : Host) (n : Nat) (sound : Sound q) :
    Sound (TaskQueue.take ops q host n).2 := by
  have popped := laws.pop q host sound
  unfold TaskQueue.take
  cases result : ops.pop q host with
  | mk found left =>
      rw [result] at popped
      cases found with
      | some task => exact popped
      | none =>
          have stolen := laws.popAlt left host popped
          dsimp only
          split
          · cases second : ops.popAlt left host with
            | mk other rest =>
                rw [second] at stolen
                cases other <;> exact stolen
          · exact popped

theorem push_all_sound (laws : QueueLaws ops Sound) (q : Queue) (tasks : List (Task × Choice)) (sound : Sound q) :
    Sound (TaskQueue.pushAll ops q tasks) := by
  induction tasks generalizing q with
  | nil => exact sound
  | cons task rest ih => exact ih _ (laws.push q task.1 task.2 sound)

theorem take_steals (laws : QueueLaws ops Sound) (q : Queue) (host : Host) (n : Nat) (sound : Sound q)
    (occupied : ops.isEmpty q = false) (third : 1 < n) : ∃ task, (TaskQueue.take ops q host n).1 = .task task :=
  TaskQueue.take_third ops q host n (laws.steals q host sound occupied) third

end QueueLaws

namespace Pool

variable {Queue Task Host Choice : Type*}

-- Neither finish nor stop is called.
def Open (_ : Pool Queue Task) : PoolLabel Task Choice → Prop
  | .stopEnter _ | .stopRaise _ | .stopSignal _ _ | .stopLeave _ | .finishRaise | .finishSignal _ => False
  | _ => True

instance (s : Pool Queue Task) (label : PoolLabel Task Choice) : Decidable (Open s label) := by
  cases label <;> unfold Open <;> infer_instance

section Counted

variable {ops : QueueOps Queue Task Host Choice} {Sound : Queue → Prop}

-- n never passes 2 in any of the places that carry it.
def patience : WorkerPc Task → Nat
  | .popping n | .checking n | .leaving (.wait n) => n
  | _ => 0

structure Counted (Sound : Queue → Prop) (n : Nat) (s : Pool Queue Task) : Prop where
  sound : Sound s.queue.q
  opened : s.queue.finished = false
  size : s.workers.length = n
  patient : ∀ (w : Nat) (pc : WorkerPc Task), s.workers[w]? = some pc → patience pc ≤ 2

theorem counted_init (q : Queue) (n : Nat) (sound : Sound q) : Counted Sound n (init q n : Pool Queue Task) where
  sound := sound
  opened := rfl
  size := List.length_replicate
  patient := by
    intro w pc read
    rw [Slots.lookup_replicate n w _ pc read]
    exact Nat.zero_le 2

theorem counted_set (n : Nat) (s : Pool Queue Task) (counted : Counted Sound n s) (w : Nat) (pc : WorkerPc Task)
    (patient : patience pc ≤ 2) : Counted Sound n (s.setWorker w pc) where
  sound := counted.sound
  opened := counted.opened
  size := by simpa [setWorker] using counted.size
  patient := by
    intro v found read
    rcases Slots.lookup_set_cases s.workers w v pc found read with ⟨-, rfl⟩ | ⟨-, old⟩
    · exact patient
    · exact counted.patient v found old

theorem counted_step (laws : QueueLaws ops Sound) (host : Nat → Host) (n : Nat) (s next : Pool Queue Task)
    (label : PoolLabel Task Choice) (wired : Wired s) (counted : Counted Sound n s) (opened : Open s label)
    (effect : Effect ops host s label next) : Counted Sound n next := by
  cases effect with
  | push tasks wake cv free signalled =>
      exact ⟨laws.push_all_sound s.queue.q tasks counted.sound, counted.opened, counted.size, counted.patient⟩
  | acquire w k stands free awake =>
      have held : Counted Sound n { s with m := some w, queue := { s.queue with cv := s.queue.cv.resume w } } :=
        ⟨counted.sound, counted.opened, counted.size, counted.patient⟩
      have bound : k ≤ 2 := counted.patient w _ stands
      exact counted_set n _ held w (.checking k) bound
  | check w k wake out queue stands turned =>
      have bound : k ≤ 2 := counted.patient w _ stands
      rcases TaskQueue.pop_turn_cases ops s.queue queue w (host w) k wake out turned with
        ⟨retires, -, -⟩ | ⟨-, closed, -⟩ | ⟨-, -, -, rfl, rfl⟩ | ⟨-, -, occupied, rfl, cv, -, rfl⟩
      · simp [wired.noRetirement] at retires
      · simp [counted.opened] at closed
      · have same : Counted Sound n { s with handed := s.record w (.wait k) } :=
          ⟨counted.sound, counted.opened, counted.size, counted.patient⟩
        exact counted_set n _ same w _ bound
      · have taken : Counted Sound n { s with
            queue := { s.queue with q := (TaskQueue.take ops s.queue.q (host w) k).2, cv := cv },
            handed := s.record w (TaskQueue.take ops s.queue.q (host w) k).1 } :=
          ⟨laws.take_sound s.queue.q (host w) k counted.sound, counted.opened, counted.size, counted.patient⟩
        apply counted_set n _ taken w
        rcases TaskQueue.take_cases ops s.queue.q (host w) k with ⟨task, served⟩ | waits
        · rw [served]
          exact Nat.zero_le 2
        · rw [waits]
          by_cases third : 1 < k
          · obtain ⟨task, served⟩ := laws.take_steals s.queue.q (host w) k counted.sound occupied third
            simp [served] at waits
          · change k + 1 ≤ 2
            omega
  | leave w out stands =>
      have bound := counted.patient w _ stands
      have freed : ∀ cv, Counted Sound n { s with m := none, queue := { s.queue with cv := cv } } :=
        fun _ => ⟨counted.sound, counted.opened, counted.size, counted.patient⟩
      cases out with
      | wait k => exact counted_set n _ (freed _) w (.popping k) bound
      | task task => exact counted_set n _ (freed s.queue.cv) w (.executing task) (Nat.zero_le 2)
      | retired => exact counted_set n _ (freed s.queue.cv) w .exited (Nat.zero_le 2)
      | closed => exact counted_set n _ (freed s.queue.cv) w .exited (Nat.zero_le 2)
  | taskEnd w task stands => exact counted_set n s counted w _ (Nat.zero_le 2)
  | fail w task stands => exact counted_set n s counted w _ (Nat.zero_le 2)
  | stopEnter => exact opened.elim
  | stopRaise => exact opened.elim
  | stopSignal => exact opened.elim
  | stopLeave => exact opened.elim
  | finishRaise => exact opened.elim
  | finishSignal => exact opened.elim

end Counted

section Minded

variable (ops : QueueOps Queue Task Host Choice) (host : Nat → Host)

-- Some worker other than the excluded one is awake at an eligible place.
def Awake (eligible : WorkerPc Task → Prop) (s : Pool Queue Task) (excluded : Nat → Prop) : Prop :=
  ∃ (v : Nat) (pc : WorkerPc Task), ¬ excluded v ∧ s.workers[v]? = some pc ∧ eligible pc ∧ v ∉ s.queue.cv.waiting

-- Who counts as somebody still to look at the queue. A thread in pop does.
structure Eligible (eligible : WorkerPc Task → Prop) : Prop where
  popping : ∀ n, eligible (.popping n)
  checking : ∀ n, eligible (.checking n)
  leaving : ∀ out, eligible (.leaving out)
  stopping : ∀ task, eligible (.executing task) → eligible .stopping

-- While a task is queued and somebody sleeps, somebody eligible is awake; and
-- the thread on its way out of a turn leaves such a thread behind.
structure Minded (eligible : WorkerPc Task → Prop) (s : Pool Queue Task) : Prop where
  awake : ops.isEmpty s.queue.q = false → s.queue.cv.waiting ≠ [] → Awake eligible s fun _ => False
  successor : ∀ (w : Nat) (out : PopOutcome Task), s.workers[w]? = some (.leaving out) →
    ops.isEmpty s.queue.q = false → s.queue.cv.waiting ≠ [] ∨ (∃ n, out = .wait n) → Awake eligible s (· = w)

-- A turn that finds nothing for its host while nobody sleeps wakes nobody.
def TurnedAway (s : Pool Queue Task) (w n : Nat) : Prop :=
  s.workers[w]? = some (.checking n) ∧ ops.isEmpty s.queue.q = false ∧ s.queue.cv.waiting = [] ∧
    (TaskQueue.take ops s.queue.q (host w) n).1 = .wait (n + 1)

theorem minded_init (eligible : WorkerPc Task → Prop) (q : Queue) (n : Nat) :
    Minded ops eligible (init q n : Pool Queue Task) where
  awake := fun _ sleepers => absurd rfl sleepers
  successor := by
    intro w out read
    cases Slots.lookup_replicate n w _ _ read

variable {ops host} {eligible : WorkerPc Task → Prop}

theorem awake_set (s : Pool Queue Task) (w : Nat) (old pc : WorkerPc Task) (stands : s.workers[w]? = some old)
    (kept : eligible old → eligible pc) (excluded : Nat → Prop) (awake : Awake eligible s excluded) :
    Awake eligible (s.setWorker w pc) excluded := by
  obtain ⟨v, found, other, read, fits, up⟩ := awake
  by_cases same : v = w
  · subst same
    have was : found = old := Option.some.inj (read.symm.trans stands)
    exact ⟨v, pc, other, by rw [set_worker_lookup s v v old pc stands, if_pos rfl], kept (was ▸ fits), up⟩
  · exact ⟨v, found, other, by rw [set_worker_lookup s w v old pc stands, if_neg same]; exact read, fits, up⟩

theorem minded_move (s : Pool Queue Task) (minded : Minded ops eligible s) (w : Nat) (old pc : WorkerPc Task)
    (stands : s.workers[w]? = some old) (kept : eligible old → eligible pc) (inside : ∀ out, pc ≠ .leaving out) :
    Minded ops eligible (s.setWorker w pc) where
  awake := by
    intro occupied sleepers
    exact awake_set s w old pc stands kept _ (minded.awake occupied sleepers)
  successor := by
    intro v out read occupied due
    rcases Slots.lookup_set_cases s.workers w v pc _ read with ⟨-, same⟩ | ⟨-, earlier⟩
    · exact absurd same.symm (inside out)
    · exact awake_set s w old pc stands kept _ (minded.successor v out earlier occupied due)

-- The thread a signal wakes stands in pop and no longer sleeps.
theorem signalled_awake (standards : Eligible eligible) (s : Pool Queue Task) (wired : Wired s) (wake : Option Nat)
    (cv : CondVar Nat) (signalled : s.queue.cv.signal wake = some cv) (sleepers : s.queue.cv.waiting ≠ []) :
    ∃ v n : Nat, v ∈ s.queue.cv.waiting ∧ s.workers[v]? = some (.popping n) ∧ eligible (.popping n) ∧ v ∉ cv.waiting := by
  rcases CondVar.signal_cases s.queue.cv cv wake signalled with ⟨idle, -⟩ | ⟨v, waits, rfl⟩
  · exact absurd idle sleepers
  · obtain ⟨n, stands⟩ := wired.waiters v waits
    exact ⟨v, n, waits, stands, standards.popping n, wired.tidy.waiting.not_mem_erase⟩

theorem minded_check (standards : Eligible eligible) (s : Pool Queue Task) (wired : Wired s)
    (opened : s.queue.finished = false) (w n : Nat)
    (wake : Option Nat) (out : PopOutcome Task) (queue : TaskQueue Queue Nat)
    (relays : TurnedAway ops host s w n → ∃ (v : Nat) (pc : WorkerPc Task), v ≠ w ∧ s.workers[v]? = some pc ∧ eligible pc)
    (stands : s.workers[w]? = some (.checking n))
    (turned : s.queue.popTurn ops w (host w) n wake = some (out, queue)) :
    Minded ops eligible ({ s with queue := queue, handed := s.record w out }.setWorker w (.leaving out)) := by
  obtain ⟨up, -⟩ := wired_outside wired w _ stands (by simp)
  have alone : ∀ (v : Nat) (other : PopOutcome Task), s.workers[v]? = some (.leaving other) → v = w := fun v other read =>
    Option.some.inj ((wired.owner v _ read rfl).symm.trans (wired.owner w _ stands rfl))
  rcases TaskQueue.pop_turn_cases ops s.queue queue w (host w) n wake out turned with
    ⟨retires, -, -⟩ | ⟨-, closed, -⟩ | ⟨-, -, vacant, rfl, rfl⟩ | ⟨-, -, occupied, rfl, cv, signalled, rfl⟩
  · simp [wired.noRetirement] at retires
  · simp [opened] at closed
  · constructor
    · intro occupied
      simp [setWorker, vacant] at occupied
    · intro v other _ occupied
      simp [setWorker, vacant] at occupied
  · have read := fun v pc => Slots.lookup_set s.workers w v (.checking n) pc stands
    constructor
    · intro _ sleepers
      exact ⟨w, .leaving (TaskQueue.take ops s.queue.q (host w) n).1, id, by simp only [setWorker, read, if_true],
        standards.leaving _, fun member => up (CondVar.signal_waiting _ cv wake signalled w member)⟩
    · intro v other found _ due
      have itself : v = w := by
        rcases Slots.lookup_set_cases s.workers w v _ _ found with ⟨same, -⟩ | ⟨-, earlier⟩
        · exact same
        · exact alone v other earlier
      subst itself
      simp only [setWorker, read, if_true, Option.some.injEq, WorkerPc.leaving.injEq] at found
      subst found
      by_cases sleepers : s.queue.cv.waiting = []
      · have quiet : cv.waiting = [] := by
          rcases CondVar.signal_cases s.queue.cv cv wake signalled with ⟨-, rfl⟩ | ⟨u, waits, -⟩
          · exact sleepers
          · simp [sleepers] at waits
        rcases due with sleeping | ⟨k, waits⟩
        · exact absurd quiet sleeping
        · rcases TaskQueue.take_cases ops s.queue.q (host v) n with ⟨task, served⟩ | fruitless
          · simp [served] at waits
          · obtain ⟨u, pc, different, there, fits⟩ := relays ⟨stands, occupied, sleepers, fruitless⟩
            exact ⟨u, pc, different, by simp only [setWorker, read, if_neg different, there], fits, by simp [setWorker, quiet]⟩
      · obtain ⟨u, k, waits, there, fits, woken⟩ := signalled_awake standards s wired wake cv signalled sleepers
        have different : u ≠ v := fun same => up (same ▸ waits)
        exact ⟨u, .popping k, different, by simp only [setWorker, read, if_neg different, there], fits, woken⟩

theorem minded_leave (s : Pool Queue Task) (wired : Wired s) (minded : Minded ops eligible s) (w : Nat)
    (out : PopOutcome Task) (stands : s.workers[w]? = some (.leaving out)) : Minded ops eligible (s.release w out) := by
  have alone : ∀ (v : Nat) (other : PopOutcome Task), s.workers[v]? = some (.leaving other) → v = w := fun v other read =>
    Option.some.inj ((wired.owner v _ read rfl).symm.trans (wired.owner w _ stands rfl))
  have left : ∀ (pc : WorkerPc Task), (∀ other, pc ≠ .leaving other) → ∀ (cv : CondVar Nat),
      (ops.isEmpty s.queue.q = false → cv.waiting ≠ [] → ∃ (v : Nat) (found : WorkerPc Task), v ≠ w ∧
        s.workers[v]? = some found ∧ eligible found ∧ v ∉ cv.waiting) →
      Minded ops eligible ({ s with m := none, queue := { s.queue with cv := cv } }.setWorker w pc) := by
    intro pc outside cv behind
    constructor
    · intro occupied sleepers
      obtain ⟨v, found, different, there, fits, up⟩ := behind occupied sleepers
      refine ⟨v, found, id, ?_, fits, up⟩
      simp only [setWorker, Slots.lookup_set s.workers w v _ pc stands, if_neg different, there]
    · intro v other read
      rcases Slots.lookup_set_cases s.workers w v pc _ read with ⟨-, same⟩ | ⟨different, earlier⟩
      · exact absurd same.symm (outside other)
      · exact absurd (alone v other earlier) different
  have others : ops.isEmpty s.queue.q = false → s.queue.cv.waiting ≠ [] → ∃ (v : Nat) (found : WorkerPc Task), v ≠ w ∧
      s.workers[v]? = some found ∧ eligible found ∧ v ∉ s.queue.cv.waiting :=
    fun occupied sleepers => minded.successor w out stands occupied (.inl sleepers)
  cases out with
  | wait n =>
      refine left (.popping n) (by simp) (s.queue.cv.wait w) ?_
      intro occupied _
      obtain ⟨v, found, different, there, fits, up⟩ := minded.successor w _ stands occupied (.inr ⟨n, rfl⟩)
      exact ⟨v, found, different, there, fits, by simp [CondVar.wait, different, up]⟩
  | task task => exact left (.executing task) (by simp) s.queue.cv others
  | retired => exact left .exited (by simp) s.queue.cv others
  | closed => exact left .exited (by simp) s.queue.cv others

theorem minded_step (standards : Eligible eligible) (s next : Pool Queue Task) (label : PoolLabel Task Choice)
    (wired : Wired s) (unfinished : s.queue.finished = false) (minded : Minded ops eligible s) (opened : Open s label)
    (relays : ∀ w n, (∃ wake, label = .check w wake) → TurnedAway ops host s w n →
      ∃ (v : Nat) (pc : WorkerPc Task), v ≠ w ∧ s.workers[v]? = some pc ∧ eligible pc)
    (effect : Effect ops host s label next) : Minded ops eligible next := by
  cases effect with
  | push tasks wake cv free signalled =>
      constructor
      · intro _ sleepers
        have slept : s.queue.cv.waiting ≠ [] := by
          obtain ⟨v, member⟩ := List.exists_mem_of_ne_nil _ sleepers
          exact List.ne_nil_of_mem (CondVar.signal_waiting _ cv wake signalled v member)
        obtain ⟨v, n, -, there, fits, woken⟩ := signalled_awake standards s wired wake cv signalled slept
        exact ⟨v, .popping n, id, there, fits, woken⟩
      · intro w out read
        exact nomatch free.symm.trans (wired.owner w _ read rfl)
  | acquire w n stands free awake =>
      constructor
      · intro _ _
        exact ⟨w, .checking n, id, by simp only [setWorker, Slots.lookup_set s.workers w w _ _ stands, if_true],
          standards.checking n, awake⟩
      · intro v out read
        rcases Slots.lookup_set_cases s.workers w v _ _ read with ⟨-, same⟩ | ⟨-, earlier⟩
        · cases same
        · exact nomatch free.symm.trans (wired.owner v _ earlier rfl)
  | check w n wake out queue stands turned =>
      exact minded_check standards s wired unfinished w n wake out queue (relays w n ⟨wake, rfl⟩) stands turned
  | leave w out stands => exact minded_leave s wired minded w out stands
  | taskEnd w task stands =>
      exact minded_move s minded w _ _ stands (fun _ => standards.popping 0) (by simp)
  | fail w task stands =>
      exact minded_move s minded w _ _ stands (standards.stopping task) (by simp)
  | stopEnter => exact opened.elim
  | stopRaise => exact opened.elim
  | stopSignal => exact opened.elim
  | stopLeave => exact opened.elim
  | finishRaise => exact opened.elim
  | finishSignal => exact opened.elim

end Minded

end Pool

end Pwrake
