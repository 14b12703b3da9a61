import Pwrake.Holding
import Pwrake.PoolInvariant

set_option autoImplicit false

namespace Pwrake.Pool

variable {Queue Task Host Choice : Type*}

-- n never passes 2, whoever fails and whoever calls finish or stop.
def Patient (s : Pool Queue Task) : Prop := ∀ (w : Nat) (pc : WorkerPc Task), s.workers[w]? = some pc → patience pc ≤ 2

-- What the places of a worker cost. A turn that takes nothing from a queue
-- with tasks in it has used up one of three looks; the task it takes has been
-- paid for by the push.
def placeWeight : WorkerPc Task → Nat
  | .popping n => 6 + 3 * (2 - n)
  | .checking n => 5 + 3 * (2 - n)
  | .leaving (.wait n) => 4 + 3 * (2 - n)
  | .leaving (.task _) => 17
  | .leaving _ => 1
  | .executing _ => 16
  | .stopping => 10
  | .stopRaising => 9
  | .stopSignalling => 8
  | .stopLeaving => 2
  | .exited => 0

def awakeCount (s : Pool Queue Task) : Nat := s.workers.length - s.queue.cv.waiting.length

-- A signal pays three for the waiter it may wake.
def weight (content : Queue → Finset Task) (s : Pool Queue Task) : Nat :=
  20 * (content s.queue.q).card + (s.workers.map placeWeight).sum + 3 * s.awakeCount

theorem patient_init (q : Queue) (n : Nat) : Patient (init q n : Pool Queue Task) := by
  intro w pc stands
  rw [Slots.lookup_replicate n w _ pc stands]
  exact Nat.zero_le 2

section Signals

variable {s : Pool Queue Task}

theorem signal_count (cv : CondVar Nat) (wake : Option Nat) (signalled : s.queue.cv.signal wake = some cv) :
    s.workers.length - cv.waiting.length ≤ s.awakeCount + 1 := by
  unfold awakeCount
  rcases CondVar.signal_cases s.queue.cv cv wake signalled with ⟨-, rfl⟩ | ⟨v, waits, rfl⟩
  · omega
  · rw [List.length_erase_of_mem waits]
    omega

-- A thread outside the waiters leaves room for one more of them.
theorem waiting_room (wired : Wired s) (w : Nat) (pc : WorkerPc Task) (stands : s.workers[w]? = some pc)
    (outside : w ∉ s.queue.cv.waiting) : s.queue.cv.waiting.length + 1 ≤ s.workers.length := by
  have distinct : (w :: s.queue.cv.waiting).Nodup := List.nodup_cons.mpr ⟨outside, wired.tidy.waiting⟩
  have inside : (w :: s.queue.cv.waiting).toFinset ⊆ Finset.range s.workers.length := by
    intro v member
    rw [List.mem_toFinset, List.mem_cons] at member
    rw [Finset.mem_range]
    rcases member with rfl | waits
    · exact (List.getElem?_eq_some_iff.mp stands).1
    · obtain ⟨n, there⟩ := wired.waiters v waits
      exact (List.getElem?_eq_some_iff.mp there).1
  have bound := Finset.card_le_card inside
  rwa [List.toFinset_card_of_nodup distinct, Finset.card_range, List.length_cons] at bound

theorem place_set (w : Nat) (old pc : WorkerPc Task) (stands : s.workers[w]? = some old) :
    ((s.setWorker w pc).workers.map placeWeight).sum + placeWeight old = (s.workers.map placeWeight).sum + placeWeight pc :=
  Slots.sum_set placeWeight s.workers w old pc stands

end Signals

section Steps

variable [DecidableEq Task] {ops : QueueOps Queue Task Host Choice} {host : Nat → Host} {Stored : Queue → Prop}
  {content : Queue → Finset Task} {s : Pool Queue Task}

theorem take_patience (store : QueueStore ops Stored content) (q : Queue) (stored : Stored q) (host : Host) (n : Nat)
    (occupied : ops.isEmpty q = false) (bound : n ≤ 2) (waits : (TaskQueue.take ops q host n).1 = .wait (n + 1)) : n < 2 := by
  by_contra third
  obtain ⟨task, took⟩ := store.take_steals q host n stored occupied (by omega)
  simp [took] at waits

theorem patient_step (store : QueueStore ops Stored content) (next : Pool Queue Task) (label : PoolLabel Task Choice)
    (wired : Wired s) (stored : Stored s.queue.q) (patient : Patient s) (effect : Effect ops host s label next) :
    Patient next := by
  by_cases looks : ∃ w wake, label = .check w wake
  · obtain ⟨w, wake, rfl⟩ := looks
    cases effect with
    | check _ n _ out queue stands turned =>
        have bound : n ≤ 2 := patient w _ stands
        intro v pc read
        rcases Slots.lookup_set_cases s.workers w v _ pc read with ⟨-, rfl⟩ | ⟨-, earlier⟩
        · rcases TaskQueue.pop_turn_cases ops s.queue queue w (host w) n wake out turned with
            ⟨retires, -, -⟩ | ⟨-, -, rfl, -⟩ | ⟨-, -, -, rfl, -⟩ | ⟨-, -, occupied, rfl, -⟩
          · simp [wired.noRetirement] at retires
          · exact Nat.zero_le 2
          · exact bound
          · rcases TaskQueue.take_cases ops s.queue.q (host w) n with ⟨task, took⟩ | waits
            · rw [took]
              exact Nat.zero_le 2
            · have less := take_patience store s.queue.q stored (host w) n occupied bound waits
              rw [waits]
              exact less
        · exact patient v pc earlier
  · intro w pc stands
    rcases effect_place ops host s next label effect w pc stands with same | ⟨old, before, turn⟩
    · exact patient w pc same
    · have bound := patient w old before
      cases turn with
      | acquire => exact bound
      | wait => exact bound
      | check => exact absurd ⟨_, _, rfl⟩ looks
      | _ => exact Nat.zero_le 2

theorem weight_check (store : QueueStore ops Stored content) (wired : Wired s) (stored : Stored s.queue.q) (patient : Patient s)
    (w n : Nat) (wake : Option Nat) (out : PopOutcome Task) (queue : TaskQueue Queue Nat)
    (stands : s.workers[w]? = some (.checking n)) (turned : s.queue.popTurn ops w (host w) n wake = some (out, queue)) :
    ({ s with queue := queue, handed := s.record w out }.setWorker w (.leaving out)).weight content < s.weight content := by
  have bound : n ≤ 2 := patient w _ stands
  have moved := place_set w _ (.leaving out) stands
  have old : placeWeight (.checking n : WorkerPc Task) = 5 + 3 * (2 - n) := rfl
  have room := waiting_room wired w _ stands (wired_outside wired w _ stands (by simp)).1
  rw [old] at moved
  have size : (s.setWorker w (.leaving out)).workers.length = s.workers.length := by simp [setWorker]
  rcases TaskQueue.pop_turn_cases ops s.queue queue w (host w) n wake out turned with
    ⟨retires, -, -⟩ | ⟨-, -, rfl, cv, signalled, rfl⟩ | ⟨-, -, -, rfl, rfl⟩ | ⟨-, -, occupied, rfl, cv, signalled, rfl⟩
  · simp [wired.noRetirement] at retires
  · have count := signal_count cv wake signalled
    change 20 * (content s.queue.q).card + ((s.setWorker w (.leaving .closed)).workers.map placeWeight).sum +
      3 * ((s.setWorker w (.leaving .closed)).workers.length - cv.waiting.length) < _
    have fresh : placeWeight (.leaving .closed : WorkerPc Task) = 1 := rfl
    rw [fresh] at moved
    unfold weight
    omega
  · change 20 * (content s.queue.q).card + ((s.setWorker w (.leaving (.wait n))).workers.map placeWeight).sum +
      3 * ((s.setWorker w (.leaving (.wait n))).workers.length - s.queue.cv.waiting.length) < _
    have fresh : placeWeight (.leaving (.wait n) : WorkerPc Task) = 4 + 3 * (2 - n) := rfl
    rw [fresh] at moved
    unfold weight awakeCount
    omega
  · have count := signal_count cv wake signalled
    obtain ⟨-, inside, left⟩ := store.take_content s.queue.q (host w) n stored
    rcases TaskQueue.take_cases ops s.queue.q (host w) n with ⟨task, took⟩ | waits
    · have fewer : (content (TaskQueue.take ops s.queue.q (host w) n).2).card + 1 = (content s.queue.q).card := by
        rw [took] at inside left
        simp only [QueueStore.taken, Option.toFinset_some, Finset.singleton_subset_iff] at inside left
        rw [left, Finset.card_sdiff_of_subset (by simpa using inside), Finset.card_singleton]
        have some := Finset.card_pos.mpr ⟨task, inside⟩
        omega
      change 20 * (content (TaskQueue.take ops s.queue.q (host w) n).2).card +
        ((s.setWorker w (.leaving (TaskQueue.take ops s.queue.q (host w) n).1)).workers.map placeWeight).sum +
        3 * ((s.setWorker w (.leaving (TaskQueue.take ops s.queue.q (host w) n).1)).workers.length - cv.waiting.length) < _
      rw [took] at moved size ⊢
      have fresh : placeWeight (.leaving (.task task)) = 17 := rfl
      rw [fresh] at moved
      unfold weight
      omega
    · have less := take_patience store s.queue.q stored (host w) n occupied bound waits
      have same : content (TaskQueue.take ops s.queue.q (host w) n).2 = content s.queue.q := by
        rw [waits] at left
        simpa [QueueStore.taken] using left
      change 20 * (content (TaskQueue.take ops s.queue.q (host w) n).2).card +
        ((s.setWorker w (.leaving (TaskQueue.take ops s.queue.q (host w) n).1)).workers.map placeWeight).sum +
        3 * ((s.setWorker w (.leaving (TaskQueue.take ops s.queue.q (host w) n).1)).workers.length - cv.waiting.length) < _
      rw [waits] at moved size ⊢
      have fresh : placeWeight (.leaving (.wait (n + 1)) : WorkerPc Task) = 4 + 3 * (2 - (n + 1)) := rfl
      rw [fresh] at moved
      rw [same]
      unfold weight
      omega

-- What each step of the threads costs: a push pays for its tasks, finish for
-- its signal, and everything else lowers the weight.
theorem weight_step (store : QueueStore ops Stored content) (next : Pool Queue Task) (label : PoolLabel Task Choice)
    (wired : Wired s) (stored : Stored s.queue.q) (patient : Patient s) (still : quiet label = true)
    (worker : ∀ wake, label ≠ .finishRaise ∧ label ≠ .finishSignal wake)
    (effect : Effect ops host s label next) : next.weight content < s.weight content := by
  have size : ∀ (w : Nat) (pc : WorkerPc Task), (s.setWorker w pc).workers.length = s.workers.length := by simp [setWorker]
  -- a worker that changes place while the queue and the waiters stay
  have move : ∀ (after : Pool Queue Task) (w : Nat) (old pc : WorkerPc Task), s.workers[w]? = some old →
      after.workers = (s.setWorker w pc).workers → (content after.queue.q).card ≤ (content s.queue.q).card →
      after.queue.cv.waiting = s.queue.cv.waiting → placeWeight pc < placeWeight old → after.weight content < s.weight content := by
    intro after w old pc stands workers fewer waiting less
    have moved := place_set w old pc stands
    unfold weight awakeCount
    rw [workers, waiting, size w pc]
    omega
  cases effect with
  | push => cases still
  | taskEnd => cases still
  | fail => cases still
  | finishRaise => exact absurd rfl (worker none).1
  | finishSignal wake => exact absurd rfl (worker wake).2
  | acquire w n stands free awake =>
      refine move _ w _ (.checking n) stands rfl le_rfl rfl ?_
      change 5 + 3 * (2 - n) < 6 + 3 * (2 - n)
      omega
  | check w n wake out queue stands turned => exact weight_check store wired stored patient w n wake out queue stands turned
  | leave w out stands =>
      cases out with
      | wait n =>
          have room := waiting_room wired w _ stands (wired_outside wired w _ stands (by simp)).1
          have moved := place_set w _ (.popping n) stands
          have old : placeWeight (.leaving (.wait n) : WorkerPc Task) = 4 + 3 * (2 - n) := rfl
          have fresh : placeWeight (.popping n : WorkerPc Task) = 6 + 3 * (2 - n) := rfl
          rw [old, fresh] at moved
          have count := size w (.popping n)
          change 20 * (content s.queue.q).card + ((s.setWorker w (.popping n)).workers.map placeWeight).sum +
            3 * ((s.setWorker w (.popping n)).workers.length - (s.queue.cv.waiting.length + 1)) < _
          unfold weight awakeCount
          omega
      | task task => exact move _ w _ (.executing task) stands rfl le_rfl rfl (by simp [placeWeight])
      | retired => exact move _ w _ .exited stands rfl le_rfl rfl (by simp [placeWeight])
      | closed => exact move _ w _ .exited stands rfl le_rfl rfl (by simp [placeWeight])
  | stopEnter w stands free =>
      have none : content (ops.clear s.queue.q) = ∅ := (store.clear s.queue.q stored).2
      refine move _ w _ .stopRaising stands rfl ?_ rfl (by simp [placeWeight])
      change (content (ops.clear s.queue.q)).card ≤ _
      rw [none, Finset.card_empty]
      exact Nat.zero_le _
  | stopRaise w stands => exact move _ w _ .stopSignalling stands rfl le_rfl rfl (by simp [placeWeight])
  | stopSignal w wake cv stands signalled =>
      have count := signal_count cv wake signalled
      have moved := place_set w _ .stopLeaving stands
      have places : placeWeight (.stopSignalling : WorkerPc Task) = 8 ∧ placeWeight (.stopLeaving : WorkerPc Task) = 2 := ⟨rfl, rfl⟩
      rw [places.1, places.2] at moved
      have same := size w .stopLeaving
      change 20 * (content s.queue.q).card + ((s.setWorker w .stopLeaving).workers.map placeWeight).sum +
        3 * ((s.setWorker w .stopLeaving).workers.length - cv.waiting.length) < _
      unfold weight
      omega
  | stopLeave w stands => exact move _ w _ .exited stands rfl le_rfl rfl (by simp [placeWeight])

theorem weight_push (store : QueueStore ops Stored content) (next : Pool Queue Task) (tasks : List (Task × Choice))
    (wake : Option Nat) (stored : Stored s.queue.q) (distinct : (tasks.map Prod.fst).Nodup)
    (fresh : ∀ task ∈ tasks, task.1 ∉ content s.queue.q) (effect : Effect ops host s (.push tasks wake) next) :
    next.weight content ≤ s.weight content + 20 * tasks.length + 3 := by
  cases effect with
  | push _ _ cv free signalled =>
      have count := signal_count cv wake signalled
      have grown := (store.push_all_content s.queue.q tasks stored distinct fresh).2
      have more := Finset.card_union_le (content s.queue.q) (tasks.map Prod.fst).toFinset
      rw [← grown, List.toFinset_card_of_nodup distinct, List.length_map] at more
      change 20 * (content (TaskQueue.pushAll ops s.queue.q tasks)).card + (s.workers.map placeWeight).sum +
        3 * (s.workers.length - cv.waiting.length) ≤ _
      unfold weight
      omega

-- A task that ends leaves four behind for the stage of its worker.
variable (content) in
omit [DecidableEq Task] in
theorem weight_end (next : Pool Queue Task) (label : PoolLabel Task Choice) (w : Nat) (task : Task)
    (ends : label = .taskEnd w ∨ label = .fail w) (stands : s.workers[w]? = some (.executing task))
    (effect : Effect ops host s label next) : next.weight content + 4 ≤ s.weight content := by
  have move : ∀ pc : WorkerPc Task, placeWeight pc ≤ 12 → (s.setWorker w pc).weight content + 4 ≤ s.weight content := by
    intro pc small
    have moved := place_set w _ pc stands
    have old : placeWeight (.executing task) = 16 := rfl
    have size : (s.setWorker w pc).workers.length = s.workers.length := by simp [setWorker]
    rw [old] at moved
    change 20 * (content s.queue.q).card + ((s.setWorker w pc).workers.map placeWeight).sum +
      3 * ((s.setWorker w pc).workers.length - s.queue.cv.waiting.length) + 4 ≤ _
    unfold weight awakeCount
    omega
  rcases ends with rfl | rfl
  · cases effect with
    | taskEnd => exact move (.popping 0) (by simp [placeWeight])
  · cases effect with
    | fail => exact move .stopping (by simp [placeWeight])

variable (content) in
omit [DecidableEq Task] in
theorem weight_finish (next : Pool Queue Task) (label : PoolLabel Task Choice)
    (ends : label = .finishRaise ∨ ∃ wake, label = .finishSignal wake) (effect : Effect ops host s label next) :
    next.weight content ≤ s.weight content + 3 := by
  rcases ends with rfl | ⟨wake, rfl⟩
  · cases effect with
    | finishRaise idle => exact Nat.le_add_right _ 3
  · cases effect with
    | finishSignal _ cv raised signalled =>
        have count := signal_count cv wake signalled
        change 20 * (content s.queue.q).card + (s.workers.map placeWeight).sum + 3 * (s.workers.length - cv.waiting.length) ≤ _
        unfold weight
        omega

end Steps

end Pwrake.Pool
