import Pwrake.PoolInvariant
import Mathlib.Tactic.Ring

set_option autoImplicit false

namespace Pwrake.Pool

variable {Queue Task Host Choice : Type*}

-- Past the checks with nothing taken, about to release @m and join the waiters.
def InWindow (s : Pool Queue Task) (w : Nat) : Prop := ∃ n : Nat, s.workers[w]? = some (.leaving (.wait n))

-- Threads that will still pass a signal on. A thread about to return from pop
-- for good, or past the signal in stop, has nothing left to say.
def stirring : WorkerPc Task → Bool
  | .popping _ | .checking _ | .leaving (.task _) | .executing _ | .stopping | .stopRaising | .stopSignalling => true
  | _ => false

def Live (s : Pool Queue Task) (w : Nat) : Prop :=
  w ∉ s.queue.cv.waiting ∧ ∃ pc, s.workers[w]? = some pc ∧ stirring pc = true

-- Notified, inside pop, or busy with a task; the rescue clause that leads to
-- stop counts as part of the task it ends.
def Acting (s : Pool Queue Task) (w : Nat) : Prop :=
  w ∉ s.queue.cv.waiting ∧ ∃ pc, s.workers[w]? = some pc ∧ pc ≠ .exited ∧ pc ≠ .stopLeaving

def WakeupKept (s : Pool Queue Task) : Prop :=
  s.completed = true → s.queue.cv.waiting ≠ [] → ∃ w, Acting s w

def Running (s : Pool Queue Task) (w : Nat) : Prop := ∃ pc, s.workers[w]? = some pc ∧ pc ≠ .exited

-- finish signals without @m. The signal is heard unless the one thread that is
-- still running stands between its checks and its wait.
def Heard (s : Pool Queue Task) : PoolLabel Task Choice → Prop
  | .finishSignal _ => ∀ w, InWindow s w → ∃ v, v ≠ w ∧ Running s v
  | _ => True

def Said (s : Pool Queue Task) : Prop := s.completed = true ∨ ∃ w : Nat, s.workers[w]? = some .stopLeaving

-- Once finish or stop has signalled, whoever waits or is about to wait is
-- matched by a thread that will signal again.
structure Relayed (s : Pool Queue Task) : Prop where
  raised : s.finishing = true ∨ Said s ∨ (∃ w : Nat, s.workers[w]? = some .stopSignalling) → s.queue.finished = true
  relayed : Said s → s.queue.cv.waiting ≠ [] ∨ (∃ w, InWindow s w) → ∃ v, Live s v

theorem relayed_init (q : Queue) (n : Nat) : Relayed (init q n : Pool Queue Task) where
  raised := by
    rintro (finishing | (completed | ⟨w, read⟩) | ⟨w, read⟩)
    · cases finishing
    · cases completed
    · cases Slots.lookup_replicate n w _ _ read
    · cases Slots.lookup_replicate n w _ _ read
  relayed := by
    rintro (completed | ⟨w, read⟩)
    · cases completed
    · cases Slots.lookup_replicate n w _ _ read

theorem live_acting (s : Pool Queue Task) (w : Nat) (live : Live s w) : Acting s w := by
  obtain ⟨awake, pc, stands, stirs⟩ := live
  refine ⟨awake, pc, stands, ?_, ?_⟩ <;> rintro rfl <;> cases stirs

section Wakeups

variable {s : Pool Queue Task}

theorem live_signal (wired : Wired s) (wake : Option Nat) (cv : CondVar Nat) (signalled : s.queue.cv.signal wake = some cv)
    (sleepers : cv.waiting ≠ []) : ∃ v, v ∉ cv.waiting ∧ ∃ n : Nat, s.workers[v]? = some (.popping n) := by
  obtain ⟨v, member⟩ := List.exists_mem_of_ne_nil _ (CondVar.signal_nonempty s.queue.cv cv wake signalled sleepers)
  have tidy := CondVar.signal_tidy s.queue.cv cv wake signalled wired.tidy
  refine ⟨v, fun waits => tidy.disjoint v waits member, ?_⟩
  rcases CondVar.signal_notified s.queue.cv cv wake signalled v member with earlier | waited
  · exact wired.woken v earlier
  · exact wired.waiters v waited

theorem window_alone (wired : Wired s) (w v : Nat) (pc : WorkerPc Task) (stands : s.workers[w]? = some pc)
    (holds : holdsMutex pc = true) (window : InWindow s v) : v = w := by
  obtain ⟨n, read⟩ := window
  exact Option.some.inj ((wired.owner v _ read rfl).symm.trans (wired.owner w pc stands holds))

end Wakeups

-- A thread that changes place outside the monitor keeps the chain alive, when
-- it stirs afterwards or did not stir before.
theorem live_move (s : Pool Queue Task) (inv : Relayed s) (spoken : Said s) (w : Nat) (old pc : WorkerPc Task)
    (stands : s.workers[w]? = some old) (awake : w ∉ s.queue.cv.waiting)
    (stirs : stirring old = true → stirring pc = true) (noWindow : ∀ n, pc ≠ .leaving (.wait n))
    (need : s.queue.cv.waiting ≠ [] ∨ ∃ v, InWindow (s.setWorker w pc) v) : ∃ v, Live (s.setWorker w pc) v := by
  have look := fun v => set_worker_lookup s w v old pc stands
  have before : s.queue.cv.waiting ≠ [] ∨ ∃ v, InWindow s v := by
    rcases need with sleepers | ⟨v, n, read⟩
    · exact .inl sleepers
    · rw [look v] at read
      by_cases equal : v = w
      · rw [if_pos equal, Option.some.injEq] at read
        exact absurd read (noWindow n)
      · exact .inr ⟨v, n, by rwa [if_neg equal] at read⟩
  obtain ⟨v, alert, found, read, moves⟩ := inv.relayed spoken before
  by_cases equal : v = w
  · subst equal
    have same : found = old := Option.some.inj (read.symm.trans stands)
    exact ⟨v, awake, pc, by rw [look v, if_pos rfl], stirs (same ▸ moves)⟩
  · exact ⟨v, alert, found, by rw [look v, if_neg equal]; exact read, moves⟩

theorem relayed_move (s : Pool Queue Task) (inv : Relayed s) (w : Nat) (old pc : WorkerPc Task)
    (stands : s.workers[w]? = some old) (awake : w ∉ s.queue.cv.waiting)
    (stirs : stirring old = true → stirring pc = true) (noWindow : ∀ n, pc ≠ .leaving (.wait n))
    (quiet : pc ≠ .stopLeaving) (raised : pc = .stopSignalling → s.queue.finished = true) :
    Relayed (s.setWorker w pc) := by
  have look := fun v => set_worker_lookup s w v old pc stands
  have said : Said (s.setWorker w pc) → Said s := by
    rintro (completed | ⟨v, read⟩)
    · exact .inl completed
    · rw [look v] at read
      by_cases equal : v = w
      · rw [if_pos equal, Option.some.injEq] at read
        exact absurd read quiet
      · exact .inr ⟨v, by rwa [if_neg equal] at read⟩
  refine ⟨?_, fun spoken need => live_move s inv (said spoken) w old pc stands awake stirs noWindow need⟩
  rintro (finishing | spoken | ⟨v, read⟩)
  · exact inv.raised (.inl finishing)
  · exact inv.raised (.inr (.inl (said spoken)))
  · rw [look v] at read
    by_cases equal : v = w
    · rw [if_pos equal, Option.some.injEq] at read
      exact raised read
    · exact inv.raised (.inr (.inr ⟨v, by rwa [if_neg equal] at read⟩))

theorem relayed_check (ops : QueueOps Queue Task Host Choice) (host : Nat → Host) (s : Pool Queue Task)
    (wired : Wired s) (inv : Relayed s) (w n : Nat) (wake : Option Nat) (out : PopOutcome Task)
    (queue : TaskQueue Queue Nat) (stands : s.workers[w]? = some (.checking n))
    (turned : s.queue.popTurn ops w (host w) n wake = some (out, queue)) :
    Relayed ({ s with queue := queue, handed := s.record w out }.setWorker w (.leaving out)) := by
  have look := fun (v : Nat) => Slots.lookup_set s.workers w v _ (.leaving out) stands
  have others : ∀ (v : Nat) (pc : WorkerPc Task), (∀ out, pc ≠ .leaving out) →
      (s.workers.set w (.leaving out))[v]? = some pc → s.workers[v]? = some pc := by
    intro v pc different read
    rw [look v] at read
    by_cases equal : v = w
    · rw [if_pos equal, Option.some.injEq] at read
      exact absurd read.symm (different out)
    · rwa [if_neg equal] at read
  have said : Said ({ s with queue := queue, handed := s.record w out }.setWorker w (.leaving out)) → Said s := by
    rintro (completed | ⟨v, read⟩)
    · exact .inl completed
    · exact .inr ⟨v, others v _ (by simp) read⟩
  have flagged : queue.finished = s.queue.finished := by
    rcases TaskQueue.pop_turn_cases ops s.queue queue w (host w) n wake out turned with
      ⟨-, -, rfl⟩ | ⟨-, -, -, cv, -, rfl⟩ | ⟨-, -, -, -, rfl⟩ | ⟨-, -, -, -, cv, -, rfl⟩ <;> rfl
  refine ⟨?_, ?_⟩
  · rintro (finishing | spoken | ⟨v, read⟩)
    · exact flagged.trans (inv.raised (.inl finishing))
    · exact flagged.trans (inv.raised (.inr (.inl (said spoken))))
    · exact flagged.trans (inv.raised (.inr (.inr ⟨v, others v _ (by simp) read⟩)))
  · intro spoken need
    have closed := inv.raised (.inr (.inl (said spoken)))
    rcases TaskQueue.pop_turn_cases ops s.queue queue w (host w) n wake out turned with
      ⟨retires, -, -⟩ | ⟨-, -, rfl, cv, signalled, rfl⟩ | ⟨-, opened, -⟩ | ⟨-, opened, -⟩
    · simp [wired.noRetirement] at retires
    · have sleepers : cv.waiting ≠ [] := by
        rcases need with sleepers | ⟨v, k, read⟩
        · exact sleepers
        · have read : (s.workers.set w (.leaving .closed))[v]? = some (.leaving (.wait k)) := read
          rw [look v] at read
          by_cases equal : v = w
          · simp [equal] at read
          · rw [if_neg equal] at read
            exact absurd (window_alone wired w v _ stands rfl ⟨k, read⟩) equal
      obtain ⟨v, awake, k, read⟩ := live_signal wired wake cv signalled sleepers
      have different : v ≠ w := by
        rintro rfl
        simp [stands] at read
      refine ⟨v, awake, .popping k, ?_, rfl⟩
      change (s.workers.set w (.leaving .closed))[v]? = _
      rw [look v, if_neg different]
      exact read
    · simp [closed] at opened
    · simp [closed] at opened

theorem relayed_leave (s : Pool Queue Task) (wired : Wired s) (inv : Relayed s) (w : Nat) (out : PopOutcome Task)
    (stands : s.workers[w]? = some (.leaving out)) : Relayed (s.release w out) := by
  have outside := (wired_outside wired w _ stands (by simp)).1
  cases out with
  | task task =>
      obtain ⟨raised, relayed⟩ := relayed_move s inv w _ (.executing task) stands outside (by simp [stirring]) (by simp)
        (by simp) (by simp)
      exact ⟨raised, relayed⟩
  | retired =>
      obtain ⟨raised, relayed⟩ := relayed_move s inv w _ .exited stands outside (by simp [stirring]) (by simp)
        (by simp) (by simp)
      exact ⟨raised, relayed⟩
  | closed =>
      obtain ⟨raised, relayed⟩ := relayed_move s inv w _ .exited stands outside (by simp [stirring]) (by simp)
        (by simp) (by simp)
      exact ⟨raised, relayed⟩
  | wait n =>
      obtain ⟨raised, -⟩ := relayed_move s inv w _ (.popping n) stands outside (by simp [stirring]) (by simp)
        (by simp) (by simp)
      refine ⟨raised, ?_⟩
      -- The thread that now waits stood in the window, so the chain already
      -- had another member.
      intro spoken _
      have saidBefore : Said s := by
        rcases spoken with completed | ⟨v, read⟩
        · exact .inl completed
        · refine .inr ⟨v, ?_⟩
          have read : (s.workers.set w (.popping n))[v]? = some .stopLeaving := read
          rw [Slots.lookup_set s.workers w v _ _ stands] at read
          by_cases equal : v = w
          · simp [equal] at read
          · rwa [if_neg equal] at read
      obtain ⟨v, awake, pc, read, stirs⟩ := inv.relayed saidBefore (.inr ⟨w, n, stands⟩)
      have different : v ≠ w := by
        rintro rfl
        rw [stands, Option.some.injEq] at read
        subst read
        cases stirs
      refine ⟨v, ?_, pc, ?_, stirs⟩
      · exact fun member => (List.mem_cons.mp member).elim different awake
      · change (s.workers.set w (.popping n))[v]? = _
        rw [Slots.lookup_set s.workers w v _ _ stands, if_neg different]
        exact read

theorem relayed_push (s : Pool Queue Task) (inv : Relayed s) (q : Queue) (pushed : List Task) (wake : Option Nat)
    (cv : CondVar Nat) (signalled : s.queue.cv.signal wake = some cv) :
    Relayed { s with queue := { s.queue with q := q, cv := cv }, pushed := pushed } where
  raised := inv.raised
  relayed := by
    intro spoken need
    have before : s.queue.cv.waiting ≠ [] ∨ ∃ v, InWindow s v := by
      refine need.imp_left fun sleepers idle => sleepers ?_
      exact List.eq_nil_iff_forall_not_mem.mpr fun v member => by
        simpa [idle] using CondVar.signal_waiting s.queue.cv cv wake signalled v member
    obtain ⟨v, awake, pc, read, stirs⟩ := inv.relayed spoken before
    exact ⟨v, fun member => awake (CondVar.signal_waiting s.queue.cv cv wake signalled v member), pc, read, stirs⟩

theorem relayed_stop_signal (s : Pool Queue Task) (wired : Wired s) (inv : Relayed s) (w : Nat) (wake : Option Nat)
    (cv : CondVar Nat) (stands : s.workers[w]? = some .stopSignalling) (signalled : s.queue.cv.signal wake = some cv) :
    Relayed ({ s with queue := { s.queue with cv := cv } }.setWorker w .stopLeaving) where
  raised := fun _ => inv.raised (.inr (.inr ⟨w, stands⟩))
  relayed := by
    intro _ need
    have look := fun (v : Nat) => Slots.lookup_set s.workers w v _ .stopLeaving stands
    have sleepers : cv.waiting ≠ [] := by
      rcases need with sleepers | ⟨v, k, read⟩
      · exact sleepers
      · have read : (s.workers.set w .stopLeaving)[v]? = some (.leaving (.wait k)) := read
        rw [look v] at read
        by_cases equal : v = w
        · simp [equal] at read
        · rw [if_neg equal] at read
          exact absurd (window_alone wired w v _ stands rfl ⟨k, read⟩) equal
    obtain ⟨v, awake, k, read⟩ := live_signal wired wake cv signalled sleepers
    have different : v ≠ w := by
      rintro rfl
      simp [stands] at read
    refine ⟨v, awake, .popping k, ?_, rfl⟩
    change (s.workers.set w .stopLeaving)[v]? = _
    rw [look v, if_neg different]
    exact read

theorem relayed_finish_signal (s : Pool Queue Task) (wired : Wired s) (inv : Relayed s) (wake : Option Nat)
    (cv : CondVar Nat) (raised : s.finishing = true) (signalled : s.queue.cv.signal wake = some cv)
    (heard : ∀ w, InWindow s w → ∃ v, v ≠ w ∧ Running s v) :
    Relayed { s with finishing := false, completed := true, queue := { s.queue with cv := cv } } where
  raised := fun _ => inv.raised (.inl raised)
  relayed := by
    intro _ need
    by_cases sleepers : cv.waiting = []
    · obtain ⟨w, window⟩ := need.resolve_left (not_not_intro sleepers)
      obtain ⟨v, different, pc, read, runs⟩ := heard w window
      have free : holdsMutex pc = false := by
        cases holds : holdsMutex pc with
        | false => rfl
        | true => exact absurd (window_alone wired v w pc read holds window) (Ne.symm different)
      refine ⟨v, by simp [sleepers], pc, read, ?_⟩
      cases pc with
      | exited => exact absurd rfl runs
      | popping | executing | stopping => rfl
      | checking | leaving | stopRaising | stopSignalling | stopLeaving => cases free
    · obtain ⟨v, awake, k, read⟩ := live_signal wired wake cv signalled sleepers
      exact ⟨v, awake, .popping k, read, rfl⟩

theorem relayed_step (ops : QueueOps Queue Task Host Choice) (host : Nat → Host) (s next : Pool Queue Task)
    (label : PoolLabel Task Choice) (wired : Wired s) (inv : Relayed s) (heard : Heard s label)
    (effect : Effect ops host s label next) : Relayed next := by
  cases effect with
  | push tasks wake cv free signalled => exact relayed_push s inv _ _ wake cv signalled
  | acquire w n stands free awake =>
      obtain ⟨raised, relayed⟩ := relayed_move s inv w _ (.checking n) stands awake (fun _ => rfl) (by simp) (by simp) (by simp)
      exact ⟨raised, relayed⟩
  | check w n wake out queue stands turned => exact relayed_check ops host s wired inv w n wake out queue stands turned
  | leave w out stands => exact relayed_leave s wired inv w out stands
  | taskEnd w task stands =>
      exact relayed_move s inv w _ _ stands (wired_outside wired w _ stands (by simp)).1 (fun _ => rfl) (by simp) (by simp) (by simp)
  | fail w task stands =>
      exact relayed_move s inv w _ _ stands (wired_outside wired w _ stands (by simp)).1 (fun _ => rfl) (by simp) (by simp) (by simp)
  | stopEnter w stands free =>
      obtain ⟨raised, relayed⟩ := relayed_move s inv w _ .stopRaising stands (wired_outside wired w _ stands (by simp)).1
        (fun _ => rfl) (by simp) (by simp) (by simp)
      exact ⟨raised, relayed⟩
  | stopRaise w stands =>
      have flagged : Relayed { s with queue := s.queue.raiseFinished } := ⟨fun _ => rfl, inv.relayed⟩
      exact relayed_move _ flagged w _ .stopSignalling stands (wired_outside wired w _ stands (by simp)).1
        (fun _ => rfl) (by simp) (by simp) (fun _ => rfl)
  | stopSignal w wake cv stands signalled => exact relayed_stop_signal s wired inv w wake cv stands signalled
  | stopLeave w stands =>
      have spoken : Said s := .inr ⟨w, stands⟩
      exact ⟨fun _ => inv.raised (.inr (.inl spoken)), fun _ => live_move s inv spoken w _ .exited stands
        (wired_outside wired w _ stands (by simp)).1 (by simp [stirring]) (by simp)⟩
  | finishRaise idle => exact ⟨fun _ => rfl, inv.relayed⟩
  | finishSignal wake cv raised signalled => exact relayed_finish_signal s wired inv wake cv raised signalled heard

theorem relayed_run (ops : QueueOps Queue Task Host Choice) (host : Nat → Host) (q : Queue) (n : Nat)
    (s : Pool Queue Task) (run : Machine.Run (step ops host) Heard (init q n) s) : Relayed s :=
  Machine.run_invariant Relayed (init q n) (relayed_init q n)
    (fun before after label run inv heard taken =>
      relayed_step ops host before after label (wired_run ops host Heard q n before run) inv heard
        (step_effect ops host before after label taken)) s run

theorem relayed_wakeup_kept (s : Pool Queue Task) (inv : Relayed s) : WakeupKept s := by
  intro completed sleepers
  obtain ⟨w, live⟩ := inv.relayed (.inl completed) (.inl sleepers)
  exact ⟨w, live_acting s w live⟩

-- Whoever has left for good did so after @finished was set, so no thread reads
-- it as false any more.
def gone : WorkerPc Task → Bool
  | .leaving .closed | .leaving .retired | .stopSignalling | .stopLeaving | .exited => true
  | _ => false

def Departed (s : Pool Queue Task) : Prop :=
  ∀ (w : Nat) (pc : WorkerPc Task), s.workers[w]? = some pc → gone pc = true →
    s.queue.finished = true ∧ ∀ v, ¬ InWindow s v

theorem departed_move (s : Pool Queue Task) (inv : Departed s) (w : Nat) (old pc : WorkerPc Task)
    (stands : s.workers[w]? = some old) (noWindow : ∀ n, pc ≠ .leaving (.wait n))
    (leaves : gone pc = true → s.queue.finished = true ∧ ∀ v, ¬ InWindow s v) : Departed (s.setWorker w pc) := by
  intro v found read goes
  have cause : s.queue.finished = true ∧ ∀ v, ¬ InWindow s v := by
    rw [set_worker_lookup s w v old pc stands] at read
    by_cases equal : v = w
    · rw [if_pos equal, Option.some.injEq] at read
      exact leaves (read ▸ goes)
    · exact inv v found (by rwa [if_neg equal] at read) goes
  refine ⟨cause.1, fun u window => ?_⟩
  obtain ⟨n, inside⟩ := window
  rw [set_worker_lookup s w u old pc stands] at inside
  by_cases equal : u = w
  · rw [if_pos equal, Option.some.injEq] at inside
    exact noWindow n inside
  · exact cause.2 u ⟨n, by rwa [if_neg equal] at inside⟩

-- The flag was read as false, so nobody has gone, before or after.
theorem departed_open (s : Pool Queue Task) (inv : Departed s) (queue : TaskQueue Queue Nat) (w n : Nat)
    (out : PopOutcome Task) (stands : s.workers[w]? = some (.checking n)) (opened : s.queue.finished = false)
    (stays : gone (.leaving out) = false) :
    Departed ({ s with queue := queue, handed := s.record w out }.setWorker w (.leaving out)) := by
  intro v pc read goes
  have read : (s.workers.set w (.leaving out))[v]? = some pc := read
  rw [Slots.lookup_set s.workers w v _ _ stands] at read
  by_cases equal : v = w
  · rw [if_pos equal, Option.some.injEq] at read
    rw [← read, stays] at goes
    cases goes
  · rw [if_neg equal] at read
    simp [(inv v pc read goes).1] at opened

theorem departed_step (ops : QueueOps Queue Task Host Choice) (host : Nat → Host) (s next : Pool Queue Task)
    (label : PoolLabel Task Choice) (wired : Wired s) (inv : Departed s) (effect : Effect ops host s label next) :
    Departed next := by
  cases effect with
  | push => exact inv
  | acquire w n stands free awake => exact departed_move s inv w _ (.checking n) stands (by simp) (by simp [gone])
  | check w n wake out queue stands turned =>
      have alone : ∀ v, InWindow s v → False := by
        intro v window
        have same := window_alone wired w v _ stands rfl window
        obtain ⟨k, read⟩ := window
        simp [same, stands] at read
      rcases TaskQueue.pop_turn_cases ops s.queue queue w (host w) n wake out turned with
        ⟨retires, -, -⟩ | ⟨-, closed, rfl, cv, -, rfl⟩ | ⟨-, opened, -, rfl, rfl⟩ | ⟨-, opened, -, rfl, cv, -, rfl⟩
      · simp [wired.noRetirement] at retires
      · exact departed_move s inv w _ (.leaving .closed) stands (by simp) (fun _ => ⟨closed, alone⟩)
      · exact departed_open s inv _ w n _ stands opened rfl
      · refine departed_open s inv _ w n _ stands opened ?_
        rcases TaskQueue.take_cases ops s.queue.q (host w) n with ⟨task, took⟩ | waits
        · rw [took]; rfl
        · rw [waits]; rfl
  | leave w out stands =>
      cases out with
      | wait n =>
          have moved := departed_move s inv w _ (.popping n) stands (by simp) (by simp [gone])
          exact moved
      | task task => exact departed_move s inv w _ (.executing task) stands (by simp) (by simp [gone])
      | retired => exact departed_move s inv w _ .exited stands (by simp) (fun _ => inv w _ stands rfl)
      | closed => exact departed_move s inv w _ .exited stands (by simp) (fun _ => inv w _ stands rfl)
  | taskEnd w task stands => exact departed_move s inv w _ _ stands (by simp) (by simp [gone])
  | fail w task stands => exact departed_move s inv w _ _ stands (by simp) (by simp [gone])
  | stopEnter w stands free => exact departed_move s inv w _ .stopRaising stands (by simp) (by simp [gone])
  | stopRaise w stands =>
      have raised : Departed { s with queue := s.queue.raiseFinished } := fun v pc read goes =>
        ⟨rfl, (inv v pc read goes).2⟩
      refine departed_move _ raised w _ .stopSignalling stands (by simp) (fun _ => ⟨rfl, fun v window => ?_⟩)
      have same := window_alone wired w v _ stands rfl window
      obtain ⟨k, read⟩ := window
      simp [same, stands] at read
  | stopSignal w wake cv stands signalled =>
      exact departed_move s inv w _ .stopLeaving stands (by simp) (fun _ => inv w _ stands rfl)
  | stopLeave w stands => exact departed_move s inv w _ .exited stands (by simp) (fun _ => inv w _ stands rfl)
  | finishRaise idle => exact fun v pc read goes => ⟨rfl, (inv v pc read goes).2⟩
  | finishSignal => exact inv

theorem worker_count (ops : QueueOps Queue Task Host Choice) (host : Nat → Host) (s next : Pool Queue Task)
    (label : PoolLabel Task Choice) (effect : Effect ops host s label next) : next.workers.length = s.workers.length := by
  cases effect with
  | leave w out stands => cases out <;> simp [release, setWorker]
  | push | finishRaise | finishSignal => rfl
  | _ => simp [setWorker]

-- With a second worker the signal is always heard: that worker cannot have left
-- before the one in the window looked at @finished and found it false.
theorem heard_of_two (ops : QueueOps Queue Task Host Choice) (host : Nat → Host) (q : Queue) (n : Nat) (two : 2 ≤ n)
    (s : Pool Queue Task) (run : Machine.Run (step ops host) (fun _ _ => True) (init q n) s)
    (label : PoolLabel Task Choice) : Heard s label := by
  have facts : Departed s ∧ s.workers.length = n := by
    refine Machine.run_invariant (fun s => Departed s ∧ s.workers.length = n) (init q n) ⟨?_, by simp [init]⟩ ?_ s run
    · intro w pc read goes
      rw [Slots.lookup_replicate n w _ pc read] at goes
      cases goes
    · intro before after label run inv _ taken
      have effect := step_effect ops host before after label taken
      exact ⟨departed_step ops host before after label (wired_run ops host _ q n before run) inv.1 effect,
        (worker_count ops host before after label effect).trans inv.2⟩
  cases label with
  | finishSignal wake =>
      intro w window
      obtain ⟨v, different, bound⟩ : ∃ v, v ≠ w ∧ v < s.workers.length := by
        by_cases first : w = 0
        · exact ⟨1, by omega, by omega⟩
        · exact ⟨0, by omega, by omega⟩
      refine ⟨v, different, s.workers[v], List.getElem?_eq_getElem bound, fun exited => ?_⟩
      exact (facts.1 v _ (List.getElem?_eq_getElem bound) (by rw [exited]; rfl)).2 w window
  | _ => trivial

theorem run_heard (ops : QueueOps Queue Task Host Choice) (host : Nat → Host) (q : Queue) (n : Nat) (two : 2 ≤ n)
    (s : Pool Queue Task) (run : Machine.Run (step ops host) (fun _ _ => True) (init q n) s) :
    Machine.Run (step ops host) Heard (init q n) s := by
  induction run with
  | refl => exact .refl
  | tail before after label run _ taken ih =>
      exact .tail before after label ih (heard_of_two ops host q n two before run label) taken

-- How many more steps a worker can take once @finished is set.
def remaining : WorkerPc Task → Nat
  | .leaving (.task _) => 9
  | .executing _ => 8
  | .stopping => 5
  | .leaving (.wait _) => 4
  | .popping _ => 3
  | .checking _ => 2
  | .leaving _ => 1
  | .stopRaising => 4
  | .stopSignalling => 3
  | .stopLeaving => 2
  | .exited => 0

def workLeft (s : Pool Queue Task) : Nat := (s.workers.map remaining).sum

def ofWorker : PoolLabel Task Choice → Bool
  | .push _ _ | .finishRaise | .finishSignal _ => false
  | _ => true

theorem work_left_set (s : Pool Queue Task) (w : Nat) (old pc : WorkerPc Task) (stands : s.workers[w]? = some old)
    (less : remaining pc < remaining old) : workLeft (s.setWorker w pc) < workLeft s := by
  have moved := Slots.sum_set remaining s.workers w old pc stands
  simp only [workLeft, setWorker]
  omega

theorem work_left_step (ops : QueueOps Queue Task Host Choice) (host : Nat → Host) (s next : Pool Queue Task)
    (label : PoolLabel Task Choice) (wired : Wired s) (closed : s.queue.finished = true)
    (worker : ofWorker label = true) (effect : Effect ops host s label next) : workLeft next < workLeft s := by
  cases effect with
  | push => cases worker
  | finishRaise => cases worker
  | finishSignal => cases worker
  | acquire w n stands free awake => exact work_left_set s w _ (.checking n) stands (by simp [remaining])
  | check w n wake out queue stands turned =>
      rcases TaskQueue.pop_turn_cases ops s.queue queue w (host w) n wake out turned with
        ⟨retires, -, -⟩ | ⟨-, -, rfl, -⟩ | ⟨-, opened, -⟩ | ⟨-, opened, -⟩
      · simp [wired.noRetirement] at retires
      · exact work_left_set s w _ (.leaving .closed) stands (by simp [remaining])
      · simp [closed] at opened
      · simp [closed] at opened
  | leave w out stands =>
      cases out with
      | wait n => exact work_left_set s w _ (.popping n) stands (by simp [remaining])
      | task task => exact work_left_set s w _ (.executing task) stands (by simp [remaining])
      | retired => exact work_left_set s w _ .exited stands (by simp [remaining])
      | closed => exact work_left_set s w _ .exited stands (by simp [remaining])
  | taskEnd w task stands => exact work_left_set s w _ _ stands (by simp [remaining])
  | fail w task stands => exact work_left_set s w _ _ stands (by simp [remaining])
  | stopEnter w stands free => exact work_left_set s w _ .stopRaising stands (by simp [remaining])
  | stopRaise w stands => exact work_left_set s w _ .stopSignalling stands (by simp [remaining])
  | stopSignal w wake cv stands signalled => exact work_left_set s w _ .stopLeaving stands (by simp [remaining])
  | stopLeave w stands => exact work_left_set s w _ .exited stands (by simp [remaining])

-- A thread that is awake can move, or waits for @m whose owner can move.
theorem awake_progress (ops : QueueOps Queue Task Host Choice) (host : Nat → Host) (s : Pool Queue Task) (wired : Wired s)
    (w : Nat) (pc : WorkerPc Task) (stands : s.workers[w]? = some pc) (runs : pc ≠ .exited)
    (awake : w ∉ s.queue.cv.waiting) :
    ∃ (label : PoolLabel Task Choice) (next : Pool Queue Task), ofWorker label = true ∧ s.step ops host label = some next := by
  have owner : ∀ (v : Nat) (found : WorkerPc Task), s.workers[v]? = some found → holdsMutex found = true →
      ∃ (label : PoolLabel Task Choice) (next : Pool Queue Task), ofWorker label = true ∧ s.step ops host label = some next := by
    intro v found read holds
    cases found with
    | checking n =>
        obtain ⟨wake, out, queue, turned⟩ := TaskQueue.pop_turn_enabled ops s.queue v (host v) n
        exact ⟨.check v wake, _, rfl, by simp only [step, read, turned]; rfl⟩
    | leaving out => exact ⟨.leave v, _, rfl, by simp only [step, read]; rfl⟩
    | stopRaising => exact ⟨.stopRaise v, _, rfl, by simp only [step, read]; rfl⟩
    | stopSignalling =>
        obtain ⟨wake, cv, signalled⟩ := CondVar.signal_enabled s.queue.cv
        exact ⟨.stopSignal v wake, _, rfl, by simp only [step, read, TaskQueue.signal, signalled]; rfl⟩
    | stopLeaving => exact ⟨.stopLeave v, _, rfl, by simp only [step, read]; rfl⟩
    | popping | executing | stopping | exited => cases holds
  cases mutex : s.m with
  | some v =>
      obtain ⟨found, read, holds⟩ := wired.held v mutex
      exact owner v found read holds
  | none =>
      cases pc with
      | popping n => exact ⟨.acquire w, _, rfl, by simp only [step, stands, mutex, awake]; rfl⟩
      | executing task => exact ⟨.taskEnd w, _, rfl, by simp only [step, stands]; rfl⟩
      | stopping => exact ⟨.stopEnter w, _, rfl, by simp only [step, stands, mutex]; rfl⟩
      | exited => exact absurd rfl runs
      | checking | leaving | stopRaising | stopSignalling | stopLeaving => exact owner w _ stands rfl

-- What Operator#finish waits for: as long as some worker has not exited, some
-- worker can move, and each such move leaves less to do.
def JoinProgress (ops : QueueOps Queue Task Host Choice) (host : Nat → Host) (s : Pool Queue Task) : Prop :=
  s.completed = true → (∃ w, Running s w) →
    (∃ (label : PoolLabel Task Choice) (next : Pool Queue Task), ofWorker label = true ∧ s.step ops host label = some next) ∧
    ∀ (label : PoolLabel Task Choice) (next : Pool Queue Task), ofWorker label = true →
      s.step ops host label = some next → workLeft next < workLeft s

theorem relayed_join_progress (ops : QueueOps Queue Task Host Choice) (host : Nat → Host) (s : Pool Queue Task)
    (wired : Wired s) (inv : Relayed s) : JoinProgress ops host s := by
  intro completed ⟨w, pc, stands, runs⟩
  refine ⟨?_, fun label next worker taken => work_left_step ops host s next label wired
    (inv.raised (.inr (.inl (.inl completed)))) worker (step_effect ops host s next label taken)⟩
  by_cases asleep : w ∈ s.queue.cv.waiting
  · obtain ⟨v, awake, found, read, stirs⟩ := inv.relayed (.inl completed) (.inl (List.ne_nil_of_mem asleep))
    exact awake_progress ops host s wired v found read (by rintro rfl; cases stirs) awake
  · exact awake_progress ops host s wired w pc stands runs asleep

-- The schedule that loses the wake-up when the only worker looks at an empty
-- queue while the main thread runs the two statements of finish.
theorem window_schedule (ops : QueueOps Queue Task Host Choice) (host : Nat → Host) (q : Queue)
    (vacant : ops.isEmpty q = true) :
    ∃ s, Machine.Run (step ops host) (fun _ _ => True) (init q 1 : Pool Queue Task) s ∧ ¬ WakeupKept s := by
  let entered : Pool Queue Task := { init q 1 with m := some 0, workers := [.checking 0] }
  let looked : Pool Queue Task := { entered with workers := [.leaving (.wait 0)] }
  let raised : Pool Queue Task := { looked with finishing := true, queue := looked.queue.raiseFinished }
  let signalled : Pool Queue Task := { raised with finishing := false, completed := true }
  let asleep : Pool Queue Task := signalled.release 0 (.wait 0)
  have acquire : (init q 1).step ops host (.acquire 0) = some entered := rfl
  have check : entered.step ops host (.check 0 none) = some looked := by
    simp [entered, looked, step, init, TaskQueue.popTurn, TaskQueue.new, vacant, setWorker, record]
  have raise : looked.step ops host .finishRaise = some raised := rfl
  have signal : raised.step ops host (.finishSignal none) = some signalled := rfl
  have leave : signalled.step ops host (.leave 0) = some asleep := rfl
  refine ⟨asleep, ?_, ?_⟩
  · exact .tail _ _ _ (.tail _ _ _ (.tail _ _ _ (.tail _ _ _ (.tail _ _ _ .refl trivial acquire) trivial check)
      trivial raise) trivial signal) trivial leave
  · intro kept
    obtain ⟨w, awake, pc, stands, -⟩ := kept rfl (List.cons_ne_nil 0 [])
    have only : w = 0 := by
      have bound : w < asleep.workers.length := (List.getElem?_eq_some_iff.mp stands).1
      exact Nat.lt_one_iff.mp bound
    exact awake (by rw [only]; exact List.mem_cons_self)

theorem shutdown_keeps_wakeups (ops : QueueOps Queue Task Host Choice) (host : Nat → Host) (q : Queue)
    (vacant : ops.isEmpty q = true) (n : Nat) (staffed : 1 ≤ n) :
    ((∀ s : Pool Queue Task, Machine.Run (step ops host) (fun _ _ => True) (init q n) s → WakeupKept s) ↔ 2 ≤ n) ∧
    ∀ s : Pool Queue Task, Machine.Run (step ops host) Heard (init q n) s → WakeupKept s ∧ JoinProgress ops host s := by
  refine ⟨⟨fun kept => ?_, fun two s run => ?_⟩, fun s run => ?_⟩
  · by_contra few
    have one : n = 1 := by omega
    subst one
    obtain ⟨s, run, lost⟩ := window_schedule ops host q vacant
    exact lost (kept s run)
  · exact relayed_wakeup_kept s (relayed_run ops host q n s (run_heard ops host q n two s run))
  · have inv := relayed_run ops host q n s run
    exact ⟨relayed_wakeup_kept s inv, relayed_join_progress ops host s (wired_run ops host Heard q n s run) inv⟩

theorem shutdown_keeps_wakeups_simple :
    ((∀ s : Pool (SimpleQueue Nat) Nat,
      Machine.Run (step SimpleQueue.ops fun _ => ()) (fun _ _ => True) (init [] 3) s → WakeupKept s) ↔ 2 ≤ 3) ∧
    ∀ s : Pool (SimpleQueue Nat) Nat, Machine.Run (step SimpleQueue.ops fun _ => ()) Heard (init [] 3) s →
      WakeupKept s ∧ JoinProgress SimpleQueue.ops (fun _ => ()) s :=
  shutdown_keeps_wakeups SimpleQueue.ops (fun _ => ()) [] rfl 3 (by decide)

theorem lone_worker_misses_finish :
    ¬ ∀ s : Pool (SimpleQueue Nat) Nat,
      Machine.Run (step SimpleQueue.ops fun _ => ()) (fun _ _ => True) (init [] 1) s → WakeupKept s := by
  intro kept
  obtain ⟨s, run, completed, sleepers, alone⟩ := Machine.run_of_exec (step SimpleQueue.ops fun _ => ()) (fun _ _ => True)
    (fun s : Pool (SimpleQueue Nat) Nat =>
      s.completed = true ∧ s.queue.cv.waiting = [0] ∧ s.workers = [.popping 0])
    [.acquire 0, .check 0 none, .finishRaise, .finishSignal none, .leave 0] (init [] 1) (by decide)
  obtain ⟨w, awake, pc, stands, -⟩ := kept s run completed (by simp [sleepers])
  rw [alone] at stands
  have only : w = 0 := Nat.lt_one_iff.mp (List.getElem?_eq_some_iff.mp stands).1
  exact awake (by simp [sleepers, only])

end Pwrake.Pool
