import Pwrake.WorkerPool

set_option autoImplicit false

namespace Pwrake.Pool

variable {Queue Task Host Choice : Type*}

def holdsMutex : WorkerPc Task → Bool
  | .checking _ | .leaving _ | .stopRaising | .stopSignalling | .stopLeaving => true
  | _ => false

-- The monitor discipline: the owner of @m is exactly the thread standing inside
-- a synchronized block, and only threads inside pop are known to @cv.
structure Wired (s : Pool Queue Task) : Prop where
  tidy : s.queue.cv.Tidy
  waiters : ∀ w ∈ s.queue.cv.waiting, ∃ n, s.workers[w]? = some (.popping n)
  woken : ∀ w ∈ s.queue.cv.notified, ∃ n, s.workers[w]? = some (.popping n)
  owner : ∀ w pc, s.workers[w]? = some pc → holdsMutex pc = true → s.m = some w
  held : ∀ w, s.m = some w → ∃ pc, s.workers[w]? = some pc ∧ holdsMutex pc = true
  noRetirement : s.queue.thEnd = []

theorem set_worker_lookup (s : Pool Queue Task) (w v : Nat) (old pc : WorkerPc Task)
    (stands : s.workers[w]? = some old) :
    (s.setWorker w pc).workers[v]? = if v = w then some pc else s.workers[v]? :=
  Slots.lookup_set s.workers w v old pc stands

theorem wired_init (q : Queue) (n : Nat) : Wired (init q n : Pool Queue Task) where
  tidy := ⟨List.nodup_nil, List.nodup_nil, fun _ member => absurd member List.not_mem_nil⟩
  waiters := fun _ member => absurd member List.not_mem_nil
  woken := fun _ member => absurd member List.not_mem_nil
  owner := by
    intro w pc read holds
    rw [Slots.lookup_replicate n w _ pc read] at holds
    cases holds
  held := by intro w owned; cases owned
  noRetirement := rfl

section Parts

variable {s : Pool Queue Task}

-- A thread that moves while it stands outside pop is unknown to @cv.
theorem wired_outside (wired : Wired s) (w : Nat) (pc : WorkerPc Task) (stands : s.workers[w]? = some pc)
    (outside : ∀ n, pc ≠ .popping n) : w ∉ s.queue.cv.waiting ∧ w ∉ s.queue.cv.notified := by
  constructor
  · intro member
    obtain ⟨n, inside⟩ := wired.waiters w member
    exact outside n (Option.some.inj (stands.symm.trans inside))
  · intro member
    obtain ⟨n, inside⟩ := wired.woken w member
    exact outside n (Option.some.inj (stands.symm.trans inside))

theorem wired_signal (wired : Wired s) (wake : Option Nat) (cv : CondVar Nat)
    (signalled : s.queue.cv.signal wake = some cv) : Wired { s with queue := { s.queue with cv := cv } } where
  tidy := CondVar.signal_tidy _ cv wake signalled wired.tidy
  waiters := fun w member => wired.waiters w (CondVar.signal_waiting _ cv wake signalled w member)
  woken := by
    intro w member
    rcases CondVar.signal_notified _ cv wake signalled w member with earlier | waited
    · exact wired.woken w earlier
    · exact wired.waiters w waited
  owner := wired.owner
  held := wired.held
  noRetirement := wired.noRetirement

theorem wired_move (wired : Wired s) (w : Nat) (old pc : WorkerPc Task) (stands : s.workers[w]? = some old)
    (outside : ∀ n, old ≠ .popping n) (same : holdsMutex pc = holdsMutex old) : Wired (s.setWorker w pc) := by
  obtain ⟨notWaiting, notWoken⟩ := wired_outside wired w old stands outside
  refine ⟨wired.tidy, ?_, ?_, ?_, ?_, wired.noRetirement⟩
  · intro v member
    have different : v ≠ w := fun equal => notWaiting (equal ▸ member)
    simpa only [set_worker_lookup s w v old pc stands, if_neg different] using wired.waiters v member
  · intro v member
    have different : v ≠ w := fun equal => notWoken (equal ▸ member)
    simpa only [set_worker_lookup s w v old pc stands, if_neg different] using wired.woken v member
  · intro v found read holds
    rw [set_worker_lookup s w v old pc stands] at read
    by_cases equal : v = w
    · rw [if_pos equal, Option.some.injEq] at read
      subst equal read
      exact wired.owner v old stands (same ▸ holds)
    · rw [if_neg equal] at read
      exact wired.owner v found read holds
  · intro v owned
    rw [set_worker_lookup s w v old pc stands]
    by_cases equal : v = w
    · obtain ⟨found, read, holds⟩ := wired.held v owned
      rw [equal, stands, Option.some.injEq] at read
      exact ⟨pc, if_pos equal, by rw [same, read]; exact holds⟩
    · simpa only [if_neg equal] using wired.held v owned

theorem wired_enter (wired : Wired s) (w : Nat) (old pc : WorkerPc Task) (stands : s.workers[w]? = some old)
    (free : s.m = none) (outside : w ∉ s.queue.cv.waiting ∧ w ∉ s.queue.cv.notified) (holds : holdsMutex pc = true) :
    Wired ({ s with m := some w }.setWorker w pc) := by
  have nobody : ∀ (v : Nat) (found : WorkerPc Task), s.workers[v]? = some found → holdsMutex found = false := by
    intro v found read
    cases claims : holdsMutex found with
    | false => rfl
    | true => exact nomatch free.symm.trans (wired.owner v found read claims)
  refine ⟨wired.tidy, ?_, ?_, ?_, ?_, wired.noRetirement⟩
  · intro v member
    have different : v ≠ w := fun equal => outside.1 (equal ▸ member)
    simpa only [setWorker, Slots.lookup_set s.workers w v old pc stands, if_neg different] using wired.waiters v member
  · intro v member
    have different : v ≠ w := fun equal => outside.2 (equal ▸ member)
    simpa only [setWorker, Slots.lookup_set s.workers w v old pc stands, if_neg different] using wired.woken v member
  · intro v found read claims
    simp only [setWorker, Slots.lookup_set s.workers w v old pc stands] at read
    by_cases equal : v = w
    · rw [equal]; rfl
    · rw [if_neg equal] at read
      rw [nobody v found read] at claims
      cases claims
  · intro v owned
    have equal : v = w := (Option.some.inj owned).symm
    refine ⟨pc, ?_, holds⟩
    simp only [setWorker, Slots.lookup_set s.workers w v old pc stands, if_pos equal]

theorem wired_exit (wired : Wired s) (w : Nat) (old pc : WorkerPc Task) (stands : s.workers[w]? = some old)
    (holds : holdsMutex old = true) (outside : holdsMutex pc = false) :
    Wired ({ s with m := none }.setWorker w pc) := by
  have owned := wired.owner w old stands holds
  obtain ⟨notWaiting, notWoken⟩ := wired_outside wired w old stands (by rintro n rfl; cases holds)
  refine ⟨wired.tidy, ?_, ?_, ?_, (by intro v owned; cases owned), wired.noRetirement⟩
  · intro v member
    have different : v ≠ w := fun equal => notWaiting (equal ▸ member)
    simpa only [setWorker, Slots.lookup_set s.workers w v old pc stands, if_neg different] using wired.waiters v member
  · intro v member
    have different : v ≠ w := fun equal => notWoken (equal ▸ member)
    simpa only [setWorker, Slots.lookup_set s.workers w v old pc stands, if_neg different] using wired.woken v member
  · intro v found read claims
    simp only [setWorker, Slots.lookup_set s.workers w v old pc stands] at read
    by_cases equal : v = w
    · rw [if_pos equal, Option.some.injEq] at read
      rw [← read, outside] at claims
      cases claims
    · rw [if_neg equal] at read
      exact absurd (Option.some.inj ((wired.owner v found read claims).symm.trans owned)) equal

end Parts

theorem wired_step (ops : QueueOps Queue Task Host Choice) (host : Nat → Host) (s next : Pool Queue Task)
    (label : PoolLabel Task Choice) (wired : Wired s) (effect : Effect ops host s label next) : Wired next := by
  cases effect with
  | push tasks wake cv free signalled =>
      obtain ⟨tidy, waiters, woken, owner, held, noRetirement⟩ := wired_signal wired wake cv signalled
      exact ⟨tidy, waiters, woken, owner, held, noRetirement⟩
  | acquire w n stands free awake =>
      have resumed : Wired { s with queue := { s.queue with cv := s.queue.cv.resume w } } :=
        ⟨CondVar.resume_tidy _ w wired.tidy, wired.waiters, fun v member => wired.woken v (List.mem_of_mem_erase member),
          wired.owner, wired.held, wired.noRetirement⟩
      refine wired_enter resumed w (.popping n) (.checking n) stands free ⟨awake, ?_⟩ rfl
      exact wired.tidy.notified.not_mem_erase
  | check w n wake out queue stands turned =>
      have moved : ∀ cv, s.queue.cv.signal wake = some cv ∨ cv = s.queue.cv →
          Wired ({ s with queue := { s.queue with cv := cv } }.setWorker w (.leaving out)) := by
        rintro cv (signalled | rfl)
        · exact wired_move (wired_signal wired wake cv signalled) w (.checking n) _ stands (by simp) rfl
        · exact wired_move wired w (.checking n) _ stands (by simp) rfl
      rcases TaskQueue.pop_turn_cases ops s.queue queue w (host w) n wake out turned with
        ⟨retires, -, -⟩ | ⟨-, -, -, cv, signalled, rfl⟩ | ⟨-, -, -, -, rfl⟩ | ⟨-, -, -, -, cv, signalled, rfl⟩
      · simp [wired.noRetirement] at retires
      · obtain ⟨tidy, waiters, woken, owner, held, noRetirement⟩ := moved cv (.inl signalled)
        exact ⟨tidy, waiters, woken, owner, held, noRetirement⟩
      · obtain ⟨tidy, waiters, woken, owner, held, noRetirement⟩ := moved _ (.inr rfl)
        exact ⟨tidy, waiters, woken, owner, held, noRetirement⟩
      · obtain ⟨tidy, waiters, woken, owner, held, noRetirement⟩ := moved cv (.inl signalled)
        exact ⟨tidy, waiters, woken, owner, held, noRetirement⟩
  | leave w out stands =>
      cases out with
      | wait n =>
          have owned := wired.owner w _ stands rfl
          obtain ⟨notWaiting, notWoken⟩ := wired_outside wired w _ stands (by simp)
          have left := wired_exit wired w _ (.popping n) stands rfl rfl
          refine ⟨CondVar.wait_tidy _ w left.tidy notWaiting notWoken, ?_, left.woken, left.owner, left.held, left.noRetirement⟩
          intro v member
          rcases List.mem_cons.mp member with same | earlier
          · refine ⟨n, ?_⟩
            simp only [release, setWorker, Slots.lookup_set s.workers w v _ _ stands, if_pos same]
          · exact left.waiters v earlier
      | task task => exact wired_exit wired w _ (.executing task) stands rfl rfl
      | retired => exact wired_exit wired w _ .exited stands rfl rfl
      | closed => exact wired_exit wired w _ .exited stands rfl rfl
  | taskEnd w task stands => exact wired_move wired w _ _ stands (by simp) rfl
  | fail w task stands => exact wired_move wired w _ _ stands (by simp) rfl
  | stopEnter w stands free =>
      have cleared : Wired { s with queue := s.queue.clear ops } :=
        ⟨wired.tidy, wired.waiters, wired.woken, wired.owner, wired.held, wired.noRetirement⟩
      exact wired_enter cleared w _ .stopRaising stands free (wired_outside wired w _ stands (by simp)) rfl
  | stopRaise w stands =>
      have raised : Wired { s with queue := s.queue.raiseFinished } :=
        ⟨wired.tidy, wired.waiters, wired.woken, wired.owner, wired.held, wired.noRetirement⟩
      exact wired_move raised w _ _ stands (by simp) rfl
  | stopSignal w wake cv stands signalled =>
      exact wired_move (wired_signal wired wake cv signalled) w _ _ stands (by simp) rfl
  | stopLeave w stands =>
      obtain ⟨tidy, waiters, woken, owner, held, noRetirement⟩ := wired_exit wired w _ .exited stands rfl rfl
      exact ⟨tidy, waiters, woken, owner, held, noRetirement⟩
  | finishRaise idle => exact ⟨wired.tidy, wired.waiters, wired.woken, wired.owner, wired.held, wired.noRetirement⟩
  | finishSignal wake cv raised signalled =>
      obtain ⟨tidy, waiters, woken, owner, held, noRetirement⟩ := wired_signal wired wake cv signalled
      exact ⟨tidy, waiters, woken, owner, held, noRetirement⟩

theorem wired_run (ops : QueueOps Queue Task Host Choice) (host : Nat → Host)
    (guard : Pool Queue Task → PoolLabel Task Choice → Prop) (q : Queue) (n : Nat) (s : Pool Queue Task)
    (run : Machine.Run (step ops host) guard (init q n) s) : Wired s :=
  Machine.run_invariant Wired (init q n) (wired_init q n)
    (fun before after label _ wired _ taken => wired_step ops host before after label wired
      (step_effect ops host before after label taken)) s run

end Pwrake.Pool
