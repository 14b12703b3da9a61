import Pwrake.InvokeOrder

set_option autoImplicit false

namespace Pwrake

namespace Pool

variable {Queue Task Host Choice : Type*} {ops : QueueOps Queue Task Host Choice} {host : Nat → Host} {s : Pool Queue Task}

-- Once finish or stop has raised @finished, pop gives out no task any more.
structure Closed (s next : Pool Queue Task) : Prop where
  finished : next.queue.finished = true
  handed : next.handed = s.handed
  hands : next.carried ≤ s.carried

theorem closed_step (next : Pool Queue Task) (label : PoolLabel Task Choice) (finished : s.queue.finished = true)
    (effect : Effect ops host s label next) : Closed s next := by
  -- a worker that changes place without taking a task
  have move : ∀ (before : Pool Queue Task) (w : Nat) (old pc : WorkerPc Task), before.workers[w]? = some old →
      before.workers = s.workers → before.queue.finished = true → before.handed = s.handed → carries pc ≤ carries old →
      Closed s (before.setWorker w pc) := by
    intro before w old pc stands workers raised handed less
    refine ⟨raised, handed, ?_⟩
    have moved := carried_set before w old pc stands
    have bound : (before.setWorker w pc).carried + carries old ≤ before.carried + carries old :=
      moved.trans_le (add_le_add_right less _)
    have shrunk := le_of_add_le_add_right bound
    unfold carried at shrunk ⊢
    rwa [workers] at shrunk
  cases effect with
  | push => exact ⟨finished, rfl, le_rfl⟩
  | acquire w n stands => exact move _ w _ (.checking n) stands rfl finished rfl le_rfl
  | check w n wake out queue stands turned =>
      rcases TaskQueue.pop_turn_cases ops s.queue queue w (host w) n wake out turned with
        ⟨-, rfl, rfl⟩ | ⟨-, -, rfl, cv, -, rfl⟩ | ⟨-, opened, -⟩ | ⟨-, opened, -⟩
      · exact move { s with queue := { s.queue with thEnd := s.queue.thEnd.tail }, handed := s.record w .retired } w _ _ stands rfl
          finished rfl le_rfl
      · exact move { s with queue := { s.queue with cv := cv }, handed := s.record w .closed } w _ _ stands rfl finished rfl le_rfl
      · simp [finished] at opened
      · simp [finished] at opened
  | leave w out stands =>
      cases out with
      | wait n => exact move _ w _ (.popping n) stands rfl finished rfl le_rfl
      | task task => exact move _ w _ (.executing task) stands rfl finished rfl le_rfl
      | retired => exact move _ w _ .exited stands rfl finished rfl le_rfl
      | closed => exact move _ w _ .exited stands rfl finished rfl le_rfl
  | taskEnd w task stands => exact move s w _ (.popping 0) stands rfl finished rfl (Multiset.zero_le _)
  | fail w task stands => exact move s w _ .stopping stands rfl finished rfl (Multiset.zero_le _)
  | stopEnter w stands => exact move _ w _ .stopRaising stands rfl finished rfl le_rfl
  | stopRaise w stands => exact move _ w _ .stopSignalling stands rfl rfl rfl le_rfl
  | stopSignal w wake cv stands => exact move _ w _ .stopLeaving stands rfl finished rfl le_rfl
  | stopLeave w stands => exact move _ w _ .exited stands rfl finished rfl le_rfl
  | finishRaise => exact ⟨rfl, rfl, le_rfl⟩
  | finishSignal => exact ⟨finished, rfl, le_rfl⟩

theorem carried_count (s : Pool Queue Task) : Multiset.card s.carried ≤ s.workers.length := by
  unfold carried
  induction s.workers with
  | nil => simp
  | cons pc rest ih =>
      have single : Multiset.card (carries pc) ≤ 1 := by
        unfold carries
        split <;> simp
      simp only [List.map_cons, List.sum_cons, Multiset.card_add, List.length_cons]
      omega

end Pool

namespace InvokeTask

variable {Queue Task Host Choice Name Scope : Type*}

-- From a state on in which the queue is finished, a worker still starts the
-- task that it has in its hands and no other.
structure Halted (s next : InvokeTask Queue Task) : Prop where
  pool : Pool.Closed s.pool next.pool
  started : ∃ more, next.started = s.started ++ more ∧ ∀ task ∈ more, task ∈ s.pool.carried

section Steps

variable [DecidableEq Task] [Fintype Task] {app : Application Task Name Scope} {root : Task} {ops : QueueOps Queue Task Host Choice}
  {host : Nat → Host} {guard : InvokeTask Queue Task → InvokeLabel Task Choice → Prop}

theorem halted_step (s before after : InvokeTask Queue Task) (label : InvokeLabel Task Choice) (halted : Halted s before)
    (effect : Effect app root ops host before label after) : Halted s after := by
  have closed : Pool.Closed s.pool after.pool := by
    rcases effect_pool before after label effect with same | ⟨move, moved⟩
    · exact same ▸ halted.pool
    · have next := Pool.closed_step _ move halted.pool.finished (Pool.step_effect ops host _ _ _ moved)
      exact ⟨next.finished, next.handed.trans halted.pool.handed, next.hands.trans halted.pool.hands⟩
  refine ⟨closed, ?_⟩
  obtain ⟨more, grown, carried⟩ := halted.started
  cases effect with
  | start w task stands stage =>
      refine ⟨more ++ [task], by simp [grown], fun other member => ?_⟩
      rcases List.mem_append.mp member with earlier | now
      · exact carried other earlier
      · obtain rfl : other = task := by simpa using now
        exact Multiset.mem_of_le halted.pool.hands (Pool.carried_member before.pool w _ other stands (by simp [Pool.carries]))
  | _ => exact ⟨more, grown, carried⟩

theorem halted_run (s next : InvokeTask Queue Task) (finished : s.pool.queue.finished = true)
    (run : Machine.Run (step app root ops host) guard s next) : Halted s next := by
  refine Machine.run_invariant (Halted s) s ?_ ?_ next run
  · exact ⟨⟨finished, rfl, le_rfl⟩, [], by simp⟩
  · intro before after label _ halted _ taken
    exact halted_step s before after label halted (step_effect app root ops host before after label taken)

theorem size_run (q : Queue) (n : Nat) (s : InvokeTask Queue Task)
    (run : Machine.Run (step app root ops host) guard (new q n) s) : s.pool.workers.length = n := by
  refine Machine.run_invariant (fun s => s.pool.workers.length = n) (new q n) List.length_replicate ?_ s run
  intro before after label _ size _ taken
  rcases effect_pool before after label (step_effect app root ops host before after label taken) with same | ⟨move, moved⟩
  · exact same ▸ size
  · exact (Pool.worker_count ops host _ _ move (Pool.step_effect ops host _ _ _ moved)).trans size

-- No task is started twice, so what starts late is at most one task a worker.
omit [DecidableEq Task] [Fintype Task] in
theorem halted_starts (s next : InvokeTask Queue Task) (halted : Halted s next) (once : next.started.Nodup) :
    ∃ more : List Task, next.started = s.started ++ more ∧ (more : Multiset Task) ≤ s.pool.carried ∧
      more.length ≤ s.pool.workers.length := by
  obtain ⟨more, grown, carried⟩ := halted.started
  have distinct : more.Nodup := (List.nodup_append.mp (grown ▸ once)).2.1
  have within : (more : Multiset Task) ≤ s.pool.carried :=
    (Multiset.le_iff_subset (Multiset.coe_nodup.mpr distinct)).mpr fun task member => carried task (Multiset.mem_coe.mp member)
  refine ⟨more, grown, within, ?_⟩
  have fewer := Multiset.card_le_card within
  rw [Multiset.coe_card] at fewer
  exact fewer.trans (Pool.carried_count s.pool)

end Steps

end InvokeTask

end Pwrake
