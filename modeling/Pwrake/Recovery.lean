import Pwrake.FailedTrace
import Pwrake.Tracing

set_option autoImplicit false

namespace Pwrake

namespace Tracing

open Tracer

variable {Task Name Scope : Type*} [DecidableEq Task]

variable [Fintype Task] {app : Application Task Name Scope} {answers : Set (Task → Bool)}

-- A task that was marked and not handed out is out of everybody's reach.
theorem lost_task_never_starts (guard : Tracing Task → TracingLabel Task → Prop) (start s : Tracing Task) (task : Task)
    (booked : Booked start) (fetched : task ∈ start.trace.fetched) (uninvoked : task ∉ start.trace.invoked)
    (unreturned : task ∉ start.returned) (run : Machine.Run (step app) guard start s) :
    task ∉ s.executed ∧ task ∉ s.trace.invoked := by
  have stays : Booked s ∧ task ∈ s.trace.fetched ∧ task ∉ s.trace.invoked ∧ task ∉ s.returned := by
    refine Machine.run_invariant
      (fun s => Booked s ∧ task ∈ s.trace.fetched ∧ task ∉ s.trace.invoked ∧ task ∉ s.returned) start
      ⟨booked, fetched, uninvoked, unreturned⟩ ?_ s run
    rintro before after label _ ⟨booked, fetched, uninvoked, unreturned⟩ _ taken
    have effect := step_effect app before after label taken
    refine ⟨booked_step before after label booked effect, ?_⟩
    have traced : ∀ needed root result final, availableTask app needed root (cleared before.trace) = (result, final) →
        task ∈ final.fetched ∧ task ∉ final.invoked ∧ task ∉ final.fetchedTasks := by
      intro needed root result final traced
      have outcome := call_outcome needed root before.trace final result traced
      refine ⟨(outcome.fetched task).mpr (.inl fetched), fun now => ?_, fun now => (outcome.chosen task now).2.1 fetched⟩
      exact (outcome.dropped task now uninvoked).2.1 fetched
    cases effect with
    | batch root needed status final found =>
        obtain ⟨listed, down, absent⟩ := traced needed root _ final found
        exact ⟨listed, down, by simp [returned] at unreturned ⊢; exact ⟨unreturned, absent⟩⟩
    | finished root needed final found =>
        obtain ⟨listed, down, -⟩ := traced needed root _ final found
        exact ⟨listed, down, unreturned⟩
    | failed root needed error final found =>
        obtain ⟨listed, down, -⟩ := traced needed root _ final found
        exact ⟨listed, down, unreturned⟩
    | execute other queued =>
        have different : task ≠ other := by
          rintro rfl
          exact unreturned (List.count_pos_iff.mp (Nat.zero_lt_of_lt queued))
        exact ⟨fetched, by simp [different, uninvoked], unreturned⟩
  obtain ⟨booked, -, down, absent⟩ := stays
  refine ⟨fun ran => ?_, down⟩
  exact absent (List.count_pos_iff.mp ((List.count_pos_iff.mpr ran).trans_le (booked.started task)))

end Tracing

end Pwrake
