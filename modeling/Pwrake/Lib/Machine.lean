import Mathlib.Data.List.Basic
import Mathlib.Order.WellFounded

set_option autoImplicit false

namespace Machine

variable {State Label : Type*}

-- A machine is a partial step function. The label resolves every choice the
-- environment makes, so nondeterminism is quantification over labels. A guard
-- restricts which labels may be taken in which state.
inductive Run (step : State → Label → Option State) (guard : State → Label → Prop) (start : State) :
    State → Prop where
  | refl : Run step guard start start
  | tail (before after : State) (label : Label) (run : Run step guard start before)
      (allowed : guard before label) (taken : step before label = some after) : Run step guard start after

section Runs

variable {step : State → Label → Option State} {guard : State → Label → Prop}

theorem run_trans (a b c : State) (first : Run step guard a b) (second : Run step guard b c) :
    Run step guard a c := by
  induction second with
  | refl => exact first
  | tail before after label _ allowed taken ih => exact .tail before after label ih allowed taken

theorem run_single (before after : State) (label : Label) (allowed : guard before label)
    (taken : step before label = some after) : Run step guard before after :=
  .tail before after label .refl allowed taken

theorem run_mono (weaker : State → Label → Prop) (start state : State)
    (implies : ∀ state label, guard state label → weaker state label) (run : Run step guard start state) :
    Run step weaker start state := by
  induction run with
  | refl => exact .refl
  | tail before after label _ allowed taken ih =>
      exact .tail before after label ih (implies before label allowed) taken

-- The induction every safety argument uses: an earlier established fact about
-- runs may be consulted while a new invariant is shown to be preserved.
theorem run_invariant (inv : State → Prop) (start : State) (initially : inv start)
    (preserved : ∀ before after label, Run step guard start before → inv before →
      guard before label → step before label = some after → inv after)
    (state : State) (run : Run step guard start state) : inv state := by
  induction run with
  | refl => exact initially
  | tail before after label run allowed taken ih => exact preserved before after label run ih allowed taken

-- A guard that an invariant of the run makes imply another.
theorem run_strengthen (inv : State → Prop) (stronger : State → Label → Prop) (start : State)
    (holds : ∀ state, Run step guard start state → inv state)
    (implies : ∀ state label, inv state → guard state label → stronger state label) (state : State)
    (run : Run step guard start state) : Run step stronger start state := by
  induction run with
  | refl => exact .refl
  | tail before after label run allowed taken ih =>
      exact .tail before after label ih (implies before label (holds before run) allowed) taken

-- Forward simulation: each step is matched by any number of steps of the other
-- machine.
theorem run_simulates {Other Move : Type*} {follow : Other → Move → Option Other} {rule : Other → Move → Prop}
    (relates : State → Other → Prop) (start : State) (origin : Other) (initially : relates start origin)
    (simulates : ∀ before after label other, Run step guard start before → relates before other →
      guard before label → step before label = some after → ∃ next, Run follow rule other next ∧ relates after next)
    (state : State) (run : Run step guard start state) : ∃ other, Run follow rule origin other ∧ relates state other := by
  induction run with
  | refl => exact ⟨origin, .refl, initially⟩
  | tail before after label run allowed taken ih =>
      obtain ⟨other, reached, related⟩ := ih
      obtain ⟨next, onward, result⟩ := simulates before after label other run related allowed taken
      exact ⟨next, run_trans origin other next reached onward, result⟩

-- Two machines whose steps match label by label reach the same states up to
-- the relation.
theorem run_matched {Other Move : Type*} {follow : Other → Move → Option Other} (relates : State → Other → Prop)
    (shadow : Label → Move) (onto : ∀ move, ∃ label, shadow label = move) (start : State) (origin : Other)
    (initially : relates start origin)
    (matched : ∀ state other label, Run step (fun _ _ => True) start state → relates state other →
      Option.Rel relates (step state label) (follow other (shadow label))) :
    (∀ state, Run step (fun _ _ => True) start state → ∃ other, Run follow (fun _ _ => True) origin other ∧ relates state other) ∧
      ∀ other, Run follow (fun _ _ => True) origin other → ∃ state, Run step (fun _ _ => True) start state ∧ relates state other := by
  constructor
  · refine run_simulates relates start origin initially fun before after label other run related _ taken => ?_
    have same := matched before other label run related
    rw [taken] at same
    cases answer : follow other (shadow label) with
    | none => rw [answer] at same; cases same
    | some next =>
        rw [answer] at same
        cases same with
        | some result => exact ⟨next, run_single other next _ trivial answer, result⟩
  · intro other run
    obtain ⟨state, -, reached, related⟩ :=
      run_simulates (fun other state => Run step (fun _ _ => True) start state ∧ relates state other)
        origin start ⟨.refl, initially⟩ (by
          rintro before after move state - ⟨reached, related⟩ - taken
          obtain ⟨label, rfl⟩ := onto move
          have same := matched state before label reached related
          rw [taken] at same
          cases answer : step state label with
          | none => rw [answer] at same; cases same
          | some next =>
              rw [answer] at same
              cases same with
              | some result =>
                  have onward : Run step (fun _ _ => True) state next := run_single state next label trivial answer
                  exact ⟨next, onward, run_trans start state next reached onward, result⟩) other run
    exact ⟨state, reached, related⟩

end Runs

def Endless (step : State → Label → Option State) (guard : State → Label → Prop) (start : State) : Prop :=
  ∃ states : Nat → State, states 0 = start ∧
    ∀ i, ∃ label, guard (states i) label ∧ step (states i) label = some (states (i + 1))

-- A measure into a well-founded order that every step of a run lowers bounds
-- the run.
theorem run_descends {Measure : Type*} {below : Measure → Measure → Prop} (founded : WellFounded below)
    (step : State → Label → Option State) (guard : State → Label → Prop) (start : State) (measure : State → Measure)
    (falls : ∀ before after label, Run step guard start before → guard before label → step before label = some after →
      below (measure after) (measure before)) : ¬ Endless step guard start := by
  rintro ⟨states, first, taken⟩
  have reached : ∀ i, Run step guard start (states i) := by
    intro i
    induction i with
    | zero => exact first ▸ .refl
    | succ i ih =>
        obtain ⟨label, allowed, next⟩ := taken i
        exact .tail (states i) (states (i + 1)) label ih allowed next
  refine (wellFounded_iff_isEmpty_descending_chain.mp founded).elim ⟨fun i => measure (states i), fun i => ?_⟩
  obtain ⟨label, allowed, next⟩ := taken i
  exact falls (states i) (states (i + 1)) label (reached i) allowed next

theorem run_ends (step : State → Label → Option State) (guard : State → Label → Prop) (start : State)
    (measure : State → Nat)
    (falls : ∀ before after label, Run step guard start before → guard before label → step before label = some after →
      measure after < measure before) : ¬ Endless step guard start :=
  run_descends Nat.lt_wfRel.wf step guard start measure falls

def exec (step : State → Label → Option State) (guard : State → Label → Prop)
    [∀ state label, Decidable (guard state label)] : State → List Label → Option State
  | state, [] => some state
  | state, label :: rest =>
      if guard state label then
        match step state label with
        | none => none
        | some next => exec step guard next rest
      else none

theorem exec_run (step : State → Label → Option State) (guard : State → Label → Prop)
    [∀ state label, Decidable (guard state label)] (labels : List Label) (start state : State)
    (executed : exec step guard start labels = some state) : Run step guard start state := by
  induction labels generalizing start with
  | nil => cases executed; exact .refl
  | cons label rest ih =>
      by_cases allowed : guard start label
      · cases taken : step start label with
        | none => simp [exec, allowed, taken] at executed
        | some next =>
            simp only [exec, if_pos allowed, taken] at executed
            exact run_trans start next state (run_single start next label allowed taken) (ih next executed)
      · simp [exec, allowed] at executed

-- How a concrete schedule is used: it runs to the end, and a decidable fact
-- holds of the state it ends in.
theorem run_of_exec (step : State → Label → Option State) (guard : State → Label → Prop)
    [∀ state label, Decidable (guard state label)] (final : State → Prop) [DecidablePred final]
    (labels : List Label) (start : State)
    (executed : (exec step guard start labels).any (fun state => decide (final state)) = true) :
    ∃ state, Run step guard start state ∧ final state := by
  cases result : exec step guard start labels with
  | none => simp [result] at executed
  | some state =>
      refine ⟨state, exec_run step guard labels start state result, ?_⟩
      simpa [result] using executed

end Machine
