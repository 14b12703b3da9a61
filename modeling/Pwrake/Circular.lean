import Pwrake.Frontier

set_option autoImplicit false

namespace Pwrake

namespace Tracer

variable {Task Name Scope : Type*} {app : Application Task Name Scope}

section Search

variable [DecidableEq Task] {needed : Task → Bool}

-- A search that did not run out of depth comes to the same end with more.
omit [DecidableEq Task] in
theorem find_prereqs_deeper (task : Task) (find deeper : Task → TraceState Task → Traced Task Name (Option Status))
    (agree : ∀ prereq s, (find prereq s).1 ≠ .error .tooDeep → deeper prereq s = find prereq s) (names : List Name)
    (allInvoked : Bool) (s : TraceState Task) (ended : (findPrereqs app find task names allInvoked s).1 ≠ .error .tooDeep) :
    findPrereqs app deeper task names allInvoked s = findPrereqs app find task names allInvoked s := by
  induction names generalizing allInvoked s with
  | nil => rfl
  | cons name rest ih =>
      cases resolved : resolve app task name with
      | none => simp [findPrereqs, resolved]
      | some prereq =>
          have same : deeper prereq s = find prereq s := by
            apply agree
            intro deep
            apply ended
            rcases found : find prereq s with ⟨result, after⟩
            rw [found] at deep
            simp only at deep
            subst deep
            simp [findPrereqs, resolved, found]
          rcases found : find prereq s with ⟨inner | (none | status), after⟩
          · simp only [findPrereqs, resolved, same, found]
          · simp only [findPrereqs, resolved, same, found] at ended ⊢
            exact ih allInvoked after ended
          · simp only [findPrereqs, resolved, same, found] at ended ⊢
            exact ih false after ended

theorem find_task_deeper (depth : Nat) (task : Task) (chain : List Task) (s : TraceState Task)
    (ended : (findTask app needed depth task chain s).1 ≠ .error .tooDeep) :
    findTask app needed (depth + 1) task chain s = findTask app needed depth task chain s := by
  induction depth generalizing task chain s with
  | zero => exact absurd rfl ended
  | succ depth ih =>
      rw [findTask, findTask]
      rw [findTask] at ended
      by_cases invoked : task ∈ s.invoked
      · simp only [if_pos invoked]
      · by_cases circular : task ∈ chain
        · simp only [if_neg invoked, if_pos circular]
        · by_cases known : task ∈ s.footprint ∨ task ∈ s.fetched
          · simp only [if_neg invoked, if_neg circular, if_pos known]
          · simp only [if_neg invoked, if_neg circular, if_neg known] at ended ⊢
            rw [find_prereqs_deeper task (fun prereq => findTask app needed depth prereq (chain ++ [task]))
              (fun prereq => findTask app needed (depth + 1) prereq (chain ++ [task]))
              (fun prereq s ended => ih prereq (chain ++ [task]) s ended)]
            intro deep
            apply ended
            rcases looped : findPrereqs app (fun prereq => findTask app needed depth prereq (chain ++ [task])) task
                (app.prerequisites task) true { s with footprint := insert task s.footprint } with ⟨result, after⟩
            rw [looped] at deep
            simp only at deep
            rw [deep]

end Search

-- Where nothing was marked before, a clean task has no cycle below it.
theorem clean_acyclic (start : TraceState Task) (unmarked : ∀ task, task ∉ start.invoked ∧ task ∉ start.fetched)
    (task : Task) (clean : Clean app start task) : ∀ lower, Reach app task lower → ¬ Relation.TransGen (Needs app) lower lower := by
  induction clean with
  | stopped task marked => exact absurd marked (not_or.mpr (unmarked task))
  | opened task _ _ ih =>
      have below : ∀ prereq, Needs app task prereq → ∀ lower, Reach app prereq lower →
          ¬ Relation.TransGen (Needs app) lower lower := ih
      intro lower reach cycle
      rcases Relation.ReflTransGen.cases_head reach with same | ⟨prereq, edge, rest⟩
      · subst same
        obtain ⟨prereq, edge, back⟩ := Relation.TransGen.head'_iff.mp cycle
        exact below prereq edge prereq .refl (Relation.TransGen.tail' back edge)
      · exact below prereq edge lower rest cycle

def blank : TraceState Task := ⟨∅, ∅, ∅, []⟩

-- On any graph whose names resolve, the search ends, and it reports a circular
-- dependency exactly where there is one.
theorem circular_dependency_reported [DecidableEq Task] [Fintype Task] (app : Application Task Name Scope)
    (needed : Task → Bool) (root : Task)
    (resolves : ∀ task, Reach app root task → ∀ name ∈ app.prerequisites task, ∃ prereq, resolve app task name = some prereq) :
    ∃ result after, (∀ depth, Fintype.card Task < depth → findTask app needed depth root [] blank = (result, after)) ∧
      ((∃ chain name, result = .error (.circular chain name)) ↔
        ∃ task, Reach app root task ∧ Relation.TransGen (Needs app) task task) ∧
      (∀ error, result = .error error → ∃ chain name, error = .circular chain name ∧
        chain.head? = some root ∧ (chain ++ [name]).IsChain (Needs app) ∧ name ∈ chain) := by
  have reported : ∀ depth, Fintype.card Task < depth → ∀ error,
      (findTask app needed depth root [] blank).1 = .error error → ∃ chain name, error = .circular chain name ∧
        chain.head? = some root ∧ (chain ++ [name]).IsChain (Needs app) ∧ name ∈ chain := by
    intro depth enough error failed
    cases find_task_reported depth root root [] blank List.nodup_nil rfl (List.isChain_singleton root) (by simpa using enough)
        error failed with
    | circular chain name starts path again => exact ⟨chain, name, rfl, starts, path, again⟩
    | unresolved task name below listed missing =>
        obtain ⟨prereq, resolved⟩ := resolves task below name listed
        simp [missing] at resolved
  rcases searched : findTask app needed (Fintype.card Task + 1) root [] blank with ⟨result, after⟩
  have errors := reported (Fintype.card Task + 1) (Nat.lt_succ_self _)
  rw [searched] at errors
  refine ⟨result, after, ?_, ⟨?_, ?_⟩, errors⟩
  · intro depth enough
    induction depth with
    | zero => omega
    | succ depth ih =>
        by_cases last : depth = Fintype.card Task
        · rw [last, searched]
        · have before := ih (by omega)
          rw [find_task_deeper, before]
          intro deep
          obtain ⟨chain, name, circular, -⟩ := reported depth (by omega) .tooDeep deep
          cases circular
  · rintro ⟨chain, name, rfl⟩
    obtain ⟨_, _, same, starts, path, again⟩ := errors _ rfl
    cases same
    obtain ⟨below, cycle⟩ := path_cycle chain root name starts path again
    exact ⟨name, below, cycle⟩
  · rintro ⟨task, below, cycle⟩
    cases result with
    | error error =>
        obtain ⟨chain, name, rfl, -⟩ := errors error rfl
        exact ⟨chain, name, rfl⟩
    | ok status =>
        have visit := find_task_visits (Fintype.card Task + 1) root [] blank (surveyed_start app blank rfl) status
          (by rw [searched])
        exact absurd cycle (clean_acyclic blank (by simp [blank]) root visit.clean task below)

-- Task 0 needs 1, and 1 and 2 need each other.
def knot (task : Fin 3) : List (Fin 3) := ([[1], [2], [1]] : List (List (Fin 3))).getD task []

theorem knot_reported :
    ∃ result after, findTask (graph knot) (fun _ => true) 4 0 [] blank = (result, after) ∧
      ∃ chain name, result = .error (.circular chain name) := by
  obtain ⟨result, after, ends, circular, -⟩ :=
    circular_dependency_reported (graph knot) (fun _ => true) 0 fun _ _ name _ => ⟨name, rfl⟩
  have edge : ∀ upper lower, lower ∈ knot upper → Needs (graph knot) upper lower := fun upper lower listed =>
    (graph_needs knot upper lower).mpr listed
  exact ⟨result, after, ends 4 (by decide), circular.mpr
    ⟨1, .single (edge 0 1 (by decide)), .head (edge 1 2 (by decide)) (.single (edge 2 1 (by decide)))⟩⟩

end Tracer

end Pwrake
