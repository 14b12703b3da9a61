import Pwrake.Circular

set_option autoImplicit false

namespace Pwrake

namespace Tracer

variable {Task Name Scope : Type*} [DecidableEq Task]

-- The pairs of a prerequisite and a task that find_task goes through, in the
-- order of its lookups. The two functions go along with findPrereqs and
-- findTask, which say with what state they go on.
def followedPrereqs (app : Application Task Name Scope) (find : Task → TraceState Task → Traced Task Name (Option Status))
    (calls : Task → TraceState Task → List (Task × Task)) (task : Task) : List Name → TraceState Task → List (Task × Task)
  | [], _ => []
  | name :: rest, s =>
      match resolve app task name with
      | none => []
      | some prereq =>
          (prereq, task) :: calls prereq s ++
            match find prereq s with
            | (.error _, _) => []
            | (.ok _, s) => followedPrereqs app find calls task rest s

def followed (app : Application Task Name Scope) (needed : Task → Bool) : Nat → Task → List Task → TraceState Task → List (Task × Task)
  | 0, _, _, _ => []
  | depth + 1, task, chain, s =>
      if task ∈ s.invoked ∨ task ∈ chain ∨ task ∈ s.footprint ∨ task ∈ s.fetched then []
      else
        followedPrereqs app (fun prereq => findTask app needed depth prereq (chain ++ [task]))
          (fun prereq => followed app needed depth prereq (chain ++ [task])) task (app.prerequisites task)
          { s with footprint := insert task s.footprint }

section Followed

variable {app : Application Task Name Scope} {needed : Task → Bool}

-- A search that ends has followed every prerequisite of what it marked.
def Follows (app : Application Task Name Scope) (s after : TraceState Task) (pairs : List (Task × Task)) : Prop :=
  ∀ lower upper, (lower, upper) ∈ pairs ↔ upper ∈ after.footprint ∧ upper ∉ s.footprint ∧ Needs app upper lower

theorem find_prereqs_followed (task : Task) (find : Task → TraceState Task → Traced Task Name (Option Status))
    (calls : Task → TraceState Task → List (Task × Task)) (finds : ∀ prereq s, Found app needed prereq s (find prereq s))
    (follows : ∀ prereq s status after, find prereq s = (.ok status, after) → Follows app s after (calls prereq s))
    (names : List Name) (allInvoked verdict : Bool) (s after : TraceState Task) (marked : task ∈ s.footprint)
    (looped : findPrereqs app find task names allInvoked s = (.ok verdict, after)) :
    s.footprint ⊆ after.footprint ∧ ∀ lower upper, (lower, upper) ∈ followedPrereqs app find calls task names s ↔
      (upper = task ∧ ∃ name ∈ names, resolve app task name = some lower) ∨
        (upper ∈ after.footprint ∧ upper ∉ s.footprint ∧ Needs app upper lower) := by
  induction names generalizing allInvoked s with
  | nil =>
      simp only [findPrereqs, Prod.mk.injEq] at looped
      rw [← looped.2]
      exact ⟨subset_rfl, fun lower upper => by simp +contextual [followedPrereqs]⟩
  | cons name rest ih =>
      cases resolved : resolve app task name with
      | none => simp [findPrereqs, resolved] at looped
      | some prereq =>
          have onwards : ∀ (status : Option Status) (between : TraceState Task) (flag : Bool), find prereq s = (.ok status, between) →
              findPrereqs app find task rest flag between = (.ok verdict, after) →
              s.footprint ⊆ after.footprint ∧ ∀ lower upper,
                (lower, upper) ∈ followedPrereqs app find calls task (name :: rest) s ↔
                  (upper = task ∧ ∃ other ∈ name :: rest, resolve app task other = some lower) ∨
                    (upper ∈ after.footprint ∧ upper ∉ s.footprint ∧ Needs app upper lower) := by
            intro status between flag found later
            have explored := (finds prereq s).explores
            rw [found] at explored
            have grows := (explores_grows s between explored).2.1
            obtain ⟨wider, others⟩ := ih flag between (grows marked) later
            refine ⟨Finset.Subset.trans grows wider, fun lower upper => ?_⟩
            have before : upper ∈ s.footprint → upper ∈ between.footprint := fun member => grows member
            have behind : upper ∈ between.footprint → upper ∈ after.footprint := fun member => wider member
            have first := follows prereq s status between found lower upper
            simp only [followedPrereqs, resolved, found, List.cons_append, List.mem_cons, List.mem_append, first, others,
              Prod.mk.injEq, exists_eq_or_imp, Option.some.injEq]
            generalize (∃ other ∈ rest, resolve app task other = some lower) = listed
            grind
          rcases found : find prereq s with ⟨error | (none | status), between⟩
          · simp [findPrereqs, resolved, found] at looped
          · simp only [findPrereqs, resolved, found] at looped
            exact onwards none between allInvoked found looped
          · simp only [findPrereqs, resolved, found] at looped
            exact onwards (some status) between false found looped

theorem find_task_followed (depth : Nat) (task : Task) (chain : List Task) (s after : TraceState Task) (status : Option Status)
    (found : findTask app needed depth task chain s = (.ok status, after)) :
    Follows app s after (followed app needed depth task chain s) := by
  induction depth generalizing task chain s status after with
  | zero => simp [findTask] at found
  | succ depth ih =>
      have loop : ∀ verdict between, Opened task chain s → below app needed depth task chain s = (.ok verdict, between) →
          Follows app s between (followed app needed (depth + 1) task chain s) := by
        intro verdict between opened looped lower upper
        obtain ⟨grows, calls⟩ := find_prereqs_followed task _ (fun prereq => followed app needed depth prereq (chain ++ [task]))
          (fun prereq s => find_task_found app needed depth prereq (chain ++ [task]) s)
          (fun prereq s status after found => ih prereq (chain ++ [task]) s after status found)
          (app.prerequisites task) true verdict _ between (Finset.mem_insert_self task s.footprint) looped
        have stopped : ¬ (task ∈ s.invoked ∨ task ∈ chain ∨ task ∈ s.footprint ∨ task ∈ s.fetched) := by
          simp [opened.uninvoked, opened.off, opened.unmarked, opened.unfetched]
        have marked := grows (Finset.mem_insert_self task s.footprint)
        rw [followed, if_neg stopped, calls, Finset.mem_insert, not_or]
        by_cases itself : upper = task
        · subst itself
          simp [Needs, marked, opened.unmarked]
        · simp [itself]
      have nothing : (task ∈ s.invoked ∨ task ∈ chain ∨ task ∈ s.footprint ∨ task ∈ s.fetched) →
          Follows app s s (followed app needed (depth + 1) task chain s) := by
        intro stopped lower upper
        rw [followed, if_pos stopped]
        simp +contextual
      have way := find_task_way app needed depth task chain s
      rw [found] at way
      cases way with
      | invoked member => exact nothing (.inl member)
      | traced _ _ known => exact nothing (.inr (.inr known))
      | pending _ opened looped => exact loop false after opened looped
      | fetched between opened looped => exact loop true between opened looped
      | dropped between opened looped => exact loop true between opened looped

theorem footprint_seen (s after : TraceState Task) (root : Task)
    (explored : Explores app needed (fun task => Sees app s root task ∧ task ∉ s.footprint) s after) (task : Task)
    (marked : task ∈ after.footprint) : task ∈ s.footprint ∨ Sees app s root task := by
  refine explores_induction (fun state => ∀ task ∈ state.footprint, task ∈ s.footprint ∨ Sees app s root task) s after explored
    (fun _ member => .inl member) ?_ task marked
  intro before next moved seen other member
  cases moved with
  | mark first permitted =>
      rcases Finset.mem_insert.mp member with itself | earlier
      · exact .inr (itself ▸ permitted.1)
      · exact seen other earlier
  | fetch => exact seen other member
  | drop => exact seen other member

omit [DecidableEq Task] in
theorem sees_blank (root task : Task) : Sees app blank root task ↔ Reach app root task := by
  constructor
  · exact sees_reach app blank root task
  · refine Relation.ReflTransGen.mono (fun upper lower needs => ?_) root task
    exact ⟨Finset.notMem_empty upper, Finset.notMem_empty upper, Finset.notMem_empty upper, needs⟩

omit [DecidableEq Task] in
theorem clean_buildable (root : Task) (clean : Clean app blank root) : Buildable app root := by
  have unmarked : ∀ task : Task, task ∉ (blank : TraceState Task).invoked ∧ task ∉ (blank : TraceState Task).fetched :=
    fun task => ⟨Finset.notMem_empty task, Finset.notMem_empty task⟩
  refine ⟨fun task below => clean_acyclic blank unmarked root clean task below, fun task below => ?_⟩
  have held : Clean app blank task := by
    refine Dag.closed_below (Clean app blank) (fun upper lower clean needs => ?_) root task clean below
    cases clean with
    | stopped _ marked => exact absurd marked (not_or.mpr (unmarked upper))
    | opened _ _ beneath => exact beneath lower needs
  cases held with
  | stopped _ marked => exact absurd marked (not_or.mpr (unmarked task))
  | opened _ resolves _ => exact resolves

-- The graph a whole search goes through, when nothing was marked before.
theorem available_task_graph [Fintype Task] (root : Task) (after : TraceState Task) (status : Option Status)
    (traced : availableTask app needed root blank = (.ok status, after)) :
    Buildable app root ∧ (∀ task, task ∈ after.footprint ↔ Reach app root task) ∧
      ∀ lower upper, (lower, upper) ∈ followed app needed (Fintype.card Task + 1) root [] blank ↔
        Reach app root upper ∧ Needs app upper lower := by
  have visit := find_task_visits (Fintype.card Task + 1) root [] blank (surveyed_start app blank rfl) status
    (congrArg Prod.fst traced)
  have found := find_task_found app needed (Fintype.card Task + 1) root [] blank
  have follows := find_task_followed (Fintype.card Task + 1) root [] blank after status traced
  rw [availableTask] at traced
  rw [traced] at visit found
  have marks : ∀ task, task ∈ after.footprint ↔ Reach app root task := by
    intro task
    constructor
    · intro marked
      have seen := footprint_seen blank after root found.explores task marked
      exact (sees_blank root task).mp (seen.resolve_left (Finset.notMem_empty task))
    · intro reach
      have reached := surveyed_reached [] after visit.surveyed root visit.reached (fun _ _ => List.not_mem_nil) task
        ((sees_blank root task).mpr reach)
      exact (reached.resolve_left (Finset.notMem_empty task)).resolve_left (Finset.notMem_empty task)
  refine ⟨clean_buildable root visit.clean, marks, fun lower upper => ?_⟩
  rw [follows, marks]
  exact and_congr_right fun _ => and_iff_right (Finset.notMem_empty upper)

end Followed

end Tracer

end Pwrake
