import Pwrake.Drawing

set_option autoImplicit false

namespace Pwrake

namespace Graphviz

variable {Task : Type*}

def Lists (edges : Task → List Task) (task prereq : Task) : Prop := prereq ∈ edges task

abbrev Leads (edges : Task → List Task) (task lower : Task) : Prop := Relation.ReflTransGen (Lists edges) task lower

-- The target with which trace comes to a task for the first time. On its way
-- there it always goes into the first prerequisite that the task lies below.
inductive FirstTarget (edges : Task → List Task) (recipe : Recipe Task) (goal : Task) : Task → Option Task →
    Option Task → Prop where
  | here (target : Option Task) : FirstTarget edges recipe goal goal target target
  | down (task next : Task) (front rest : List Task) (target result : Option Task) (listed : edges task = front ++ next :: rest)
      (passed : ∀ earlier ∈ front, ¬ Leads edges earlier goal)
      (below : FirstTarget edges recipe goal next (aim recipe task task target) result) :
      FirstTarget edges recipe goal task target result

-- The same for a list of prerequisites that are all traced with one target.
def FirstAmong (edges : Task → List Task) (recipe : Recipe Task) (goal : Task) (prereqs : List Task)
    (target result : Option Task) :
    Prop :=
  ∃ front next rest, prereqs = front ++ next :: rest ∧ (∀ earlier ∈ front, ¬ Leads edges earlier goal) ∧
    FirstTarget edges recipe goal next target result

section First

variable {edges : Task → List Task} {recipe : Recipe Task}

theorem first_target_leads (goal task : Task) (target result : Option Task)
    (first : FirstTarget edges recipe goal task target result) : Leads edges task goal := by
  induction first with
  | here => exact .refl
  | down task next front rest target result listed _ _ ih => exact ih.head (by rw [Lists, listed]; simp)

theorem first_target_iff (goal task : Task) (target result : Option Task) :
    FirstTarget edges recipe goal task target result ↔
      (goal = task ∧ result = target) ∨ FirstAmong edges recipe goal (edges task) (aim recipe task task target) result := by
  constructor
  · intro first
    cases first with
    | here => exact .inl ⟨rfl, rfl⟩
    | down _ next front rest _ _ listed passed below => exact .inr ⟨front, next, rest, listed, passed, below⟩
  · rintro (⟨rfl, rfl⟩ | ⟨front, next, rest, listed, passed, below⟩)
    · exact .here _
    · exact .down task next front rest target result listed passed below

theorem first_among_nil (goal : Task) (target result : Option Task) : ¬ FirstAmong edges recipe goal [] target result := by
  rintro ⟨front, next, rest, split, -⟩
  simp at split

theorem first_among_cons (goal prereq : Task) (prereqs : List Task) (target result : Option Task) :
    FirstAmong edges recipe goal (prereq :: prereqs) target result ↔ FirstTarget edges recipe goal prereq target result ∨
      (¬ Leads edges prereq goal ∧ FirstAmong edges recipe goal prereqs target result) := by
  constructor
  · rintro ⟨front, next, rest, split, passed, first⟩
    cases front with
    | nil =>
        obtain ⟨rfl, rfl⟩ := List.cons.inj split
        exact .inl first
    | cons earlier front =>
        obtain ⟨rfl, rfl⟩ := List.cons.inj split
        exact .inr ⟨passed prereq List.mem_cons_self, front, next, rest, rfl,
          fun other member => passed other (List.mem_cons_of_mem prereq member), first⟩
  · rintro (first | ⟨apart, front, next, rest, rfl, passed, first⟩)
    · exact ⟨[], prereq, prereqs, rfl, by simp, first⟩
    · refine ⟨prereq :: front, next, rest, rfl, fun other member => ?_, first⟩
      rcases List.mem_cons.mp member with rfl | later
      · exact apart
      · exact passed other later

theorem first_among_leads (goal : Task) (prereqs : List Task) (target result : Option Task)
    (first : FirstAmong edges recipe goal prereqs target result) : ∃ prereq ∈ prereqs, Leads edges prereq goal := by
  obtain ⟨front, next, rest, rfl, -, below⟩ := first
  exact ⟨next, by simp, first_target_leads goal next target result below⟩

theorem first_among_exists (recipe : Recipe Task) (goal : Task) (prereqs : List Task) (target : Option Task)
    (each : ∀ prereq ∈ prereqs, Leads edges prereq goal → ∃ result, FirstTarget edges recipe goal prereq target result)
    (some_leads : ∃ prereq ∈ prereqs, Leads edges prereq goal) :
    ∃ result, FirstAmong edges recipe goal prereqs target result := by
  induction prereqs with
  | nil =>
      obtain ⟨prereq, member, -⟩ := some_leads
      exact absurd member List.not_mem_nil
  | cons prereq prereqs ih =>
      by_cases leads : Leads edges prereq goal
      · obtain ⟨result, first⟩ := each prereq List.mem_cons_self leads
        exact ⟨result, (first_among_cons goal prereq prereqs target result).mpr (.inl first)⟩
      · obtain ⟨other, member, below⟩ := some_leads
        have later : other ∈ prereqs := (List.mem_cons.mp member).resolve_left fun same => leads (same ▸ below)
        obtain ⟨result, first⟩ := ih (fun other member => each other (List.mem_cons_of_mem prereq member)) ⟨other, later, below⟩
        exact ⟨result, (first_among_cons goal prereq prereqs target result).mpr (.inr ⟨leads, first⟩)⟩

theorem first_target_exists [Finite Task] (recipe : Recipe Task)
    (acyclic : ∀ task, ¬ Relation.TransGen (Lists edges) task task) (goal task : Task)
    (leads : Leads edges task goal) (target : Option Task) : ∃ result, FirstTarget edges recipe goal task target result := by
  have acyclicFrom : Dag.AcyclicFrom (Lists edges) task := fun node _ => acyclic node
  refine Dag.below_induction acyclicFrom (fun node => Leads edges node goal → ∀ target, ∃ result,
    FirstTarget edges recipe goal node target result) ?_ task .refl leads target
  intro node _ lowers leads target
  rcases Relation.ReflTransGen.cases_head leads with rfl | ⟨next, listed, rest⟩
  · exact ⟨target, .here target⟩
  · obtain ⟨result, first⟩ := first_among_exists recipe goal (edges node) (aim recipe node node target)
      (fun prereq listed leads => lowers prereq (.single listed) leads _) ⟨next, listed, rest⟩
    exact ⟨result, (first_target_iff goal node target result).mpr (.inr first)⟩

-- The target is the one at the start or a file on the way.
theorem first_target_source (goal task : Task) (target result : Option Task)
    (first : FirstTarget edges recipe goal task target result) :
    result = target ∨ ∃ file, result = some file ∧ recipe.isFile file = true ∧ Leads edges task file ∧
      Relation.TransGen (Lists edges) file goal := by
  induction first with
  | here => exact .inl rfl
  | down task next front rest target result listed _ below ih =>
      have edge : Lists edges task next := by rw [Lists, listed]; simp
      rcases ih with same | ⟨file, same, kind, leads, strictly⟩
      · rw [aim] at same
        split at same
        · rename_i kind
          exact .inr ⟨task, same, kind, .refl, .head' edge (first_target_leads goal next _ result below)⟩
        · exact .inl same
      · exact .inr ⟨file, same, kind, leads.head edge, strictly⟩

end First

section Visits

variable [DecidableEq Task] {edges : Task → List Task} {recipe : Recipe Task} {text : Task → List Char}

-- The calls a first visit to a task makes.
def Opening (edges : Task → List Task) (recipe : Recipe Task) (task : Task) (target : Option Task)
    (visit : Task × Option Task) : Prop :=
  ∃ prereq ∈ edges task, visit = (prereq, aim recipe task task target)

-- What a call leaves that finds nothing open below the task.
structure Comes (edges : Task → List Task) (recipe : Recipe Task) (g after : Graphviz Task) (task : Task) (target : Option Task) :
    Prop where
  traced : ∀ other, other ∈ after.traced ↔ other ∈ g.traced ∨ Leads edges task other
  visits : ∀ visit, visit ∈ after.visits ↔ visit ∈ g.visits ∨ visit = (task, target) ∨
    ∃ other result, other ∉ g.traced ∧ FirstTarget edges recipe other task target result ∧ Opening edges recipe other result visit

def Settled (edges : Task → List Task) (g : Graphviz Task) (task : Task) : Prop :=
  ∀ other ∈ g.traced, Leads edges task other → ∀ lower, Leads edges other lower → lower ∈ g.traced

omit [DecidableEq Task] in
-- What the first prerequisite leaves to the others, which find all below it
-- marked.
theorem openings_cons (marked later : Finset Task) (prereq : Task) (prereqs : List Task)
    (grown : ∀ other, other ∈ later ↔ other ∈ marked ∨ Leads edges prereq other) (target : Option Task)
    (visit : Task × Option Task) :
    (∃ other result, other ∉ marked ∧ FirstAmong edges recipe other (prereq :: prereqs) target result ∧
        Opening edges recipe other result visit) ↔
      (∃ other result, other ∉ marked ∧ FirstTarget edges recipe other prereq target result ∧
        Opening edges recipe other result visit) ∨
        ∃ other result, other ∉ later ∧ FirstAmong edges recipe other prereqs target result ∧
          Opening edges recipe other result visit := by
  constructor
  · rintro ⟨other, result, new, among, opening⟩
    rcases (first_among_cons other prereq prereqs target result).mp among with first | ⟨apart, among⟩
    · exact .inl ⟨other, result, new, first, opening⟩
    · refine .inr ⟨other, result, ?_, among, opening⟩
      rw [grown, not_or]
      exact ⟨new, apart⟩
  · rintro (⟨other, result, new, first, opening⟩ | ⟨other, result, new, among, opening⟩)
    · exact ⟨other, result, new, (first_among_cons other prereq prereqs target result).mpr (.inl first), opening⟩
    · rw [grown, not_or] at new
      exact ⟨other, result, new.1, (first_among_cons other prereq prereqs target result).mpr (.inr ⟨new.2, among⟩), opening⟩

-- A first visit to a task is the first to anything below it that is not marked.
theorem openings_down (marked : Finset Task) (task : Task) (unknown : task ∉ marked)
    (apart : ∀ prereq ∈ edges task, ¬ Leads edges prereq task) (target : Option Task) (visit : Task × Option Task) :
    (∃ other result, other ∉ marked ∧ FirstTarget edges recipe other task target result ∧
      Opening edges recipe other result visit) ↔
      Opening edges recipe task target visit ∨
        ∃ other result, other ∉ insert task marked ∧ FirstAmong edges recipe other (edges task)
          (aim recipe task task target) result ∧
          Opening edges recipe other result visit := by
  constructor
  · rintro ⟨other, result, new, first, opening⟩
    rcases (first_target_iff other task target result).mp first with ⟨rfl, rfl⟩ | among
    · exact .inl opening
    · refine .inr ⟨other, result, ?_, among, opening⟩
      rw [Finset.mem_insert, not_or]
      refine ⟨?_, new⟩
      rintro rfl
      obtain ⟨prereq, listed, leads⟩ := first_among_leads other (edges other) _ result among
      exact apart prereq listed leads
  · rintro (opening | ⟨other, result, new, among, opening⟩)
    · exact ⟨task, target, unknown, .here target, opening⟩
    · rw [Finset.mem_insert, not_or] at new
      exact ⟨other, result, new.2, (first_target_iff other task target result).mpr (.inr among), opening⟩

theorem each_trace_comes (depth : Nat) (name : Task) (target : Option Task)
    (calls : ∀ prereq (g after : Graphviz Task), Settled edges g prereq →
      trace (Tracer.graph edges) text recipe depth prereq target g = some after → Comes edges recipe g after prereq target)
    (prereqs : List Task) (g after : Graphviz Task) (settled : ∀ prereq ∈ prereqs, Settled edges g prereq)
    (ran : prereqs.foldlM (fun g prereq => trace (Tracer.graph edges) text recipe depth prereq target (follow g prereq name)) g =
      some after) :
    (∀ other, other ∈ after.traced ↔ other ∈ g.traced ∨ ∃ prereq ∈ prereqs, Leads edges prereq other) ∧
      ∀ visit, visit ∈ after.visits ↔ visit ∈ g.visits ∨ (∃ prereq ∈ prereqs, visit = (prereq, target)) ∨
        ∃ other result, other ∉ g.traced ∧ FirstAmong edges recipe other prereqs target result ∧
          Opening edges recipe other result visit := by
  induction prereqs generalizing g with
  | nil =>
      cases ran
      refine ⟨by simp, fun visit => ?_⟩
      simp [first_among_nil]
  | cons prereq prereqs ih =>
      rw [List.foldlM_cons] at ran
      obtain ⟨between, traced, rest⟩ := Option.bind_eq_some_iff.mp ran
      obtain ⟨marks, came⟩ := calls prereq (follow g prereq name) between (settled prereq List.mem_cons_self) traced
      have kept : ∀ other ∈ prereqs, Settled edges between other := by
        intro other member task marked leads lower below
        rw [marks] at marked ⊢
        rcases marked with before | under
        · exact .inl (settled other (List.mem_cons_of_mem prereq member) task before leads lower below)
        · exact .inr (under.trans below)
      obtain ⟨later, others⟩ := ih between kept rest
      refine ⟨fun other => ?_, fun visit => ?_⟩
      · rw [later, marks, List.exists_mem_cons_iff, or_assoc]
        rfl
      · have same : (follow g prereq name).visits = g.visits := rfl
        have unmarked : (follow g prereq name).traced = g.traced := rfl
        rw [others, came, same, unmarked, openings_cons g.traced between.traced prereq prereqs marks target visit,
          List.exists_mem_cons_iff]
        constructor
        · rintro ((before | here | first) | later | among)
          · exact .inl before
          · exact .inr (.inl (.inl here))
          · exact .inr (.inr (.inl first))
          · exact .inr (.inl (.inr later))
          · exact .inr (.inr (.inr among))
        · rintro (before | (here | later) | first | among)
          · exact .inl (.inl before)
          · exact .inl (.inr (.inl here))
          · exact .inr (.inl later)
          · exact .inl (.inr (.inr first))
          · exact .inr (.inr among)

theorem trace_comes (acyclic : ∀ task, ¬ Relation.TransGen (Lists edges) task task) (depth : Nat) (task : Task)
    (target : Option Task) (g after : Graphviz Task) (settled : Settled edges g task)
    (ran : trace (Tracer.graph edges) text recipe depth task target g = some after) : Comes edges recipe g after task target := by
  induction depth generalizing task target g after with
  | zero => cases ran
  | succ depth ih =>
      rw [trace] at ran
      obtain ⟨_, found, ran⟩ := Option.bind_eq_some_iff.mp ran
      cases found
      have visits : (arrive text recipe task task target g).visits = g.visits ++ [(task, target)] := rfl
      split at ran
      · rename_i known
        cases ran
        refine ⟨fun other => ?_, fun visit => ?_⟩
        · rw [arrive_traced, Finset.insert_eq_of_mem known]
          exact ⟨.inl, fun either => either.elim id fun leads => settled task known .refl other leads⟩
        · rw [visits, List.mem_append, List.mem_singleton]
          refine ⟨fun either => either.imp_right .inl, ?_⟩
          rintro (before | here | ⟨other, result, new, first, -⟩)
          · exact .inl before
          · exact .inr here
          · exact absurd (settled task known .refl other (first_target_leads other task target result first)) new
      · rename_i unknown
        have apart : ∀ prereq ∈ edges task, ¬ Leads edges prereq task := fun prereq listed leads =>
          acyclic task (.head' listed leads)
        have below : ∀ prereq ∈ edges task, Settled edges (arrive text recipe task task target g) prereq := by
          intro prereq listed other marked leads lower under
          rw [arrive_traced, Finset.mem_insert] at marked ⊢
          rcases marked with rfl | before
          · exact absurd leads (apart prereq listed)
          · exact .inr (settled other before (leads.head listed) lower under)
        obtain ⟨marks, came⟩ := each_trace_comes depth task _ (fun prereq g after => ih prereq _ g after)
          (edges task) _ after below ran
        refine ⟨fun other => ?_, fun visit => ?_⟩
        · have leads : Leads edges task other ↔ task = other ∨ ∃ prereq ∈ edges task, Leads edges prereq other :=
            Relation.ReflTransGen.cases_head_iff
          rw [marks, arrive_traced, Finset.mem_insert, leads, eq_comm, or_assoc, or_left_comm]
        · rw [came, visits, List.mem_append, List.mem_singleton, openings_down g.traced task unknown apart,
            or_assoc, arrive_traced]
          rfl

end Visits

end Graphviz

end Pwrake
