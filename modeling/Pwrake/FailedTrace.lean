import Pwrake.Frontier

set_option autoImplicit false

namespace Pwrake

namespace Tracer

variable {Task Name Scope : Type*}

-- The prerequisite over which the search of a task fails, with the names
-- before it, all of which the search gets through.
structure FirstFault (app : Application Task Name Scope) (start : TraceState Task) (task : Task) (front : List Name)
    (name : Name) : Prop where
  listed : ∃ rest, app.prerequisites task = front ++ name :: rest
  cleared : ∀ earlier ∈ front, ∃ prereq, resolve app task earlier = some prereq ∧ Clean app start prereq
  faulty : ∀ prereq, resolve app task name = some prereq → ¬ Clean app start prereq

-- The search from a task comes to another one and is done with it before it
-- fails.
inductive Passes (app : Application Task Name Scope) (start : TraceState Task) : Task → Task → Prop where
  | before (task other prereq : Task) (front : List Name) (name earlier : Name) (fault : FirstFault app start task front name)
      (listed : earlier ∈ front) (resolved : resolve app task earlier = some prereq) (seen : Sees app start prereq other) :
      Passes app start task other
  | deeper (task other prereq : Task) (front : List Name) (name : Name) (fault : FirstFault app start task front name)
      (resolved : resolve app task name = some prereq) (passes : Passes app start prereq other) : Passes app start task other

-- A task that a failing search marks as fetched and never hands out.
structure Lost (app : Application Task Name Scope) (needed : Task → Bool) (start : TraceState Task) (root task : Task) :
    Prop where
  passes : Passes app start root task
  uninvoked : task ∉ start.invoked
  unfetched : task ∉ start.fetched
  wanted : needed task = true
  settled : ∀ prereq, Needs app task prereq → Resolved app needed start prereq

section Failing

variable {app : Application Task Name Scope} {start : TraceState Task}

-- Where the search of a clean task goes it never comes back.
theorem clean_no_return (task : Task) (clean : Clean app start task) : ¬ Relation.TransGen (Opens app start) task task := by
  induction clean with
  | stopped task marked =>
      intro cycle
      obtain ⟨prereq, ⟨uninvoked, -, unfetched, -⟩, -⟩ := Relation.TransGen.head'_iff.mp cycle
      exact marked.elim uninvoked unfetched
  | opened task _ _ ih =>
      intro cycle
      obtain ⟨prereq, opens, back⟩ := Relation.TransGen.head'_iff.mp cycle
      exact ih prereq opens.2.2.2 (Relation.TransGen.tail' back opens)

-- The chain of a search that began at start: every task on it was open then
-- and leads to the task at hand.
structure Descent (app : Application Task Name Scope) (start : TraceState Task) (chain : List Task) (task : Task)
    (s : TraceState Task) : Prop where
  invoked : start.invoked ⊆ s.invoked
  footprint : start.footprint ⊆ s.footprint
  fetched : start.fetched ⊆ s.fetched
  above : ∀ upper ∈ chain, Relation.TransGen (Opens app start) upper task

theorem descent_opens (chain : List Task) (task : Task) (s : TraceState Task) (descent : Descent app start chain task s)
    (opened : Opened task chain s) (prereq : Task) (edge : Needs app task prereq) : Opens app start task prereq :=
  ⟨fun member => opened.uninvoked (descent.invoked member), fun member => opened.unmarked (descent.footprint member),
    fun member => opened.unfetched (descent.fetched member), edge⟩

theorem descent_below (chain : List Task) (task : Task) (s later : TraceState Task) (descent : Descent app start chain task s)
    (prereq : Task) (opens : Opens app start task prereq)
    (grows : s.invoked ⊆ later.invoked ∧ s.footprint ⊆ later.footprint ∧ s.fetched ⊆ later.fetched) :
    Descent app start (chain ++ [task]) prereq later where
  invoked := descent.invoked.trans grows.1
  footprint := descent.footprint.trans grows.2.1
  fetched := descent.fetched.trans grows.2.2
  above := by
    intro upper member
    rcases List.mem_append.mp member with earlier | itself
    · exact (descent.above upper earlier).tail opens
    · rw [List.mem_singleton.mp itself]
      exact .single opens

variable [DecidableEq Task] {needed : Task → Bool}

-- Where the loop of find_task over the prerequisites stopped: the names before
-- that one are cleared, and what was fetched up to there lies below them.
structure Halted (app : Application Task Name Scope) (start : TraceState Task) (chain : List Task) (task : Task)
    (names : List Name) (s : TraceState Task) (front : List Name) (name : Name) (state : TraceState Task) : Prop where
  split : ∃ rest, names = front ++ name :: rest
  cleared : ∀ earlier ∈ front, ∃ prereq, resolve app task earlier = some prereq ∧ Clean app start prereq
  covered : ∀ earlier ∈ front, ∀ prereq, resolve app task earlier = some prereq →
    prereq ∈ start.invoked ∨ prereq ∈ start.fetched ∨ prereq ∈ state.footprint
  surveyed : Surveyed app start chain state
  grows : s.invoked ⊆ state.invoked ∧ s.footprint ⊆ state.footprint ∧ s.fetched ⊆ state.fetched
  fetched : ∀ other ∈ state.fetched, other ∈ s.fetched ∨
    ∃ earlier ∈ front, ∃ prereq, resolve app task earlier = some prereq ∧ Sees app start prereq other

theorem find_prereqs_halted (task : Task) (chain : List Task)
    (find : Task → TraceState Task → Traced Task Name (Option Status))
    (finds : ∀ prereq s, Found app needed prereq s (find prereq s))
    (visits : ∀ prereq s status, Surveyed app start chain s → (find prereq s).1 = .ok status →
      Visit app start chain prereq (find prereq s))
    (names : List Name) (allInvoked : Bool) (s : TraceState Task) (surveyed : Surveyed app start chain s)
    (began : start.invoked ⊆ s.invoked ∧ start.footprint ⊆ s.footprint ∧ start.fetched ⊆ s.fetched)
    (error : TraceError Task Name) (after : TraceState Task)
    (failed : findPrereqs app find task names allInvoked s = (.error error, after)) :
    ∃ front name state, Halted app start chain task names s front name state ∧
      (resolve app task name = none ∧ after = state ∨
        ∃ prereq, resolve app task name = some prereq ∧ find prereq state = (.error error, after)) := by
  induction names generalizing allInvoked s with
  | nil => simp [findPrereqs] at failed
  | cons name rest ih =>
      have here : Halted app start chain task (name :: rest) s [] name s :=
        ⟨⟨rest, rfl⟩, by simp, by simp, surveyed, ⟨subset_rfl, subset_rfl, subset_rfl⟩, fun _ member => .inl member⟩
      cases resolved : resolve app task name with
      | none =>
          simp only [findPrereqs, resolved, Prod.mk.injEq] at failed
          exact ⟨[], name, s, here, .inl ⟨resolved, failed.2.symm⟩⟩
      | some prereq =>
          -- a prerequisite that came to an end puts its name in front
          have onwards : ∀ (status : Option Status) (next : TraceState Task) (flag : Bool), find prereq s = (.ok status, next) →
              findPrereqs app find task rest flag next = (.error error, after) →
              ∃ front other state, Halted app start chain task (name :: rest) s front other state ∧
                (resolve app task other = none ∧ after = state ∨
                  ∃ target, resolve app task other = some target ∧ find target state = (.error error, after)) := by
            intro status next flag found later
            have visit := visits prereq s status surveyed (by rw [found])
            have explored := (finds prereq s).explores
            rw [found] at visit explored
            have steps := explores_grows s next explored
            obtain ⟨front, other, state, halted, outcome⟩ := ih flag next visit.surveyed
              ⟨began.1.trans steps.1, began.2.1.trans steps.2.1, began.2.2.trans steps.2.2⟩ later
            refine ⟨name :: front, other, state, ⟨?_, ?_, ?_, halted.surveyed, ?_, ?_⟩, outcome⟩
            · obtain ⟨tail, same⟩ := halted.split
              exact ⟨tail, by rw [same]; rfl⟩
            · intro earlier member
              rcases List.mem_cons.mp member with rfl | member
              · exact ⟨prereq, resolved, visit.clean⟩
              · exact halted.cleared earlier member
            · intro earlier member target named
              rcases List.mem_cons.mp member with rfl | member
              · cases resolved.symm.trans named
                exact visit.reached.imp_right fun later => later.imp_right fun marked => halted.grows.2.1 marked
              · exact halted.covered earlier member target named
            · exact ⟨steps.1.trans halted.grows.1, steps.2.1.trans halted.grows.2.1, steps.2.2.trans halted.grows.2.2⟩
            · intro lower member
              rcases halted.fetched lower member with during | ⟨earlier, listed, target, named, seen⟩
              · by_cases before : lower ∈ s.fetched
                · exact .inl before
                · have permitted : Sees app s prereq lower := by
                    by_contra unseen
                    have same := explores_elsewhere lower (fun permitted => unseen permitted.1) s next explored
                    exact before (same.2.mp during)
                  exact .inr ⟨name, List.mem_cons_self, prereq, resolved, sees_earlier app start s prereq lower began permitted⟩
              · exact .inr ⟨earlier, List.mem_cons_of_mem name listed, target, named, seen⟩
          rcases found : find prereq s with ⟨inner | (none | status), next⟩
          · simp only [findPrereqs, resolved, found, Prod.mk.injEq, Except.error.injEq] at failed
            exact ⟨[], name, s, here, .inr ⟨prereq, resolved, by rw [found, failed.1, failed.2]⟩⟩
          · simp only [findPrereqs, resolved, found] at failed
            exact onwards none next allInvoked found failed
          · simp only [findPrereqs, resolved, found] at failed
            exact onwards (some status) next false found failed

-- Where a search fails: at the task itself when it is on the chain, at a name
-- that does not resolve, or in the search of a prerequisite.
theorem find_task_halted (depth : Nat) (task : Task) (chain : List Task) (s : TraceState Task)
    (surveyed : Surveyed app start chain s) (descent : Descent app start chain task s) (error : TraceError Task Name)
    (after : TraceState Task) (failed : findTask app needed (depth + 1) task chain s = (.error error, after)) :
    task ∈ chain ∧ after = s ∨
      Opened task chain s ∧
        ∃ front name state, Halted app start (chain ++ [task]) task (app.prerequisites task)
            { s with footprint := insert task s.footprint } front name state ∧
          (resolve app task name = none ∧ after = state ∨ ∃ prereq, resolve app task name = some prereq ∧
            findTask app needed depth prereq (chain ++ [task]) state = (.error error, after)) := by
  have way := find_task_way app needed depth task chain s
  generalize findTask app needed (depth + 1) task chain s = result at way failed
  cases way with
  | circular again =>
      cases failed
      exact .inl ⟨again, rfl⟩
  | failed inner state opened looped =>
      cases failed
      exact .inr ⟨opened, find_prereqs_halted task (chain ++ [task]) _
        (fun prereq s => find_task_found app needed depth prereq (chain ++ [task]) s)
        (fun prereq s status surveyed found => find_task_visits depth prereq (chain ++ [task]) s surveyed status found)
        (app.prerequisites task) true _
        (surveyed_enter chain s task surveyed opened)
        ⟨descent.invoked, descent.footprint.trans (Finset.subset_insert task _), descent.fetched⟩ error after looped⟩
  | _ => cases failed

omit [DecidableEq Task] in
theorem halted_unclean (task : Task) (front : List Name) (name : Name) (fault : FirstFault app start task front name)
    (uninvoked : task ∉ start.invoked) (unfetched : task ∉ start.fetched) : ¬ Clean app start task := by
  intro clean
  obtain ⟨rest, split⟩ := fault.listed
  have listed : name ∈ app.prerequisites task := by simp [split]
  cases clean with
  | stopped _ marked => exact marked.elim uninvoked unfetched
  | opened _ resolves below =>
      obtain ⟨prereq, resolved⟩ := resolves name listed
      exact fault.faulty prereq resolved (below prereq ⟨name, listed, resolved⟩)

theorem halted_descent (chain : List Task) (task : Task) (s state : TraceState Task) (descent : Descent app start chain task s)
    (opened : Opened task chain s) (front : List Name) (name : Name)
    (halted : Halted app start (chain ++ [task]) task (app.prerequisites task)
      { s with footprint := insert task s.footprint } front name state)
    (prereq : Task) (resolved : resolve app task name = some prereq) :
    Descent app start (chain ++ [task]) prereq state := by
  obtain ⟨rest, split⟩ := halted.split
  have opens := descent_opens chain task s descent opened prereq ⟨name, by simp [split], resolved⟩
  exact descent_below chain task s state descent prereq opens
    ⟨halted.grows.1, (Finset.subset_insert task _).trans halted.grows.2.1, halted.grows.2.2⟩

theorem find_task_failing (depth : Nat) (task : Task) (chain : List Task) (s : TraceState Task)
    (surveyed : Surveyed app start chain s) (descent : Descent app start chain task s) (error : TraceError Task Name)
    (after : TraceState Task) (failed : findTask app needed depth task chain s = (.error error, after))
    (lasted : error ≠ .tooDeep) :
    ¬ Clean app start task ∧ ∀ other ∈ after.fetched, other ∈ s.fetched ∨ Passes app start task other := by
  induction depth generalizing task chain s with
  | zero =>
      simp only [findTask, Prod.mk.injEq, Except.error.injEq] at failed
      exact absurd failed.1.symm lasted
  | succ depth ih =>
      rcases find_task_halted depth task chain s surveyed descent error after failed with
        ⟨circular, rfl⟩ | ⟨opened, front, name, state, halted, stop⟩
      · exact ⟨fun clean => clean_no_return task clean (descent.above task circular), fun other member => .inl member⟩
      · have uninvoked : task ∉ start.invoked := fun member => opened.uninvoked (descent.invoked member)
        have unfetched : task ∉ start.fetched := fun member => opened.unfetched (descent.fetched member)
        have passed : FirstFault app start task front name →
            ∀ other ∈ state.fetched, other ∈ s.fetched ∨ Passes app start task other := by
          intro fault other member
          refine (halted.fetched other member).imp_right ?_
          rintro ⟨earlier, before, prereq, resolved, seen⟩
          exact .before task other prereq front name earlier fault before resolved seen
        rcases stop with ⟨missing, rfl⟩ | ⟨prereq, resolved, failed⟩
        · have fault : FirstFault app start task front name :=
            ⟨halted.split, halted.cleared, fun prereq resolved => by simp [missing] at resolved⟩
          exact ⟨halted_unclean task front name fault uninvoked unfetched, passed fault⟩
        · obtain ⟨dirty, below⟩ := ih prereq (chain ++ [task]) state halted.surveyed
            (halted_descent chain task s state descent opened front name halted prereq resolved) failed
          have fault : FirstFault app start task front name := by
            refine ⟨halted.split, halted.cleared, fun target named => ?_⟩
            cases resolved.symm.trans named
            exact dirty
          refine ⟨halted_unclean task front name fault uninvoked unfetched, fun other member => ?_⟩
          rcases below other member with during | passes
          · exact passed fault other during
          · exact .inr (.deeper task other prereq front name fault resolved passes)

section AvailableTask

variable [Fintype Task] (app : Application Task Name Scope)

theorem available_task_lasts (needed : Task → Bool) (root : Task) (start after : TraceState Task)
    (error : TraceError Task Name) (failed : availableTask app needed root start = (.error error, after)) :
    error ≠ .tooDeep := by
  rintro rfl
  cases find_task_reported (Fintype.card Task + 1) root root [] start List.nodup_nil rfl (List.isChain_singleton root) (by simp)
    .tooDeep (by change (availableTask app needed root start).1 = _; rw [failed])

theorem available_task_failing (needed : Task → Bool) (root : Task) (start after : TraceState Task)
    (fresh : start.footprint = ∅) (error : TraceError Task Name)
    (failed : availableTask app needed root start = (.error error, after)) :
    ¬ Clean app start root ∧ ∀ task ∈ after.fetched, task ∈ start.fetched ∨ Passes app start root task :=
  find_task_failing (Fintype.card Task + 1) root [] start (surveyed_start app start fresh)
    ⟨subset_rfl, subset_rfl, subset_rfl, by simp⟩ error after failed (available_task_lasts app needed root start after error failed)

-- A call succeeds exactly on the roots whose open part has no fault.
theorem available_task_ok_iff (needed : Task → Bool) (root : Task) (start : TraceState Task) (fresh : start.footprint = ∅) :
    (∃ status, (availableTask app needed root start).1 = .ok status) ↔ Clean app start root := by
  constructor
  · rintro ⟨status, fine⟩
    exact (find_task_visits (Fintype.card Task + 1) root [] start (surveyed_start app start fresh) status fine).clean
  · intro clean
    rcases traced : availableTask app needed root start with ⟨error | status, after⟩
    · exact absurd clean (available_task_failing app needed root start after fresh error traced).1
    · exact ⟨status, rfl⟩

end AvailableTask

end Failing

end Tracer

end Pwrake
