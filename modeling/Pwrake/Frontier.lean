import Pwrake.TraceProgress

set_option autoImplicit false

namespace Pwrake

namespace Tracer

variable {Task Name Scope : Type*}

-- The search below the task comes to its end: every name resolves and every
-- way down stops at a task that was invoked or fetched before, or at a leaf.
inductive Clean (app : Application Task Name Scope) (start : TraceState Task) : Task → Prop where
  | stopped (task : Task) (marked : task ∈ start.invoked ∨ task ∈ start.fetched) : Clean app start task
  | opened (task : Task) (resolves : ∀ name ∈ app.prerequisites task, ∃ prereq, resolve app task name = some prereq)
      (below : ∀ prereq, Needs app task prereq → Clean app start prereq) : Clean app start task

-- A prerequisite whose flag stays down until the trace returns.
def Stuck (chain : List Task) (s : TraceState Task) (prereq : Task) : Prop :=
  prereq ∉ s.invoked ∧ (prereq ∈ s.fetched ∨ prereq ∈ s.footprint ∧ prereq ∉ chain)

-- A task the trace is done with. Its prerequisites were all come to, and it
-- was invoked, put into the batch, or left for a prerequisite that is stuck.
structure Judged (app : Application Task Name Scope) (start : TraceState Task) (chain : List Task) (s : TraceState Task)
    (task : Task) : Prop where
  clean : Clean app start task
  covered : ∀ prereq, Needs app task prereq → prereq ∈ start.invoked ∨ prereq ∈ start.fetched ∨ prereq ∈ s.footprint
  verdict : task ∈ s.invoked ∨ task ∈ s.fetchedTasks ∨ ∃ prereq, Needs app task prereq ∧ Stuck chain s prereq

structure Surveyed (app : Application Task Name Scope) (start : TraceState Task) (chain : List Task) (s : TraceState Task) :
    Prop where
  invoked : ∀ task ∈ s.invoked, task ∈ start.invoked ∨ task ∈ s.footprint
  fetched : ∀ task ∈ s.fetched, task ∈ start.fetched ∨ task ∈ s.footprint
  onChain : ∀ task ∈ chain, task ∈ s.footprint ∧ task ∉ s.invoked ∧ task ∉ s.fetched
  judged : ∀ task ∈ s.footprint, task ∉ chain → Judged app start chain s task

theorem surveyed_start (app : Application Task Name Scope) (start : TraceState Task) (fresh : start.footprint = ∅) :
    Surveyed app start [] start where
  invoked := fun _ member => .inl member
  fetched := fun _ member => .inl member
  onChain := fun _ member => absurd member List.not_mem_nil
  judged := by simp [fresh]

theorem stuck_leave (chain : List Task) (s : TraceState Task) (task prereq : Task) (stuck : Stuck (chain ++ [task]) s prereq) :
    Stuck chain s prereq :=
  ⟨stuck.1, stuck.2.imp_right fun ⟨seen, outside⟩ => ⟨seen, fun member => outside (List.mem_append_left [task] member)⟩⟩

theorem judged_leave (app : Application Task Name Scope) (start : TraceState Task) (chain : List Task) (s : TraceState Task)
    (task other : Task) (judged : Judged app start (chain ++ [task]) s other) : Judged app start chain s other where
  clean := judged.clean
  covered := judged.covered
  verdict := judged.verdict.imp_right fun later => later.imp_right fun ⟨prereq, edge, stuck⟩ =>
    ⟨prereq, edge, stuck_leave chain s task prereq stuck⟩

section Survey

variable [DecidableEq Task] {app : Application Task Name Scope} {needed : Task → Bool} {allowed : Task → Prop}
  {start : TraceState Task}

theorem explores_batch (s after : TraceState Task) (explored : Explores app needed allowed s after) :
    s.fetchedTasks ⊆ after.fetchedTasks := by
  refine explores_induction (fun state => s.fetchedTasks ⊆ state.fetchedTasks) s after explored (List.Subset.refl _) ?_
  intro before next moved kept
  cases moved with
  | mark => exact kept
  | fetch task => exact List.Subset.trans kept (List.subset_append_left _ _)
  | drop => exact kept

theorem explores_stuck (chain : List Task) (s after : TraceState Task)
    (apart : ∀ task ∈ s.footprint, task ∉ chain → ¬ allowed task) (explored : Explores app needed allowed s after)
    (prereq : Task) (stuck : Stuck chain s prereq) : Stuck chain after prereq := by
  obtain ⟨uninvoked, fetched | ⟨marked, off⟩⟩ := stuck
  · have kept : prereq ∉ after.invoked ∧ prereq ∈ after.fetched := by
      refine explores_induction (fun state => prereq ∉ state.invoked ∧ prereq ∈ state.fetched) s after explored
        ⟨uninvoked, fetched⟩ ?_
      rintro before next moved ⟨still, listed⟩
      cases moved with
      | mark => exact ⟨still, listed⟩
      | fetch => exact ⟨still, Finset.mem_insert_of_mem listed⟩
      | drop other _ unfetched =>
          have different : prereq ≠ other := fun same => unfetched (same ▸ listed)
          exact ⟨by simp [different, still], Finset.mem_insert_of_mem listed⟩
    exact ⟨kept.1, .inl kept.2⟩
  · have untouched := explores_elsewhere prereq (apart prereq marked off) s after explored
    exact ⟨fun member => uninvoked (untouched.1.mp member), .inr ⟨(explores_grows s after explored).2.1 marked, off⟩⟩

theorem explores_judged (chain : List Task) (s after : TraceState Task)
    (apart : ∀ task ∈ s.footprint, task ∉ chain → ¬ allowed task) (explored : Explores app needed allowed s after)
    (task : Task) (judged : Judged app start chain s task) : Judged app start chain after task where
  clean := judged.clean
  covered := fun prereq edge => (judged.covered prereq edge).imp_right
    fun later => later.imp_right fun marked => (explores_grows s after explored).2.1 marked
  verdict := by
    rcases judged.verdict with invoked | batched | ⟨prereq, edge, stuck⟩
    · exact .inl ((explores_grows s after explored).1 invoked)
    · exact .inr (.inl (explores_batch s after explored batched))
    · exact .inr (.inr ⟨prereq, edge, explores_stuck chain s after apart explored prereq stuck⟩)

-- What a successful find_task adds to the survey.
structure Visit (app : Application Task Name Scope) (start : TraceState Task) (chain : List Task) (task : Task)
    (result : Traced Task Name (Option Status)) : Prop where
  surveyed : Surveyed app start chain result.2
  clean : Clean app start task
  reached : task ∈ start.invoked ∨ task ∈ start.fetched ∨ task ∈ result.2.footprint
  stuck : ∀ status, result.1 = .ok (some status) → Stuck chain result.2 task

theorem find_prereqs_visits (task : Task) (chain : List Task)
    (find : Task → TraceState Task → Traced Task Name (Option Status))
    (finds : ∀ prereq s, Needs app task prereq → Found app needed prereq s (find prereq s))
    (visits : ∀ prereq s status, Surveyed app start chain s → (find prereq s).1 = .ok status →
      Visit app start chain prereq (find prereq s))
    (names : List Name) (listed : ∀ name ∈ names, name ∈ app.prerequisites task) (allInvoked : Bool)
    (s : TraceState Task) (surveyed : Surveyed app start chain s)
    (known : allInvoked = false → ∃ prereq, Needs app task prereq ∧ Stuck chain s prereq)
    (verdict : Bool) (looped : (findPrereqs app find task names allInvoked s).1 = .ok verdict) :
    Surveyed app start chain (findPrereqs app find task names allInvoked s).2 ∧
      (∀ name ∈ names, ∃ prereq, resolve app task name = some prereq ∧ Clean app start prereq ∧
        (prereq ∈ start.invoked ∨ prereq ∈ start.fetched ∨
          prereq ∈ (findPrereqs app find task names allInvoked s).2.footprint)) ∧
      (verdict = false →
        ∃ prereq, Needs app task prereq ∧ Stuck chain (findPrereqs app find task names allInvoked s).2 prereq) := by
  induction names generalizing allInvoked s with
  | nil =>
      simp only [findPrereqs, Except.ok.injEq] at looped
      exact ⟨surveyed, by simp, fun stuck => known (looped.trans stuck)⟩
  | cons name rest ih =>
      have restListed : ∀ other ∈ rest, other ∈ app.prerequisites task :=
        fun other member => listed other (List.mem_cons_of_mem name member)
      cases resolved : resolve app task name with
      | none => simp [findPrereqs, resolved] at looped
      | some prereq =>
          have edge : Needs app task prereq := ⟨name, listed name List.mem_cons_self, resolved⟩
          have explored := (finds prereq s edge).explores
          -- whatever the status, the rest of the loop goes on from a survey
          have onwards : ∀ (status : Option Status) (after : TraceState Task) (flag : Bool),
              find prereq s = (.ok status, after) →
              (flag = false → ∃ other, Needs app task other ∧ Stuck chain after other) →
              (findPrereqs app find task rest flag after).1 = .ok verdict →
              Surveyed app start chain (findPrereqs app find task rest flag after).2 ∧
                (∀ other ∈ name :: rest, ∃ target, resolve app task other = some target ∧ Clean app start target ∧
                  (target ∈ start.invoked ∨ target ∈ start.fetched ∨
                    target ∈ (findPrereqs app find task rest flag after).2.footprint)) ∧
                (verdict = false →
                  ∃ other, Needs app task other ∧ Stuck chain (findPrereqs app find task rest flag after).2 other) := by
            intro status after flag found stuck later
            have visit := visits prereq s status surveyed (by rw [found])
            rw [found] at visit
            obtain ⟨left, names, verdicts⟩ := ih restListed flag after visit.surveyed stuck later
            have grows := explores_grows _ _ (find_prereqs_found app needed task find finds rest restListed flag after).1
            refine ⟨left, fun other member => ?_, verdicts⟩
            rcases List.mem_cons.mp member with rfl | member
            · exact ⟨prereq, resolved, visit.clean,
                visit.reached.imp_right fun later => later.imp_right fun marked => grows.2.1 marked⟩
            · exact names other member
          rcases found : find prereq s with ⟨error | (none | status), after⟩
          · simp [findPrereqs, resolved, found] at looped
          · rw [found] at explored
            simp only [findPrereqs, resolved, found] at looped ⊢
            refine onwards none after allInvoked found (fun pending => ?_) looped
            obtain ⟨other, needs, stuck⟩ := known pending
            exact ⟨other, needs,
              explores_stuck chain s after (fun task marked _ permitted => permitted.2 marked) explored other stuck⟩
          · have visit := visits prereq s (some status) surveyed (by rw [found])
            rw [found] at visit
            simp only [findPrereqs, resolved, found] at looped ⊢
            exact onwards (some status) after false found (fun _ => ⟨prereq, edge, visit.stuck status rfl⟩) looped

theorem surveyed_enter (chain : List Task) (s : TraceState Task) (task : Task) (surveyed : Surveyed app start chain s)
    (opened : Opened task chain s) : Surveyed app start (chain ++ [task]) { s with footprint := insert task s.footprint } where
  invoked := fun other member => (surveyed.invoked other member).imp_right Finset.mem_insert_of_mem
  fetched := fun other member => (surveyed.fetched other member).imp_right Finset.mem_insert_of_mem
  onChain := by
    intro other member
    rcases List.mem_append.mp member with above | itself
    · obtain ⟨marked, flags⟩ := surveyed.onChain other above
      exact ⟨Finset.mem_insert_of_mem marked, flags⟩
    · rw [List.mem_singleton.mp itself]
      exact ⟨Finset.mem_insert_self task _, opened.uninvoked, opened.unfetched⟩
  judged := by
    intro other marked off
    obtain ⟨above, different⟩ : other ∉ chain ∧ other ≠ task := by simpa using off
    have earlier : other ∈ s.footprint := (Finset.mem_insert.mp marked).resolve_left different
    obtain ⟨clean, covered, verdict⟩ := surveyed.judged other earlier above
    refine ⟨clean, fun prereq edge => (covered prereq edge).imp_right fun later => later.imp_right Finset.mem_insert_of_mem, ?_⟩
    refine verdict.imp_right fun later => later.imp_right ?_
    rintro ⟨prereq, edge, down, stopped⟩
    refine ⟨prereq, edge, down, stopped.imp_right fun ⟨seen, outside⟩ => ⟨Finset.mem_insert_of_mem seen, ?_⟩⟩
    have apart : prereq ≠ task := fun same => opened.unmarked (same ▸ seen)
    simp [outside, apart]

theorem surveyed_leave (chain : List Task) (s : TraceState Task) (task : Task)
    (surveyed : Surveyed app start (chain ++ [task]) s) (judged : Judged app start chain s task) :
    Surveyed app start chain s where
  invoked := surveyed.invoked
  fetched := surveyed.fetched
  onChain := fun other member => surveyed.onChain other (List.mem_append_left [task] member)
  judged := by
    intro other marked off
    by_cases same : other = task
    · exact same ▸ judged
    · exact judged_leave app start chain s task other (surveyed.judged other marked (by simp [off, same]))

omit [DecidableEq Task] in
theorem surveyed_reached (chain : List Task) (s : TraceState Task) (surveyed : Surveyed app start chain s) (root : Task)
    (here : root ∈ start.invoked ∨ root ∈ start.fetched ∨ root ∈ s.footprint)
    (off : ∀ task, Sees app start root task → task ∉ chain) (task : Task) (seen : Sees app start root task) :
    task ∈ start.invoked ∨ task ∈ start.fetched ∨ task ∈ s.footprint := by
  induction seen with
  | refl => exact here
  | tail path edge ih =>
      have marked := (ih.resolve_left edge.1).resolve_left edge.2.2.1
      exact (surveyed.judged _ marked (off _ path)).covered _ edge.2.2.2

theorem surveyed_write (chain : List Task) (s after : TraceState Task) (task : Task)
    (surveyed : Surveyed app start (chain ++ [task]) s) (off : task ∉ chain)
    (moved : Move app needed (· = task) s after) (marked : task ∈ s.footprint)
    (judged : Judged app start chain after task) : Surveyed app start chain after := by
  have apart : ∀ other ∈ s.footprint, other ∉ chain ++ [task] → ¬ other = task :=
    fun other _ outside same => outside (by simp [same])
  have explored : Explores app needed (· = task) s after := .single moved
  have written : ∀ other, other ≠ task → (other ∈ after.invoked ↔ other ∈ s.invoked) ∧ (other ∈ after.fetched ↔ other ∈ s.fetched) :=
    fun other different => explores_elsewhere other different s after explored
  have grows := (explores_grows s after explored).2.1
  have same : after.footprint = s.footprint := by
    cases moved with
    | mark other permitted => simp [permitted, marked]
    | fetch => rfl
    | drop => rfl
  refine ⟨?_, ?_, ?_, ?_⟩
  · intro other member
    by_cases itself : other = task
    · exact .inr (grows (itself ▸ marked))
    · exact (surveyed.invoked other ((written other itself).1.mp member)).imp_right fun seen => grows seen
  · intro other member
    by_cases itself : other = task
    · exact .inr (grows (itself ▸ marked))
    · exact (surveyed.fetched other ((written other itself).2.mp member)).imp_right fun seen => grows seen
  · intro other member
    have different : other ≠ task := fun itself => off (itself ▸ member)
    obtain ⟨seen, uninvoked, unfetched⟩ := surveyed.onChain other (List.mem_append_left [task] member)
    exact ⟨grows seen, fun now => uninvoked ((written other different).1.mp now),
      fun now => unfetched ((written other different).2.mp now)⟩
  · intro other seen outside
    by_cases itself : other = task
    · exact itself ▸ judged
    · have before := surveyed.judged other (same ▸ seen) (by simp [outside, itself])
      exact judged_leave app start chain after task other
        (explores_judged (chain ++ [task]) s after apart explored other before)

-- A task is clean, and its prerequisites are come to, once its names are.
omit [DecidableEq Task] in
theorem names_clean (task : Task) (after : TraceState Task)
    (names : ∀ name ∈ app.prerequisites task, ∃ prereq, resolve app task name = some prereq ∧ Clean app start prereq ∧
      (prereq ∈ start.invoked ∨ prereq ∈ start.fetched ∨ prereq ∈ after.footprint)) :
    Clean app start task ∧
      ∀ prereq, Needs app task prereq → prereq ∈ start.invoked ∨ prereq ∈ start.fetched ∨ prereq ∈ after.footprint := by
  refine ⟨.opened task (fun name member => ?_) ?_, ?_⟩
  · obtain ⟨prereq, resolved, -⟩ := names name member
    exact ⟨prereq, resolved⟩
  · rintro prereq ⟨name, member, resolved⟩
    obtain ⟨target, same, below, -⟩ := names name member
    cases resolved.symm.trans same
    exact below
  · rintro prereq ⟨name, member, resolved⟩
    obtain ⟨target, same, -, reached⟩ := names name member
    cases resolved.symm.trans same
    exact reached

theorem find_task_visits (depth : Nat) (task : Task) (chain : List Task) (s : TraceState Task)
    (surveyed : Surveyed app start chain s) (status : Option Status)
    (found : (findTask app needed depth task chain s).1 = .ok status) :
    Visit app start chain task (findTask app needed depth task chain s) := by
  induction depth generalizing task chain s status with
  | zero => simp [findTask] at found
  | succ depth ih =>
      have finds := fun prereq s => find_task_found app needed depth prereq (chain ++ [task]) s
      have loop := fun (opened : Opened task chain s) => find_prereqs_visits task (chain ++ [task]) _
        (fun prereq s _ => finds prereq s)
        (fun prereq s status surveyed found => ih prereq (chain ++ [task]) s surveyed status found)
        (app.prerequisites task) (fun _ member => member) true _
        (surveyed_enter chain s task surveyed opened) (by simp)
      have touched := below_looped app needed depth task chain s finds
      have way := find_task_way app needed depth task chain s
      generalize findTask app needed (depth + 1) task chain s = result at way found ⊢
      rw [← below] at loop
      cases way with
      | invoked member =>
          rcases surveyed.invoked task member with before | marked
          · exact ⟨surveyed, .stopped task (.inl before), .inl before, by simp⟩
          · have off : task ∉ chain := fun above => (surveyed.onChain task above).2.1 member
            exact ⟨surveyed, (surveyed.judged task marked off).clean, .inr (.inr marked), by simp⟩
      | circular => cases found
      | traced uninvoked off known =>
          have stuck : Stuck chain s task := ⟨uninvoked, known.symm.imp_right fun marked => ⟨marked, off⟩⟩
          have seen : task ∈ start.fetched ∨ task ∈ s.footprint := known.elim .inr (surveyed.fetched task)
          rcases seen with before | marked
          · exact ⟨surveyed, .stopped task (.inr before), .inr (.inl before), fun _ _ => stuck⟩
          · exact ⟨surveyed, (surveyed.judged task marked off).clean, .inr (.inr marked), fun _ _ => stuck⟩
      | failed => cases found
      | pending after opened looped =>
          rw [looped] at loop
          obtain ⟨left, names, verdict⟩ := loop opened false rfl
          obtain ⟨clean, covered⟩ := names_clean task after names
          obtain ⟨prereq, edge, stuck⟩ := verdict rfl
          obtain ⟨marked, uninvoked, -⟩ := left.onChain task (by simp)
          have judged : Judged app start chain after task :=
            ⟨clean, covered, .inr (.inr ⟨prereq, edge, stuck_leave chain after task prereq stuck⟩)⟩
          exact ⟨surveyed_leave chain after task left judged, clean, .inr (.inr marked),
            fun _ _ => ⟨uninvoked, .inr ⟨marked, opened.off⟩⟩⟩
      | fetched after opened looped wanted =>
          rw [looped] at loop
          obtain ⟨left, names, -⟩ := loop opened true rfl
          obtain ⟨clean, covered⟩ := names_clean task after names
          obtain ⟨-, uninvoked, unfetched, ready, -⟩ := looped ▸ touched opened
          have marked := (left.onChain task (by simp)).1
          have moved : Move app needed (· = task) after
              { after with fetched := insert task after.fetched, fetchedTasks := after.fetchedTasks ++ [task] } :=
            .fetch task rfl unfetched uninvoked (ready rfl) wanted
          exact ⟨surveyed_write chain after _ task left opened.off moved marked ⟨clean, covered, .inr (.inl (by simp))⟩,
            clean, .inr (.inr marked), fun _ _ => ⟨uninvoked, .inl (Finset.mem_insert_self task _)⟩⟩
      | dropped after opened looped unwanted =>
          rw [looped] at loop
          obtain ⟨left, names, -⟩ := loop opened true rfl
          obtain ⟨clean, covered⟩ := names_clean task after names
          obtain ⟨-, uninvoked, unfetched, ready, -⟩ := looped ▸ touched opened
          have marked := (left.onChain task (by simp)).1
          have moved : Move app needed (· = task) after
              { after with fetched := insert task after.fetched, invoked := insert task after.invoked } :=
            .drop task rfl unfetched uninvoked (ready rfl) unwanted
          exact ⟨surveyed_write chain after _ task left opened.off moved marked
            ⟨clean, covered, .inl (Finset.mem_insert_self task _)⟩, clean, .inr (.inr marked), by simp⟩

-- How one whole call of available_task answers, whatever the graph: it judges
-- exactly the tasks it can come to.
structure Verdicts (app : Application Task Name Scope) (needed : Task → Bool) (start : TraceState Task) (root : Task)
    (after : TraceState Task) : Prop where
  clean : Clean app start root
  kept : start.invoked ⊆ after.invoked
  dropped : ∀ task, task ∈ after.invoked ∧ task ∉ start.invoked ↔
    Sees app start root task ∧ task ∉ start.invoked ∧ task ∉ start.fetched ∧ needed task = false ∧
      ∀ prereq, Needs app task prereq → prereq ∈ after.invoked
  batch : ∀ task, task ∈ after.fetchedTasks ↔
    Sees app start root task ∧ task ∉ start.invoked ∧ task ∉ start.fetched ∧ needed task = true ∧
      ∀ prereq, Needs app task prereq → prereq ∈ after.invoked
  distinct : after.fetchedTasks.Nodup
  fetched : ∀ task, task ∈ after.fetched ↔ task ∈ start.fetched ∨ task ∈ after.fetchedTasks ∨
    (task ∈ after.invoked ∧ task ∉ start.invoked)

theorem available_task_verdicts [Fintype Task] (app : Application Task Name Scope) (needed : Task → Bool) (root : Task)
    (start after : TraceState Task) (fresh : start.footprint = ∅) (clear : start.fetchedTasks = [])
    (status : Option Status) (traced : availableTask app needed root start = (.ok status, after)) :
    Verdicts app needed start root after ∧ (status = none ↔ root ∈ after.invoked) := by
  have found := available_task_found app needed root start
  have visit : Visit app start [] root (availableTask app needed root start) :=
    find_task_visits _ root [] start (surveyed_start app start fresh) status (by
      change (availableTask app needed root start).1 = _
      rw [traced])
  rw [traced] at found visit
  obtain ⟨added, outcome⟩ := explores_outcome start after (fun _ permitted => permitted.2) found.explores
  have same : after.fetchedTasks = added := by simp [outcome.appended, clear]
  subst same
  have reached := surveyed_reached [] after visit.surveyed root visit.reached fun _ _ => List.not_mem_nil
  have decided : ∀ task, Sees app start root task → task ∉ start.invoked → task ∉ start.fetched →
      (∀ prereq, Needs app task prereq → prereq ∈ after.invoked) → task ∈ after.invoked ∨ task ∈ after.fetchedTasks := by
    intro task seen uninvoked unfetched ready
    have marked := ((reached task seen).resolve_left uninvoked).resolve_left unfetched
    rcases (visit.surveyed.judged task marked List.not_mem_nil).verdict with invoked | batched | ⟨prereq, edge, down, -⟩
    · exact .inl invoked
    · exact .inr batched
    · exact absurd (ready prereq edge) down
  refine ⟨⟨visit.clean, outcome.invoked, fun task => ⟨?_, ?_⟩, fun task => ⟨?_, ?_⟩, outcome.distinct, outcome.fetched⟩, ?_, ?_⟩
  · rintro ⟨member, before⟩
    obtain ⟨⟨seen, -⟩, unfetched, unwanted, ready⟩ := outcome.dropped task member before
    exact ⟨seen, before, unfetched, unwanted, ready⟩
  · rintro ⟨seen, before, unfetched, unwanted, ready⟩
    rcases decided task seen before unfetched ready with invoked | batched
    · exact ⟨invoked, before⟩
    · have wanted := (outcome.chosen task batched).2.2.2.1
      simp [unwanted] at wanted
  · intro member
    obtain ⟨⟨seen, -⟩, unfetched, uninvoked, wanted, ready⟩ := outcome.chosen task member
    exact ⟨seen, fun before => uninvoked (outcome.invoked before), unfetched, wanted, ready⟩
  · rintro ⟨seen, before, unfetched, wanted, ready⟩
    rcases decided task seen before unfetched ready with invoked | batched
    · have unwanted := (outcome.dropped task invoked before).2.2.1
      simp [wanted] at unwanted
    · exact batched
  · rintro rfl
    exact found.invoked rfl
  · intro member
    cases status with
    | none => rfl
    | some status => exact absurd member (visit.stuck status rfl).1

end Survey

end Tracer

end Pwrake
