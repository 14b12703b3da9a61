import Pwrake.Tracer

set_option autoImplicit false

namespace Pwrake

-- What Rake's own Task#invoke reads and writes: the already_invoked flags, and
-- the tasks it has executed in their order.
structure RakeState (Task : Type*) where
  invoked : Finset Task
  executed : List Task

namespace Rake

open Tracer

variable {Task Name Scope : Type*} [DecidableEq Task]

-- The sequential algorithm: return if already invoked, mark, invoke the
-- prerequisites in order, execute if needed. needed? is an oracle that may read
-- what has been executed; depth bounds the recursion.
def invokePrerequisites (app : Application Task Name Scope) (invoke : Task → RakeState Task → Option (RakeState Task))
    (task : Task) : List Name → RakeState Task → Option (RakeState Task)
  | [], s => some s
  | name :: rest, s =>
      match resolve app task name with
      | none => none
      | some prereq => (invoke prereq s).bind fun s => invokePrerequisites app invoke task rest s

def execute (oracle : Task → Finset Task → Bool) (task : Task) (s : RakeState Task) : RakeState Task :=
  if oracle task s.executed.toFinset then { s with executed := s.executed ++ [task] } else s

def invoke (app : Application Task Name Scope) (oracle : Task → Finset Task → Bool) :
    Nat → Task → RakeState Task → Option (RakeState Task)
  | 0, _, _ => none
  | depth + 1, task, s =>
      if task ∈ s.invoked then some s
      else
        (invokePrerequisites app (invoke app oracle depth) task (app.prerequisites task)
          { s with invoked := insert task s.invoked }).map (execute oracle task)

-- needed? of a task depends only on which of its transitive prerequisites were executed.
def ReadsBelow (app : Application Task Name Scope) (oracle : Task → Finset Task → Bool) : Prop :=
  ∀ task (left right : Finset Task),
    (∀ lower, Relation.TransGen (Needs app) task lower → (lower ∈ left ↔ lower ∈ right)) → oracle task left = oracle task right

-- Between two steps of the algorithm: the opened tasks are being invoked, and
-- every other invoked task is done with and has all below it done with.
structure Midway (app : Application Task Name Scope) (oracle : Task → Finset Task → Bool) (opened : Finset Task)
    (s : RakeState Task) : Prop where
  pending : ∀ task ∈ opened, task ∈ s.invoked ∧ task ∉ s.executed
  executed : ∀ task ∈ s.executed, task ∈ s.invoked
  once : s.executed.Nodup
  closed : ∀ task ∈ s.invoked, task ∉ opened → ∀ prereq, Needs app task prereq → prereq ∈ s.invoked ∧ prereq ∉ opened
  solved : ∀ task ∈ s.invoked, task ∉ opened → (task ∈ s.executed ↔ oracle task s.executed.toFinset = true)

structure Invoked (app : Application Task Name Scope) (oracle : Task → Finset Task → Bool) (opened : Finset Task) (task : Task)
    (s after : RakeState Task) : Prop where
  midway : Midway app oracle opened after
  marked : task ∈ after.invoked
  grows : s.invoked ⊆ after.invoked
  reached : ∀ other ∈ after.invoked, other ∈ s.invoked ∨ Reach app task other

section Invoke

variable {app : Application Task Name Scope} {oracle : Task → Finset Task → Bool} {opened : Finset Task} {s : RakeState Task}

theorem midway_below (midway : Midway app oracle opened s) (task lower : Task) (invoked : task ∈ s.invoked)
    (done : task ∉ opened) (below : Relation.TransGen (Needs app) task lower) : lower ∈ s.invoked ∧ lower ∉ opened :=
  Dag.closed_below (fun task => task ∈ s.invoked ∧ task ∉ opened)
    (fun task next holds edge => midway.closed task holds.1 holds.2 next edge) task lower ⟨invoked, done⟩ below.to_reflTransGen

theorem execute_midway (reads : ReadsBelow app oracle) (task : Task) (midway : Midway app oracle (insert task opened) s)
    (fresh : task ∉ opened) (acyclic : ¬ Relation.TransGen (Needs app) task task)
    (below : ∀ prereq, Needs app task prereq → prereq ∈ s.invoked ∧ prereq ∉ opened) :
    Midway app oracle opened (execute oracle task s) := by
  obtain ⟨marked, unexecuted⟩ := midway.pending task (Finset.mem_insert_self task opened)
  have invoked : (execute oracle task s).invoked = s.invoked := by
    unfold execute
    split <;> rfl
  have member : ∀ other, other ∈ (execute oracle task s).executed ↔
      other ∈ s.executed ∨ (other = task ∧ oracle task s.executed.toFinset = true) := by
    intro other
    unfold execute
    split
    · rename_i wanted
      simp [wanted]
    · rename_i unwanted
      simp [unwanted]
  -- a task that does not stand above this one reads the same
  have same : ∀ other, ¬ Relation.TransGen (Needs app) other task →
      oracle other (execute oracle task s).executed.toFinset = oracle other s.executed.toFinset := by
    intro other apart
    refine reads other _ _ fun lower path => ?_
    have different : lower ≠ task := fun here => apart (here ▸ path)
    simp [member, different]
  refine ⟨fun other inside => ?_, fun other ran => ?_, ?_, fun other known outside => ?_, fun other known outside => ?_⟩
  · obtain ⟨known, idle⟩ := midway.pending other (Finset.mem_insert_of_mem inside)
    have different : other ≠ task := fun here => fresh (here ▸ inside)
    exact ⟨invoked ▸ known, fun ran => ((member other).mp ran).elim idle fun itself => different itself.1⟩
  · rw [invoked]
    exact ((member other).mp ran).elim (midway.executed other) fun itself => itself.1 ▸ marked
  · unfold execute
    split
    · refine List.nodup_append.mpr ⟨midway.once, List.nodup_singleton task, fun a ran b itself clash => ?_⟩
      exact unexecuted (List.mem_singleton.mp itself ▸ clash ▸ ran)
    · exact midway.once
  · rw [invoked] at known ⊢
    by_cases here : other = task
    · exact here ▸ below
    · intro prereq edge
      obtain ⟨there, apart⟩ := midway.closed other known (by simp [here, outside]) prereq edge
      exact ⟨there, fun inside => apart (Finset.mem_insert_of_mem inside)⟩
  · rw [invoked] at known
    by_cases here : other = task
    · subst here
      rw [member, same other acyclic]
      exact ⟨fun ran => ran.elim (fun before => absurd before unexecuted) And.right, fun wanted => .inr ⟨rfl, wanted⟩⟩
    · have done : other ∉ insert task opened := by simp [here, outside]
      have apart : ¬ Relation.TransGen (Needs app) other task := fun path =>
        (midway_below midway other task known done path).2 (Finset.mem_insert_self task opened)
      rw [member, same other apart, ← midway.solved other known done]
      simp [here]

theorem invoke_prerequisites_midway (task : Task) (names : List Name) (call : Task → RakeState Task → Option (RakeState Task))
    (midway : Midway app oracle opened s)
    (resolves : ∀ name ∈ names, ∃ prereq, resolve app task name = some prereq)
    (calls : ∀ name ∈ names, ∀ prereq, resolve app task name = some prereq → ∀ s, Midway app oracle opened s →
      ∃ after, call prereq s = some after ∧ Invoked app oracle opened prereq s after) :
    ∃ after, invokePrerequisites app call task names s = some after ∧ Midway app oracle opened after ∧
      s.invoked ⊆ after.invoked ∧ (∀ name ∈ names, ∀ prereq, resolve app task name = some prereq → prereq ∈ after.invoked) ∧
      ∀ other ∈ after.invoked, other ∈ s.invoked ∨
        ∃ name ∈ names, ∃ prereq, resolve app task name = some prereq ∧ Reach app prereq other := by
  induction names generalizing s with
  | nil => exact ⟨s, rfl, midway, subset_rfl, by simp, fun other known => .inl known⟩
  | cons name rest ih =>
      obtain ⟨prereq, found⟩ := resolves name List.mem_cons_self
      obtain ⟨between, called, first⟩ := calls name List.mem_cons_self prereq found s midway
      obtain ⟨after, ran, last, grows, marked, reached⟩ := ih first.midway
        (fun other listed => resolves other (List.mem_cons_of_mem name listed))
        fun other listed => calls other (List.mem_cons_of_mem name listed)
      refine ⟨after, by simp [invokePrerequisites, found, called, ran], last, first.grows.trans grows, ?_, ?_⟩
      · intro other listed target resolved
        rcases List.mem_cons.mp listed with rfl | later
        · rw [found] at resolved
          cases resolved
          exact grows first.marked
        · exact marked other later target resolved
      · intro other known
        rcases reached other known with before | ⟨later, listed, target, resolved, below⟩
        · exact (first.reached other before).imp_right fun below => ⟨name, List.mem_cons_self, prereq, found, below⟩
        · exact .inr ⟨later, List.mem_cons_of_mem name listed, target, resolved, below⟩

theorem invoke_midway [Fintype Task] (reads : ReadsBelow app oracle) (depth : Nat) (task : Task)
    (buildable : Buildable app task) (midway : Midway app oracle opened s)
    (above : ∀ upper ∈ opened, Relation.TransGen (Needs app) upper task) (enough : Fintype.card Task < depth + opened.card) :
    ∃ after, invoke app oracle depth task s = some after ∧ Invoked app oracle opened task s after := by
  induction depth generalizing task opened s with
  | zero =>
      have bound := Finset.card_le_univ opened
      omega
  | succ depth ih =>
      by_cases invoked : task ∈ s.invoked
      · exact ⟨s, by simp [invoke, invoked], midway, invoked, subset_rfl, fun other known => .inl known⟩
      · have fresh : task ∉ opened := fun inside => invoked (midway.pending task inside).1
        have acyclic : ¬ Relation.TransGen (Needs app) task task := buildable.acyclic task .refl
        have marked : Midway app oracle (insert task opened) { s with invoked := insert task s.invoked } := by
          refine ⟨fun other inside => ?_, fun other ran => Finset.mem_insert_of_mem (midway.executed other ran), midway.once,
            fun other known outside prereq edge => ?_, fun other known outside => ?_⟩
          · rcases Finset.mem_insert.mp inside with rfl | earlier
            · exact ⟨Finset.mem_insert_self other _, fun ran => invoked (midway.executed other ran)⟩
            · exact ⟨Finset.mem_insert_of_mem (midway.pending other earlier).1, (midway.pending other earlier).2⟩
          · obtain ⟨apart, done⟩ := not_or.mp (Finset.mem_insert.not.mp outside)
            have before := (Finset.mem_insert.mp known).resolve_left apart
            obtain ⟨there, closed⟩ := midway.closed other before done prereq edge
            have different : prereq ≠ task := fun here => invoked (here ▸ there)
            exact ⟨Finset.mem_insert_of_mem there, by simp [different, closed]⟩
          · obtain ⟨apart, done⟩ := not_or.mp (Finset.mem_insert.not.mp outside)
            exact midway.solved other ((Finset.mem_insert.mp known).resolve_left apart) done
        obtain ⟨between, ran, inner, grows, found, reached⟩ := invoke_prerequisites_midway task (app.prerequisites task)
          (invoke app oracle depth) marked (buildable.resolves task .refl) fun name listed prereq resolved s midway => by
            have edge : Needs app task prereq := ⟨name, listed, resolved⟩
            have count : (insert task opened).card = opened.card + 1 := Finset.card_insert_of_notMem fresh
            refine ih prereq ⟨Dag.acyclic_below buildable.acyclic prereq (.single edge), fun other below =>
              buildable.resolves other (below.head edge)⟩ midway (fun upper inside => ?_) (by omega)
            rcases Finset.mem_insert.mp inside with rfl | earlier
            · exact .single edge
            · exact (above upper earlier).tail edge
        have below : ∀ prereq, Needs app task prereq → prereq ∈ between.invoked ∧ prereq ∉ opened := by
          rintro prereq ⟨name, listed, resolved⟩
          refine ⟨found name listed prereq resolved, fun inside => ?_⟩
          exact acyclic (.head ⟨name, listed, resolved⟩ (above prereq inside))
        have same : (execute oracle task between).invoked = between.invoked := by
          unfold execute
          split <;> rfl
        refine ⟨execute oracle task between, by simp [invoke, invoked, ran],
          execute_midway reads task inner fresh acyclic below, ?_, ?_, fun other known => ?_⟩
        · rw [same]
          exact grows (Finset.mem_insert_self task s.invoked)
        · rw [same]
          exact (Finset.subset_insert task s.invoked).trans grows
        · rw [same] at known
          rcases reached other known with before | ⟨name, listed, prereq, resolved, path⟩
          · exact (Finset.mem_insert.mp before).elim (fun here => .inr (here ▸ .refl)) .inl
          · exact .inr (path.head ⟨name, listed, resolved⟩)

-- What a whole run of the sequential algorithm executes.
structure Executes (app : Application Task Name Scope) (oracle : Task → Finset Task → Bool) (root : Task) (executed : List Task) :
    Prop where
  once : executed.Nodup
  reached : ∀ task ∈ executed, Reach app root task
  solved : ∀ task, Reach app root task → (task ∈ executed ↔ oracle task executed.toFinset = true)

theorem invoke_executes [Fintype Task] (reads : ReadsBelow app oracle) (root : Task) (buildable : Buildable app root) :
    ∃ after, invoke app oracle (Fintype.card Task + 1) root ⟨∅, []⟩ = some after ∧ Executes app oracle root after.executed := by
  have start : Midway app oracle ∅ (⟨∅, []⟩ : RakeState Task) := ⟨by simp, by simp, List.nodup_nil, by simp, by simp⟩
  obtain ⟨after, ran, done⟩ := invoke_midway reads (Fintype.card Task + 1) root buildable start (by simp) (by simp)
  have marked : ∀ task, Reach app root task → task ∈ after.invoked := fun task below =>
    Dag.closed_below (fun task => task ∈ after.invoked)
      (fun task next known edge => (done.midway.closed task known (by simp) next edge).1) root task done.marked below
  refine ⟨after, ran, done.midway.once, fun task member => ?_, fun task below => ?_⟩
  · exact (done.reached task (done.midway.executed task member)).resolve_left (by simp)
  · exact done.midway.solved task (marked task below) (by simp)

-- The rule of needed? has only one solution below an acyclic root.
theorem executes_unique [Finite Task] (reads : ReadsBelow app oracle) (root : Task) (buildable : Buildable app root)
    (left right : List Task) (first : Executes app oracle root left) (second : Executes app oracle root right) :
    left.Perm right := by
  have agree : ∀ task, Reach app root task → (task ∈ left ↔ task ∈ right) :=
    Dag.local_rule_unique buildable.acyclic (fun (executed : List Task) task => task ∈ executed)
      (fun (executed : List Task) task => oracle task executed.toFinset = true)
      (fun task left right same => by rw [reads task left.toFinset right.toFinset fun lower path => by simpa using same lower path])
      left right first.solved second.solved
  refine (List.perm_ext_iff_of_nodup first.once second.once).mpr fun task => ?_
  exact ⟨fun member => (agree task (first.reached task member)).mp member,
    fun member => (agree task (second.reached task member)).mpr member⟩

end Invoke

end Rake

end Pwrake
