import Mathlib.Data.Finset.Option
import Pwrake.AffinityQueue
import Pwrake.Roster

set_option autoImplicit false

namespace Pwrake

-- What a queue is for: a set of waiting tasks, of which a pop takes at most one
-- that is there.
structure QueueStore {Queue Task Host Choice : Type*} [DecidableEq Task] (ops : QueueOps Queue Task Host Choice)
    (Stored : Queue → Prop) (content : Queue → Finset Task) : Prop where
  push : ∀ q task choice, Stored q → task ∉ content q →
    Stored (ops.push q task choice) ∧ content (ops.push q task choice) = insert task (content q)
  pop : ∀ q host, Stored q → Stored (ops.pop q host).2 ∧ (ops.pop q host).1.toFinset ⊆ content q ∧
    content (ops.pop q host).2 = content q \ (ops.pop q host).1.toFinset
  popAlt : ∀ q host, Stored q → Stored (ops.popAlt q host).2 ∧ (ops.popAlt q host).1.toFinset ⊆ content q ∧
    content (ops.popAlt q host).2 = content q \ (ops.popAlt q host).1.toFinset
  clear : ∀ q, Stored q → Stored (ops.clear q) ∧ content (ops.clear q) = ∅
  isEmpty : ∀ q, Stored q → (ops.isEmpty q = true ↔ content q = ∅)
  steals : ∀ q host, Stored q → ops.isEmpty q = false → (ops.pop q host).1 = none →
    (ops.popAlt (ops.pop q host).2 host).1 ≠ none

namespace QueueStore

variable {Queue Task Host Choice : Type*} [DecidableEq Task] {ops : QueueOps Queue Task Host Choice} {Stored : Queue → Prop}
  {content : Queue → Finset Task}

-- The tasks a turn hands to its caller.
def taken : PopOutcome Task → Option Task
  | .task task => some task
  | _ => none

theorem take_content (store : QueueStore ops Stored content) (q : Queue) (host : Host) (n : Nat) (stored : Stored q) :
    Stored (TaskQueue.take ops q host n).2 ∧ (taken (TaskQueue.take ops q host n).1).toFinset ⊆ content q ∧
      content (TaskQueue.take ops q host n).2 = content q \ (taken (TaskQueue.take ops q host n).1).toFinset := by
  have popped := store.pop q host stored
  unfold TaskQueue.take
  cases result : ops.pop q host with
  | mk found left =>
      rw [result] at popped
      cases found with
      | some task => exact popped
      | none =>
          obtain ⟨still, -, same⟩ := popped
          have kept : content left = content q := by simpa using same
          have stolen := store.popAlt left host still
          rw [kept] at stolen
          dsimp only
          split
          · cases second : ops.popAlt left host with
            | mk other rest =>
                rw [second] at stolen
                cases other with
                | some task => exact stolen
                | none => exact stolen
          · exact ⟨still, by simp [taken], by simp [taken, kept]⟩

theorem take_steals (store : QueueStore ops Stored content) (q : Queue) (host : Host) (n : Nat) (stored : Stored q)
    (occupied : ops.isEmpty q = false) (third : 1 < n) : ∃ task, (TaskQueue.take ops q host n).1 = .task task :=
  TaskQueue.take_third ops q host n (store.steals q host stored occupied) third

theorem push_all_content (store : QueueStore ops Stored content) (q : Queue) (tasks : List (Task × Choice))
    (stored : Stored q) (distinct : (tasks.map Prod.fst).Nodup) (fresh : ∀ task ∈ tasks, task.1 ∉ content q) :
    Stored (TaskQueue.pushAll ops q tasks) ∧
      content (TaskQueue.pushAll ops q tasks) = content q ∪ (tasks.map Prod.fst).toFinset := by
  induction tasks generalizing q with
  | nil => exact ⟨stored, by simp [TaskQueue.pushAll]⟩
  | cons task rest ih =>
      rw [List.map_cons, List.nodup_cons] at distinct
      obtain ⟨kept, grown⟩ := store.push q task.1 task.2 stored (fresh task List.mem_cons_self)
      have later : ∀ other ∈ rest, other.1 ∉ content (ops.push q task.1 task.2) := by
        intro other listed
        have different : other.1 ≠ task.1 := fun same => distinct.1 (same ▸ List.mem_map_of_mem listed)
        simp [grown, different, fresh other (List.mem_cons_of_mem task listed)]
      obtain ⟨last, whole⟩ := ih _ kept distinct.2 later
      refine ⟨last, whole.trans ?_⟩
      rw [grown, List.map_cons, List.toFinset_cons, Finset.insert_union, Finset.union_insert]

end QueueStore

namespace SimpleQueue

variable {Task Host : Type*} [DecidableEq Task]

theorem simple_store : QueueStore (ops : QueueOps (SimpleQueue Task) Task Host Unit) List.Nodup List.toFinset where
  push q task choice distinct fresh := by
    have absent : task ∉ q := by simpa using fresh
    refine ⟨distinct.append (List.nodup_singleton task) (by simpa using absent), ?_⟩
    ext other
    simp [ops, push]
  pop q host distinct := by
    cases q with
    | nil => exact ⟨List.nodup_nil, by simp [ops, pop], by simp [ops, pop]⟩
    | cons task rest =>
        obtain ⟨absent, distinct⟩ := List.nodup_cons.mp distinct
        refine ⟨distinct, by simp [ops, pop], ?_⟩
        ext other
        by_cases same : other = task
        · simp [ops, pop, same, absent]
        · simp [ops, pop, same]
  popAlt q host distinct := ⟨distinct, by simp [ops, popAlt], by simp [ops, popAlt]⟩
  clear q _ := ⟨List.nodup_nil, rfl⟩
  isEmpty q _ := by
    change List.isEmpty q = true ↔ _
    rw [List.isEmpty_iff, List.toFinset_eq_empty_iff]
  steals q host _ occupied fruitless := by
    cases q with
    | nil => simp [ops] at occupied
    | cons task rest => simp [ops, pop] at fruitless

end SimpleQueue

namespace HostQueue

variable {Task : Type*} [DecidableEq Task]

-- on_trace sets the locality of a task just before the push that reads it, so
-- each push comes with its own.
def placing : QueueOps (HostQueue Task) Task (Option Hostname) (List Hostname × Nat) where
  push queue j choice := queue.push (fun _ => choice.1) j choice.2
  pop queue host := queue.pop host
  popAlt queue host := queue.popAlt host
  clear := clear
  isEmpty := isEmpty

def Rostered (hosts : List Hostname) (queue : HostQueue Task) : Prop := ∃ roster, Represents hosts queue roster

omit [DecidableEq Task] in
theorem new_rostered (hosts : List Hostname) (some_host : hosts ≠ []) : Rostered hosts (new hosts : HostQueue Task) :=
  ⟨[], Represents.newly some_host⟩

theorem struck_queued (hosts : List Hostname) (queue left : HostQueue Task) (found : Option Task) (roster : Roster Task)
    (before : Represents hosts queue roster) (after : Represents hosts left (roster.filter fun p => p.job ∉ found)) :
    left.queued = queue.queued \ found.toFinset := by
  ext j
  rw [after.mem_queued, Finset.mem_sdiff, before.mem_queued]
  simp only [List.mem_map, List.mem_filter, decide_eq_true_eq, Option.mem_toFinset]
  constructor
  · rintro ⟨p, ⟨listed, left⟩, rfl⟩
    exact ⟨⟨p, listed, rfl⟩, left⟩
  · rintro ⟨⟨p, listed, rfl⟩, left⟩
    exact ⟨p, ⟨listed, left⟩, rfl⟩

theorem pop_queued (hosts : List Hostname) (queue : HostQueue Task) (host : Option Hostname) (rostered : Rostered hosts queue) :
    Rostered hosts (queue.pop host).2 ∧ (queue.pop host).1.toFinset ⊆ queue.queued ∧
      (queue.pop host).2.queued = queue.queued \ (queue.pop host).1.toFinset := by
  obtain ⟨roster, represents⟩ := rostered
  obtain ⟨first, after⟩ := represents.pop host
  refine ⟨⟨_, after⟩, fun j found => ?_, struck_queued hosts queue _ _ roster represents after⟩
  rw [Option.mem_toFinset, first, Option.mem_map] at found
  obtain ⟨p, listed, rfl⟩ := found
  exact (represents.mem_queued p.job).mpr (List.mem_map_of_mem (List.mem_of_find?_eq_some listed))

theorem pop_alt_queued (hosts : List Hostname) (queue : HostQueue Task) (host : Option Hostname)
    (rostered : Rostered hosts queue) : Rostered hosts (queue.popAlt host).2 ∧ (queue.popAlt host).1.toFinset ⊆ queue.queued ∧
      (queue.popAlt host).2.queued = queue.queued \ (queue.popAlt host).1.toFinset := by
  obtain ⟨roster, represents⟩ := rostered
  obtain ⟨throughput, key, faithful, -, popped⟩ := queue.pop_alt_chosen host represents.sound.throughput
  rw [popped]
  exact pop_queued hosts { queue with throughput := throughput } key ⟨roster, represents.remembering throughput faithful⟩

theorem host_store (hosts : List Hostname) :
    QueueStore (placing : QueueOps (HostQueue Task) Task _ _) (Rostered hosts) queued where
  push queue j choice rostered fresh := by
    obtain ⟨roster, represents⟩ := rostered
    have pushed := represents.push j choice.1 choice.2 fresh
    refine ⟨⟨_, pushed⟩, ?_⟩
    ext other
    change other ∈ (queue.push (fun _ => choice.1) j choice.2).queued ↔ _
    rw [pushed.mem_queued, Finset.mem_insert, represents.mem_queued, List.map_append, List.mem_append]
    simp [posting, or_comm]
  pop := pop_queued hosts
  popAlt := pop_alt_queued hosts
  clear queue rostered := by
    obtain ⟨roster, represents⟩ := rostered
    refine ⟨⟨[], represents.clear⟩, ?_⟩
    ext j
    simp [placing, represents.clear.mem_queued]
  isEmpty queue rostered := by
    obtain ⟨roster, represents⟩ := rostered
    change queue.isEmpty = true ↔ _
    rw [is_empty_iff, Finset.eq_empty_iff_forall_notMem]
    constructor
    · intro vacant j listed
      obtain ⟨h, known, stands⟩ := queue.mem_queued j |>.mp listed
      simp [vacant h known] at stands
    · intro vacant h known
      refine List.eq_nil_iff_forall_not_mem.mpr fun j stands => ?_
      exact vacant j ((queue.mem_queued j).mpr ⟨h, known, stands⟩)
  steals queue host rostered := by
    obtain ⟨roster, represents⟩ := rostered
    exact (ops_laws (fun _ => []) hosts).steals queue host represents.sound

end HostQueue

end Pwrake
