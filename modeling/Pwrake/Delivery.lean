import Pwrake.HostQueue
import Pwrake.Lib.Machine
import Mathlib.Logic.ExistsUnique

set_option autoImplicit false

namespace Pwrake

-- A HostQueue with what went in and what came out of it, in order.
structure Delivery (Task : Type*) where
  queue : HostQueue Task
  pushed : List Task
  returned : List Task

inductive DeliveryLabel (Task : Type*) where
  | push (j : Task) (r : Nat)
  | pop (host : Option Hostname)
  | popAlt (host : Option Hostname)
deriving DecidableEq, Repr

namespace Delivery

variable {Task : Type*}

def init (hosts : List Hostname) : Delivery Task := ⟨.new hosts, [], []⟩

def Fresh (s : Delivery Task) : DeliveryLabel Task → Prop
  | .push j _ => j ∉ s.pushed
  | .pop _ | .popAlt _ => True

variable [DecidableEq Task]

instance (s : Delivery Task) (label : DeliveryLabel Task) : Decidable (Fresh s label) := by
  cases label <;> unfold Fresh <;> infer_instance

def receive (s : Delivery Task) (result : Option Task × HostQueue Task) : Delivery Task :=
  { s with queue := result.2, returned := s.returned ++ result.1.toList }

def step (locality : Task → List Hostname) (s : Delivery Task) : DeliveryLabel Task → Option (Delivery Task)
  | .push j r => some { s with queue := s.queue.push locality j r, pushed := s.pushed ++ [j] }
  | .pop host => some (s.receive (s.queue.pop host))
  | .popAlt host => some (s.receive (s.queue.popAlt host))

-- The lists a job stands in, with multiplicity.
def Placed (queue : HostQueue Task) (j : Task) (places : List Hostname) : Prop :=
  ∀ key, (queue.q key).count j = (places.map some).count key

-- Where a job has to stand: with its assigned hosts, or once with a host that
-- was drawn for it.
def Assigned (queue : HostQueue Task) (j : Task) (places : List Hostname) : Prop :=
  places ≠ [] ∧ (∀ h ∈ places, h ∈ queue.hosts) ∧
    (queue.assigned j = places ∨ queue.assigned j = [] ∧ places.length = 1)

structure Accounted (locality : Task → List Hostname) (hosts : List Hostname) (s : Delivery Task) : Prop where
  hosts : s.queue.hosts = hosts
  throughput : s.queue.throughput.Faithful none
  once : s.returned.Nodup
  delivered : ∀ j ∈ s.returned, j ∈ s.pushed
  assigned : ∀ j, s.queue.assigned j = if j ∈ s.pushed then s.queue.accepted (locality j) else []
  outside : ∀ j, j ∉ s.pushed ∨ j ∈ s.returned → Placed s.queue j []
  inside : ∀ j ∈ s.pushed, j ∉ s.returned → ∃ places, Placed s.queue j places ∧ Assigned s.queue j places

theorem accounted_init (locality : Task → List Hostname) (hosts : List Hostname) :
    Accounted locality hosts (init hosts : Delivery Task) where
  hosts := rfl
  throughput := Throughput.new_faithful none
  once := List.nodup_nil
  delivered := fun _ member => absurd member List.not_mem_nil
  assigned := fun _ => rfl
  outside := fun _ _ _ => rfl
  inside := fun _ member => absurd member List.not_mem_nil

variable {locality : Task → List Hostname} {hosts : List Hostname}

theorem accounted_push (some_host : hosts ≠ []) (s : Delivery Task) (inv : Accounted locality hosts s) (j : Task)
    (r : Nat) (fresh : j ∉ s.pushed) :
    Accounted locality hosts { s with queue := s.queue.push locality j r, pushed := s.pushed ++ [j] } := by
  obtain ⟨places, nonempty, known, source, pushed⟩ :=
    HostQueue.push_eq locality s.queue (inv.hosts ▸ some_host) j r
  rw [pushed]
  have unassigned : s.queue.assigned j = [] := by rw [inv.assigned j, if_neg fresh]
  have unreturned : j ∉ s.returned := fun member => fresh (inv.delivered j member)
  have elsewhere : ∀ i, i ≠ j → ∀ n key, (s.queue.q key ++ List.replicate n j).count i = (s.queue.q key).count i := by
    intro i different n key
    simp [List.count_replicate, Ne.symm different]
  refine ⟨inv.hosts, inv.throughput, inv.once, ?_, ?_, ?_, ?_⟩
  · intro i member
    exact List.mem_append_left _ (inv.delivered i member)
  · intro i
    by_cases same : i = j
    · subst same
      simp only [Function.update_self, unassigned, List.nil_append, List.mem_append, List.mem_singleton, or_true, if_true]
      rfl
    · simp only [Function.update_of_ne same, inv.assigned i, List.mem_append, List.mem_singleton, same, or_false]
      rfl
  · intro i outside key
    have different : i ≠ j := by
      rintro rfl
      rcases outside with absent | member
      · simp at absent
      · exact unreturned member
    have before : i ∉ s.pushed ∨ i ∈ s.returned := by simpa [different] using outside
    rw [elsewhere i different]
    exact inv.outside i before key
  · intro i member waiting
    by_cases same : i = j
    · subst same
      refine ⟨places, ?_, nonempty, known, ?_⟩
      · intro key
        have absent := inv.outside i (.inl fresh) key
        simp only [List.count_append, absent, List.count_replicate_self, List.map_nil, List.count_nil, Nat.zero_add]
      · simpa only [Function.update_self, unassigned, List.nil_append] using source
    · obtain ⟨stands, placed, assigned⟩ := inv.inside i (by simpa [same] using member) waiting
      refine ⟨stands, ?_, assigned.1, assigned.2.1, ?_⟩
      · intro key
        rw [elsewhere i same]
        exact placed key
      · simpa only [Function.update_of_ne same] using assigned.2.2

-- An accounted job is gathered at every host that holds it.
theorem placed_gathered (queue : HostQueue Task) (host : Option Hostname) (j : Task) (here : j ∈ queue.q host)
    (places : List Hostname) (placed : Placed queue j places) (assigned : Assigned queue j places) :
    queue.Gathered j host := by
  apply HostQueue.removable_gathered queue j host here
  rcases assigned.2.2 with listed | ⟨-, single⟩
  · refine .inl fun key member => ?_
    rw [listed]
    exact List.count_pos_iff.mp (placed key ▸ List.count_pos_iff.mpr member)
  · obtain ⟨drawn, rfl⟩ := List.length_eq_one_iff.mp single
    refine .inr ⟨some drawn, fun key => ?_⟩
    rw [placed key, List.map_singleton, List.count_singleton]
    by_cases same : key = some drawn
    · simp [same]
    · simp [same, Ne.symm same]

theorem accounted_pop (s : Delivery Task) (inv : Accounted locality hosts s) (host : Option Hostname) :
    Accounted locality hosts (s.receive (s.queue.pop host)) := by
  rcases s.queue.pop_cases host with ⟨-, popped⟩ | ⟨j, rest, -, content, popped⟩
  · simpa only [receive, popped, Option.toList_none, List.append_nil] using inv
  · rw [popped]
    have listed : (s.queue.q host).count j ≠ 0 := by simp [content]
    have waiting : j ∈ s.pushed ∧ j ∉ s.returned := by
      by_contra settled
      have outside : j ∉ s.pushed ∨ j ∈ s.returned := by tauto
      exact listed (inv.outside j outside host)
    obtain ⟨places, placed, assigned⟩ := inv.inside j waiting.1 waiting.2
    have elsewhere := HostQueue.strike_count s.queue host j
    have gathered := placed_gathered s.queue host j (by simp [content]) places placed assigned
    have gone := fun key => List.count_eq_zero.mpr ((HostQueue.strike_gone_iff s.queue host j rest content).mpr gathered key)
    refine ⟨inv.hosts, inv.throughput, ?_, ?_, inv.assigned, ?_, ?_⟩
    · exact inv.once.append (List.nodup_singleton j) (by simpa using waiting.2)
    · intro i member
      rcases List.mem_append.mp member with before | now
      · exact inv.delivered i before
      · have same : i = j := by simpa using now
        exact same ▸ waiting.1
    · intro i outside key
      by_cases same : i = j
      · subst same
        exact gone key
      · have before : i ∉ s.pushed ∨ i ∈ s.returned := by simpa [receive, same] using outside
        exact (elsewhere i rest content same key).trans (inv.outside i before key)
    · intro i member absent
      have split : i ∉ s.returned ∧ i ≠ j := by simpa [receive] using absent
      obtain ⟨stands, held, from_hosts⟩ := inv.inside i member split.1
      exact ⟨stands, fun key => (elsewhere i rest content split.2 key).trans (held key), from_hosts⟩

theorem accounted_step (some_host : hosts ≠ []) (s next : Delivery Task) (label : DeliveryLabel Task)
    (inv : Accounted locality hosts s) (fresh : Fresh s label) (taken : s.step locality label = some next) :
    Accounted locality hosts next := by
  cases label with
  | push j r =>
      cases taken
      exact accounted_push some_host s inv j r fresh
  | pop host =>
      cases taken
      exact accounted_pop s inv host
  | popAlt host =>
      cases taken
      obtain ⟨throughput, key, faithful, popped, -⟩ := s.queue.pop_alt_eq host inv.throughput
      rw [popped]
      have weighed : Accounted locality hosts { s with queue := { s.queue with throughput := throughput } } :=
        ⟨inv.hosts, faithful, inv.once, inv.delivered, inv.assigned, inv.outside, inv.inside⟩
      exact accounted_pop _ weighed key

theorem accounted_run (some_host : hosts ≠ []) (s : Delivery Task)
    (run : Machine.Run (step locality) Fresh (init hosts) s) : Accounted locality hosts s :=
  Machine.run_invariant (Accounted locality hosts) (init hosts) (accounted_init locality hosts)
    (fun before after label _ inv fresh taken => accounted_step some_host before after label inv fresh taken) s run

theorem placed_mem (queue : HostQueue Task) (j : Task) (places : List Hostname) (key : Option Hostname)
    (placed : Placed queue j places) : j ∈ queue.q key ↔ key ∈ places.map some := by
  rw [← List.count_pos_iff, placed key, List.count_pos_iff]

theorem accounted_assigned (s : Delivery Task) (inv : Accounted locality hosts s) (j : Task) (member : j ∈ s.pushed)
    (h : Hostname) : h ∈ s.queue.assigned j ↔ h ∈ locality j ∧ h ∈ hosts := by
  simp [inv.assigned j, member, HostQueue.accepted, inv.hosts]

theorem accounted_somewhere (s : Delivery Task) (inv : Accounted locality hosts s) (j : Task) (member : j ∈ s.pushed)
    (waiting : j ∉ s.returned) : ∃ h ∈ hosts, j ∈ s.queue.q (some h) := by
  obtain ⟨places, placed, nonempty, known, -⟩ := inv.inside j member waiting
  obtain ⟨h, stands⟩ := List.exists_mem_of_ne_nil places nonempty
  exact ⟨h, inv.hosts ▸ known h stands, (placed_mem s.queue j places _ placed).mpr (List.mem_map_of_mem stands)⟩

theorem accounted_absent (s : Delivery Task) (inv : Accounted locality hosts s) (j : Task)
    (outside : j ∉ s.pushed ∨ j ∈ s.returned) (key : Option Hostname) : j ∉ s.queue.q key := by
  intro member
  simpa using (placed_mem s.queue j [] key (inv.outside j outside)).mp member

-- A job without a known host is in the one list that was drawn for it.
theorem accounted_drawn (s : Delivery Task) (inv : Accounted locality hosts s) (j : Task) (member : j ∈ s.pushed)
    (waiting : j ∉ s.returned) (unknown : ∀ h ∈ locality j, h ∉ hosts) : ∃! key, j ∈ s.queue.q key := by
  obtain ⟨places, placed, nonempty, -, source⟩ := inv.inside j member waiting
  have unlisted : s.queue.assigned j = [] := by
    apply List.eq_nil_iff_forall_not_mem.mpr
    intro h listed
    obtain ⟨wanted, known⟩ := (accounted_assigned s inv j member h).mp listed
    exact unknown h wanted known
  have single : places.length = 1 := by
    rcases source with same | ⟨-, single⟩
    · exact absurd (same.symm.trans unlisted) nonempty
    · exact single
  obtain ⟨drawn, rfl⟩ := List.length_eq_one_iff.mp single
  refine ⟨some drawn, (placed_mem s.queue j _ _ placed).mpr (by simp), ?_⟩
  intro key queued
  simpa using (placed_mem s.queue j _ key placed).mp queued

theorem jobs_delivered_once (locality : Task → List Hostname) (hosts : List Hostname) (some_host : hosts ≠ [])
    (s : Delivery Task) (run : Machine.Run (step locality) Fresh (init hosts) s) :
    s.returned.Nodup ∧ (∀ j ∈ s.returned, j ∈ s.pushed) ∧
    (∀ j ∈ s.pushed, j ∉ s.returned →
      (∃ h ∈ hosts, j ∈ s.queue.q (some h)) ∧
      (∀ h, h ∈ s.queue.assigned j ↔ h ∈ locality j ∧ h ∈ hosts) ∧
      ((∃ h ∈ locality j, h ∈ hosts) → ∀ key, j ∈ s.queue.q key ↔ ∃ h ∈ s.queue.assigned j, key = some h) ∧
      ((∀ h ∈ locality j, h ∉ hosts) → ∃! key, j ∈ s.queue.q key)) ∧
    (∀ j ∈ s.returned, ∀ key, j ∉ s.queue.q key) ∧
    (s.queue.isEmpty = true ↔ ∀ j ∈ s.pushed, j ∈ s.returned) := by
  have inv := accounted_run some_host s run
  refine ⟨inv.once, inv.delivered, ?_, fun j member => accounted_absent s inv j (.inr member), ?_⟩
  · intro j member waiting
    refine ⟨accounted_somewhere s inv j member waiting, accounted_assigned s inv j member, ?_,
      accounted_drawn s inv j member waiting⟩
    rintro ⟨h, wanted, known⟩ key
    obtain ⟨places, placed, -, -, source⟩ := inv.inside j member waiting
    have nonempty : h ∈ s.queue.assigned j := (accounted_assigned s inv j member h).mpr ⟨wanted, known⟩
    rcases source with same | ⟨unlisted, -⟩
    · rw [placed_mem s.queue j places key placed, same]
      simp [eq_comm]
    · simp [unlisted] at nonempty
  · rw [HostQueue.is_empty_iff, inv.hosts]
    constructor
    · intro vacant j member
      by_contra waiting
      obtain ⟨h, known, queued⟩ := accounted_somewhere s inv j member waiting
      simp [vacant h known] at queued
    · intro drained h known
      apply List.eq_nil_iff_forall_not_mem.mpr
      intro j
      apply accounted_absent s inv j
      by_cases member : j ∈ s.pushed
      · exact .inr (drained j member)
      · exact .inl member

-- A job at home on both hosts is stolen from one of them, and the job without
-- a known host stays where it was drawn.
theorem stolen_job_leaves_both_hosts :
    ∃ s : Delivery Nat, s.returned = [0] ∧ 1 ∉ s.returned ∧ (∃! key, 1 ∈ s.queue.q key) ∧ ∀ key, 0 ∉ s.queue.q key := by
  obtain ⟨s, run, returned, pushed⟩ := Machine.run_of_exec
    (step fun job => if job = 0 then [['a'], ['b'], ['a']] else [['z']]) Fresh
    (fun s : Delivery Nat => s.returned = [0] ∧ 1 ∈ s.pushed)
    [.push 0 0, .push 1 1, .pop none, .popAlt (some ['c'])] (init [['a'], ['b']]) (by decide +kernel)
  have waiting : 1 ∉ s.returned := by simp [returned]
  obtain ⟨-, -, queued, gone, -⟩ := jobs_delivered_once _ [['a'], ['b']] (by simp) s run
  obtain ⟨-, -, -, drawn⟩ := queued 1 pushed waiting
  exact ⟨s, returned, waiting, drawn (by decide), gone 0 (by simp [returned])⟩

end Delivery

end Pwrake
