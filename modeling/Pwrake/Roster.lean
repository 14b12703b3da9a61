import Pwrake.QueueSession

set_option autoImplicit false

namespace Pwrake

-- What a HostQueue is for: the jobs that wait, in the order of their pushes,
-- each with the hosts that may take it.
abbrev Roster (Task : Type*) := List (Posting Task)

namespace Roster

variable {Task : Type*}

def copies (key : Option Hostname) (p : Posting Task) : List Task := List.replicate ((p.hosts.map some).count key) p.job

def listOf (roster : Roster Task) (key : Option Hostname) : List Task := roster.flatMap (copies key)

theorem mem_list_of (roster : Roster Task) (key : Option Hostname) (j : Task) :
    j ∈ roster.listOf key ↔ ∃ p ∈ roster, p.job = j ∧ key ∈ p.hosts.map some := by
  simp only [listOf, copies, List.mem_flatMap, List.mem_replicate, ne_eq, List.count_eq_zero, not_not]
  constructor
  · rintro ⟨p, member, listed, rfl⟩
    exact ⟨p, member, rfl, listed⟩
  · rintro ⟨p, member, rfl, listed⟩
    exact ⟨p, member, listed, rfl⟩

variable [DecidableEq Task]

theorem filter_copies (j : Task) (key : Option Hostname) (p : Posting Task) :
    (copies key p).filter (· ≠ j) = if p.job ≠ j then copies key p else [] := by
  by_cases same : p.job = j
  · simp [copies, same]
  · simp [copies, same]

theorem list_of_filter (roster : Roster Task) (key : Option Hostname) (j : Task) :
    (roster.listOf key).filter (· ≠ j) = listOf (roster.filter fun p => p.job ≠ j) key := by
  induction roster with
  | nil => rfl
  | cons p rest ih =>
      have split : listOf (p :: rest) key = copies key p ++ listOf rest key := rfl
      rw [split, List.filter_append, filter_copies, ih]
      by_cases same : p.job = j
      · simp [same]
      · rw [if_pos same, List.filter_cons_of_pos (by simpa using same)]
        rfl

theorem list_of_count (roster : Roster Task) (distinct : (roster.map Posting.job).Nodup) (key : Option Hostname)
    (p : Posting Task) (member : p ∈ roster) : (roster.listOf key).count p.job = (p.hosts.map some).count key := by
  induction roster with
  | nil => cases member
  | cons first rest ih =>
      have split : listOf (first :: rest) key = copies key first ++ listOf rest key := rfl
      rw [List.map_cons, List.nodup_cons] at distinct
      rw [split, List.count_append]
      rcases List.mem_cons.mp member with rfl | later
      · have absent : p.job ∉ listOf rest key := by
          intro listed
          obtain ⟨other, inside, same, -⟩ := (mem_list_of rest key p.job).mp listed
          exact distinct.1 (same ▸ List.mem_map_of_mem inside)
        simp [copies, List.count_eq_zero.mpr absent]
      · have different : first.job ≠ p.job := fun same => distinct.1 (same ▸ List.mem_map_of_mem later)
        rw [ih distinct.2 later]
        simp [copies, List.count_replicate, different]

-- The head of a list is the first job on the roster that names its host.
omit [DecidableEq Task] in
theorem list_of_head (roster : Roster Task) (key : Option Hostname) :
    (roster.listOf key).head? = (roster.find? fun p => key ∈ p.hosts.map some).map Posting.job := by
  induction roster with
  | nil => rfl
  | cons p rest ih =>
      have split : listOf (p :: rest) key = copies key p ++ listOf rest key := rfl
      rw [split]
      by_cases listed : key ∈ p.hosts.map some
      · obtain ⟨n, positive⟩ := Nat.exists_eq_succ_of_ne_zero (List.count_pos_iff.mpr listed).ne'
        have head : copies key p = p.job :: List.replicate n p.job := by rw [copies, positive, List.replicate_succ]
        rw [head, List.find?_cons_of_pos (by simpa using listed)]
        rfl
      · have none : copies key p = [] := by rw [copies, List.count_eq_zero.mpr listed, List.replicate_zero]
        rw [none, List.nil_append, List.find?_cons_of_neg (by simpa using listed), ih]

end Roster

-- The lists hold the roster, and every copy can be found again by a pop.
structure Represents {Task : Type*} (hosts : List Hostname) (queue : HostQueue Task) (roster : Roster Task) : Prop where
  sound : HostQueue.Sound hosts queue
  lists : ∀ key, queue.q key = roster.listOf key
  distinct : (roster.map Posting.job).Nodup
  placed : ∀ p ∈ roster, p.hosts ≠ [] ∧ (∀ h ∈ p.hosts, h ∈ hosts) ∧
    ((∀ h ∈ p.hosts, h ∈ queue.assigned p.job) ∨ p.hosts.length = 1)

namespace Represents

variable {Task : Type*} [DecidableEq Task] {hosts : List Hostname} {queue : HostQueue Task} {roster : Roster Task}

omit [DecidableEq Task] in
theorem blank (queue : HostQueue Task) (sound : HostQueue.Sound hosts queue) (vacant : ∀ key, queue.q key = []) :
    Represents hosts queue [] := ⟨sound, vacant, List.nodup_nil, fun _ member => absurd member List.not_mem_nil⟩

omit [DecidableEq Task] in
theorem newly (some_host : hosts ≠ []) : Represents hosts (.new hosts : HostQueue Task) [] :=
  blank _ (HostQueue.new_sound hosts some_host) fun _ => rfl

theorem mem_queued (represents : Represents hosts queue roster) (j : Task) :
    j ∈ queue.queued ↔ j ∈ roster.map Posting.job := by
  rw [HostQueue.mem_queued]
  constructor
  · rintro ⟨h, -, member⟩
    obtain ⟨p, inside, rfl, -⟩ := (Roster.mem_list_of roster (some h) j).mp (represents.lists _ ▸ member)
    exact List.mem_map_of_mem inside
  · intro member
    obtain ⟨p, inside, rfl⟩ := List.mem_map.mp member
    obtain ⟨nonempty, known, -⟩ := represents.placed p inside
    obtain ⟨h, stands⟩ := List.exists_mem_of_ne_nil _ nonempty
    refine ⟨h, represents.sound.own ▸ known h stands, represents.lists _ ▸ ?_⟩
    exact (Roster.mem_list_of roster (some h) p.job).mpr ⟨p, inside, rfl, List.mem_map_of_mem stands⟩

theorem card_queued (represents : Represents hosts queue roster) : queue.queued.card = roster.length := by
  have same : queue.queued = (roster.map Posting.job).toFinset := by
    ext j
    rw [represents.mem_queued, List.mem_toFinset]
  rw [same, List.toFinset_card_of_nodup represents.distinct, List.length_map]

theorem push (represents : Represents hosts queue roster) (j : Task) (locality : List Hostname) (r : Nat)
    (unqueued : j ∉ queue.queued) :
    Represents hosts (queue.push (fun _ => locality) j r) (roster ++ [queue.posting j locality r]) := by
  have sound := represents.sound
  have some_host : queue.hosts ≠ [] := sound.own ▸ sound.some_host
  have absent : j ∉ roster.map Posting.job := fun member => unqueued ((represents.mem_queued j).mpr member)
  have pushed := queue.push_posting (fun _ => locality) some_host j r
  obtain ⟨nonempty, known, source⟩ := queue.posting_hosts some_host j locality r
  refine ⟨HostQueue.push_sound (fun _ => locality) hosts queue j r sound, fun key => ?_, ?_, fun p member => ?_⟩
  · rw [pushed, Roster.listOf, List.flatMap_append]
    simp only [represents.lists key, List.flatMap_singleton]
    rfl
  · rw [List.map_append]
    exact represents.distinct.append (List.nodup_singleton _) (by simpa [HostQueue.posting] using absent)
  · rw [pushed]
    rcases List.mem_append.mp member with earlier | new
    · obtain ⟨stands, inside, found⟩ := represents.placed p earlier
      have different : p.job ≠ j := fun same => absent (same ▸ List.mem_map_of_mem earlier)
      refine ⟨stands, inside, ?_⟩
      simpa only [Function.update_of_ne different] using found
    · rw [List.mem_singleton.mp new]
      refine ⟨nonempty, fun h listed => sound.own ▸ known h listed, ?_⟩
      rcases source with same | ⟨-, single⟩
      · refine .inl fun h listed => ?_
        simp only [HostQueue.posting, Function.update_self]
        exact List.mem_append_right _ (same ▸ listed)
      · exact .inr single

theorem removable (represents : Represents hosts queue roster) (p : Posting Task) (member : p ∈ roster) :
    queue.Removable p.job := by
  have counts : ∀ key, (queue.q key).count p.job = (p.hosts.map some).count key := by
    intro key
    rw [represents.lists]
    exact Roster.list_of_count roster represents.distinct key p member
  obtain ⟨-, -, assigned | single⟩ := represents.placed p member
  · refine .inl fun key listed => ?_
    have placed := List.count_pos_iff.mp (counts key ▸ List.count_pos_iff.mpr listed)
    obtain ⟨h, stands, rfl⟩ := List.mem_map.mp placed
    exact List.mem_map_of_mem (assigned h stands)
  · obtain ⟨drawn, only⟩ := List.length_eq_one_iff.mp single
    refine .inr ⟨some drawn, fun key => ?_⟩
    rw [counts key, only, List.map_singleton, List.count_singleton]
    by_cases same : key = some drawn
    · simp [same]
    · simp [same, Ne.symm same]

-- A pop returns the first job that names the host and strikes it off the
-- roster.
theorem pop (represents : Represents hosts queue roster) (host : Option Hostname) :
    (queue.pop host).1 = (roster.find? fun p => host ∈ p.hosts.map some).map Posting.job ∧
      Represents hosts (queue.pop host).2 (roster.filter fun p => p.job ∉ (queue.pop host).1) := by
  have sound := HostQueue.pop_sound hosts queue host represents.sound
  have head := Roster.list_of_head roster host
  rw [← represents.lists] at head
  rcases queue.pop_cases host with ⟨vacant, popped⟩ | ⟨j, rest, -, content, popped⟩
  · have nothing : queue.q host = [] := by
      rcases vacant with unknown | nothing
      · by_contra content
        obtain ⟨h, known, rfl⟩ := represents.sound.known host content
        exact unknown ((queue.mem_keys _).mpr (.inr ⟨h, represents.sound.own ▸ known, rfl⟩))
      · exact nothing
    rw [nothing, List.head?_nil] at head
    rw [popped]
    refine ⟨head, ?_⟩
    simpa using represents
  · rw [content, List.head?_cons] at head
    have listed : j ∈ roster.listOf host := by
      rw [← represents.lists, content]
      exact List.mem_cons_self
    obtain ⟨p, member, rfl, -⟩ := (Roster.mem_list_of roster host j).mp listed
    have gathered := queue.removable_gathered p.job host (by simp [content]) (represents.removable p member)
    have kept : (roster.filter fun q => q.job ∉ (queue.pop host).1) = roster.filter fun q => q.job ≠ p.job := by
      simp [popped, eq_comm]
    rw [popped] at sound
    rw [kept, popped]
    refine ⟨head, sound, fun key => ?_, ?_, fun q inside => ?_⟩
    · exact (queue.strike_filter host p.job rest content gathered key).trans
        (represents.lists key ▸ Roster.list_of_filter roster key p.job)
    · exact represents.distinct.sublist (List.filter_sublist.map _)
    · exact represents.placed q (List.mem_filter.mp inside).1

omit [DecidableEq Task] in
theorem remembering (represents : Represents hosts queue roster) (throughput : Throughput)
    (faithful : throughput.Faithful none) : Represents hosts { queue with throughput := throughput } roster :=
  ⟨⟨represents.sound.some_host, represents.sound.own, faithful, represents.sound.known⟩, represents.lists, represents.distinct,
    represents.placed⟩

theorem pop_alt (represents : Represents hosts queue roster) (host : Option Hostname) :
    Represents hosts (queue.popAlt host).2 (roster.filter fun p => p.job ∉ (queue.popAlt host).1) := by
  obtain ⟨throughput, key, faithful, -, popped⟩ := queue.pop_alt_chosen host represents.sound.throughput
  rw [popped]
  exact ((represents.remembering throughput faithful).pop key).2

omit [DecidableEq Task] in
theorem clear (represents : Represents hosts queue roster) : Represents hosts queue.clear [] :=
  blank _ (queue.clear_sound hosts represents.sound) (queue.clear_blank hosts represents.sound)

omit [DecidableEq Task] in
theorem ask (represents : Represents hosts queue roster) (query : Throughput.Query) :
    Represents hosts (queue.ask query) roster :=
  represents.remembering _ (queue.ask_sound hosts query represents.sound).throughput

end Represents

end Pwrake
