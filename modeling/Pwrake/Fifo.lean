import Pwrake.Roster

set_option autoImplicit false

namespace Pwrake

namespace QueueSession

variable {Task : Type*} [DecidableEq Task] {hosts : List Hostname}

-- The pushed jobs that were not returned yet, in the order of their pushes.
def outstanding (s : QueueSession Task) : Roster Task := s.history.filter fun p => p.job ∉ s.returned

structure Ordered (hosts : List Hostname) (s : QueueSession Task) : Prop where
  represents : Represents hosts s.queue s.outstanding
  distinct : (s.history.map Posting.job).Nodup
  delivered : ∀ j ∈ s.returned, j ∈ s.history.map Posting.job

theorem ordered_receive (s : QueueSession Task) (ordered : Ordered hosts s) (result : Option Task × HostQueue Task)
    (found : ∀ j ∈ result.1, j ∈ s.queue.queued)
    (represents : Represents hosts result.2 (s.outstanding.filter fun p => p.job ∉ result.1)) : Ordered hosts (s.receive result) := by
  refine ⟨?_, ordered.distinct, fun j member => ?_⟩
  · have split : (s.receive result).outstanding = s.outstanding.filter fun p => p.job ∉ result.1 := by
      rw [outstanding, outstanding, List.filter_filter]
      refine List.filter_congr fun p _ => ?_
      simp [receive, not_or, Bool.and_comm]
    rw [split]
    exact represents
  · rcases List.mem_append.mp member with earlier | now
    · exact ordered.delivered j earlier
    · have listed := (ordered.represents.mem_queued j).mp (found j (by simpa using now))
      exact (List.filter_sublist.map Posting.job).subset listed

theorem popped_queued (queue : HostQueue Task) (sound : HostQueue.Sound hosts queue) (host : Option Hostname) :
    ∀ j ∈ (queue.pop host).1, j ∈ queue.queued := by
  intro j member
  rcases queue.pop_cases host with ⟨-, popped⟩ | ⟨i, rest, -, content, popped⟩
  · simp [popped] at member
  · have same : i = j := by simpa [popped] using member
    exact (queued_iff queue sound j).mpr ⟨host, by simp [content, same]⟩

theorem stolen_queued (queue : HostQueue Task) (sound : HostQueue.Sound hosts queue) (host : Option Hostname) :
    ∀ j ∈ (queue.popAlt host).1, j ∈ queue.queued := by
  obtain ⟨throughput, key, faithful, -, popped⟩ := queue.pop_alt_chosen host sound.throughput
  rw [popped]
  exact popped_queued { queue with throughput := throughput } ⟨sound.some_host, sound.own, faithful, sound.known⟩ key

theorem ordered_step (s next : QueueSession Task) (label : QueueLabel Task) (ordered : Ordered hosts s)
    (fresh : Fresh s label) (taken : s.step label = some next) : Ordered hosts next := by
  have represents := ordered.represents
  cases label with
  | push j locality r =>
      cases taken
      have unseen : j ∉ s.history.map Posting.job := fresh
      have unreturned : j ∉ s.returned := fun member => unseen (ordered.delivered j member)
      have unqueued : j ∉ s.queue.queued := by
        intro member
        exact unseen ((List.filter_sublist.map Posting.job).subset ((represents.mem_queued j).mp member))
      refine ⟨?_, ?_, fun i member => ?_⟩
      · have grown : (s.history ++ [s.queue.posting j locality r]).filter (fun p => p.job ∉ s.returned) =
            s.outstanding ++ [s.queue.posting j locality r] := by
          rw [List.filter_append]
          simp [outstanding, HostQueue.posting, unreturned]
        rw [outstanding, grown]
        exact represents.push j locality r unqueued
      · rw [List.map_append]
        exact ordered.distinct.append (List.nodup_singleton _) (by simpa [HostQueue.posting] using unseen)
      · rw [List.map_append]
        exact List.mem_append_left _ (ordered.delivered i member)
  | pop host =>
      cases taken
      exact ordered_receive s ordered _ (popped_queued s.queue represents.sound host) (represents.pop host).2
  | popAlt host =>
      cases taken
      exact ordered_receive s ordered _ (stolen_queued s.queue represents.sound host) (represents.pop_alt host)
  | clear => exact fresh.elim
  | ask query =>
      cases taken
      exact ⟨represents.ask query, ordered.distinct, ordered.delivered⟩

theorem ordered_run (some_host : hosts ≠ []) (s : QueueSession Task) (run : Machine.Run step Fresh (init hosts) s) :
    Ordered hosts s := by
  have start : Ordered hosts (init hosts : QueueSession Task) :=
    ⟨Represents.newly some_host, List.nodup_nil, fun _ member => by cases member⟩
  exact Machine.run_invariant (Ordered hosts) (init hosts) start
    (fun before after label _ ordered fresh taken => ordered_step before after label ordered fresh taken) s run

-- The list of a host holds its outstanding jobs in the order of their pushes,
-- and its pop returns the first of them.
theorem hosts_first_in_first_out (hosts : List Hostname) (some_host : hosts ≠ []) (s : QueueSession Task)
    (run : Machine.Run step Fresh (init hosts) s) (h : Hostname) :
    s.queue.q (some h) = s.outstanding.flatMap (fun p => List.replicate (p.hosts.count h) p.job) ∧
      (s.queue.pop (some h)).1 = (s.outstanding.find? fun p => h ∈ p.hosts).map Posting.job := by
  have represents := (ordered_run some_host s run).represents
  constructor
  · rw [represents.lists, Roster.listOf]
    congr 1
    funext p
    rw [Roster.copies, List.count_map_of_injective _ some (Option.some_injective _)]
  · rw [(represents.pop (some h)).1]
    congr 2
    funext p
    simp

-- Host b takes the middle job of a's list, and a goes on in order.
theorem stolen_from_the_middle :
    ∃ s : QueueSession Nat, s.returned = [1] ∧ (s.queue.pop (some ['a'])).1 = (s.outstanding.find? fun p => ['a'] ∈ p.hosts).map
      Posting.job ∧ s.outstanding.map Posting.job = [0, 2] := by
  obtain ⟨s, run, returned, waiting⟩ := Machine.run_of_exec step Fresh
    (fun s : QueueSession Nat => s.returned = [1] ∧ s.outstanding.map Posting.job = [0, 2])
    [.push 0 [['a']] 0, .push 1 [['a'], ['b'], ['a']] 0, .push 2 [['z']] 0, .pop (some ['b'])] (init [['a'], ['b']])
    (by decide +kernel)
  exact ⟨s, returned, (hosts_first_in_first_out [['a'], ['b']] (by simp) s run ['a']).2, waiting⟩

end QueueSession

end Pwrake
