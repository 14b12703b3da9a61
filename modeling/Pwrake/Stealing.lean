import Pwrake.QueueSession
import Pwrake.Lib.FirstOccurrence

set_option autoImplicit false

namespace Pwrake

namespace HostQueue

variable {Task : Type*}

-- What pop_alt would compute for one host now, with the memo tables as they
-- are.
def weight (queue : HostQueue Task) (host : Option Hostname) (h : Hostname) : ℚ :=
  (queue.throughput.interhost host (some h)).1.getD 0 * (queue.q (some h)).length

structure FirstBest (queue : HostQueue Task) (host : Option Hostname) (h : Hostname) : Prop where
  listed : h ∈ queue.hosts
  occupied : queue.q (some h) ≠ []
  best : ∀ other ∈ queue.hosts, queue.q (some other) ≠ [] → queue.weight host other ≤ queue.weight host h
  first : ∀ other ∈ queue.hosts, queue.q (some other) ≠ [] → queue.weight host other = queue.weight host h →
    queue.hosts.idxOf h ≤ queue.hosts.idxOf other

theorem weight_worth (queue : HostQueue Task) (faithful : queue.throughput.Faithful none) (host : Option Hostname)
    (h : Hostname) : queue.weight host h = queue.worth host (some h) := by
  have value := (Throughput.interhost_faithful _ none faithful host (some h) fun _ _ => Throughput.unlisted_mirrored _ _).1
  rw [weight, worth, value]

theorem keys_index (queue : HostQueue Task) (a b : Hostname) (knownA : a ∈ queue.hosts) (knownB : b ∈ queue.hosts) :
    queue.keys.idxOf (some a) ≤ queue.keys.idxOf (some b) ↔ queue.hosts.idxOf a ≤ queue.hosts.idxOf b := by
  have place : ∀ h ∈ queue.hosts, queue.keys.idxOf (some h) = queue.hosts.eraseDups.idxOf h := by
    intro h known
    have listed : some h ∈ queue.hosts.eraseDups.map some := List.mem_map_of_mem (List.mem_eraseDups.mpr known)
    rw [keys, List.idxOf_append_of_mem listed, FirstOccurrence.idx_map some (Option.some_injective _)]
  rw [place a knownA, place b knownB, FirstOccurrence.idx_erase_dups]

theorem chosen_first_best (hosts : List Hostname) (queue : HostQueue Task) (sound : Sound hosts queue) (host key : Option Hostname)
    (chosen : queue.Chosen host key) (content : ∃ other, queue.q other ≠ []) :
    ∃ h, key = some h ∧ queue.FirstBest host h := by
  have listed : ∀ h ∈ queue.hosts, queue.q (some h) ≠ [] → some h ∈ queue.keys.filter queue.occupied := by
    intro h known filled
    exact List.mem_filter.mpr ⟨(queue.mem_keys _).mpr (.inr ⟨h, known, rfl⟩), by simp [HostQueue.occupied, filled]⟩
  obtain ⟨other, stands⟩ := content
  obtain ⟨h, known, rfl⟩ := sound.known other stands
  have found := chosen.some ⟨some h, (queue.mem_keys _).mpr (.inr ⟨h, sound.own ▸ known, rfl⟩), stands⟩
  obtain ⟨member, filled⟩ := List.mem_filter.mp (List.argmax_mem found)
  have nonempty : queue.q key ≠ [] := by simpa [HostQueue.occupied] using filled
  obtain ⟨best, there, rfl⟩ := sound.known key nonempty
  have here : best ∈ queue.hosts := sound.own ▸ there
  refine ⟨best, rfl, here, nonempty, fun other known content => ?_, fun other known content same => ?_⟩
  · rw [queue.weight_worth sound.throughput, queue.weight_worth sound.throughput]
    exact List.le_of_mem_argmax (listed other known content) found
  · rw [queue.weight_worth sound.throughput, queue.weight_worth sound.throughput] at same
    have early : (queue.keys.filter queue.occupied).idxOf (some best) ≤ (queue.keys.filter queue.occupied).idxOf (some other) := by
      convert List.index_of_argmax found (listed other known content) same.ge
    have order := FirstOccurrence.idx_filter queue.occupied queue.keys (some best) (some other) filled
      (by simp [HostQueue.occupied, content])
    exact (queue.keys_index best other here known).mp (order.mp early)

section Removal

variable [DecidableEq Task]

theorem removable_congr (before after : HostQueue Task) (i : Task)
    (counts : ∀ key, (after.q key).count i = (before.q key).count i) (assigned : after.assigned i = before.assigned i)
    (removable : before.Removable i) : after.Removable i := by
  rcases removable with listed | ⟨drawn, single⟩
  · refine .inl fun key member => ?_
    rw [assigned]
    exact listed key (List.count_pos_iff.mp (counts key ▸ List.count_pos_iff.mpr member))
  · exact .inr ⟨drawn, fun key => (counts key).trans (single key)⟩

theorem removable_absent (queue : HostQueue Task) (i : Task) (absent : ∀ key, i ∉ queue.q key) : queue.Removable i :=
  .inl fun key member => absurd member (absent key)

theorem push_count (locality : Task → List Hostname) (queue : HostQueue Task) (some_host : queue.hosts ≠ []) (j i : Task)
    (r : Nat) (different : i ≠ j) (key : Option Hostname) :
    ((queue.push locality j r).q key).count i = (queue.q key).count i := by
  rw [queue.push_posting locality some_host]
  simp [List.count_replicate, Ne.symm different]

theorem push_removable (locality : Task → List Hostname) (queue : HostQueue Task) (some_host : queue.hosts ≠ []) (j : Task)
    (r : Nat) (absent : ∀ key, j ∉ queue.q key) : (queue.push locality j r).Removable j := by
  obtain ⟨-, -, source⟩ := queue.posting_hosts some_host j (locality j) r
  have counts : ∀ key, ((queue.push locality j r).q key).count j =
      ((queue.posting j (locality j) r).hosts.map some).count key := by
    intro key
    rw [queue.push_posting locality some_host]
    simp [List.count_eq_zero.mpr (absent key)]
  rcases source with same | ⟨-, single⟩
  · refine .inl fun key member => ?_
    have placed := List.count_pos_iff.mp (counts key ▸ List.count_pos_iff.mpr member)
    rw [queue.push_posting locality some_host]
    simp only [Function.update_self, List.map_append]
    exact List.mem_append_right _ (same ▸ placed)
  · obtain ⟨drawn, only⟩ := List.length_eq_one_iff.mp single
    refine .inr ⟨some drawn, fun key => ?_⟩
    rw [counts key, only, List.map_singleton, List.count_singleton]
    by_cases same : key = some drawn
    · simp [same]
    · simp [same, Ne.symm same]

theorem pop_removable (queue : HostQueue Task) (host : Option Hostname) (i : Task) (removable : queue.Removable i) :
    (queue.pop host).2.Removable i := by
  rcases queue.pop_cases host with ⟨-, popped⟩ | ⟨j, rest, -, content, popped⟩
  · rw [popped]
    exact removable
  · rw [popped]
    by_cases same : i = j
    · subst same
      have gathered := queue.removable_gathered i host (by simp [content]) removable
      exact removable_absent _ i ((queue.strike_gone_iff host i rest content).mpr gathered)
    · exact removable_congr queue _ i (queue.strike_count host j i rest content same) rfl removable

end Removal

end HostQueue

namespace QueueSession

variable {Task : Type*} [DecidableEq Task] {hosts : List Hostname}

-- A job that was never pushed while it was queued can be popped for good.
def Tidy (s : QueueSession Task) : Prop := ∀ j, j ∉ s.repushed → s.queue.Removable j

theorem push_tidy (s : QueueSession Task) (j : Task) (locality : List Hostname) (r : Nat) (next : QueueSession Task)
    (sound : HostQueue.Sound hosts s.queue) (tidy : Tidy s) (taken : s.step (.push j locality r) = some next) : Tidy next := by
  cases taken
  have some_host : s.queue.hosts ≠ [] := sound.own ▸ sound.some_host
  intro i single
  by_cases same : i = j
  · subst same
    have unqueued : i ∉ s.queue.queued := by
      intro member
      simp [member] at single
    have absent : ∀ key, i ∉ s.queue.q key := fun key member => unqueued ((queued_iff s.queue sound i).mpr ⟨key, member⟩)
    exact HostQueue.push_removable (fun _ => locality) s.queue some_host i r absent
  · have earlier : i ∉ s.repushed := by
      intro member
      apply single
      dsimp only
      split
      · exact List.mem_append_left _ member
      · exact member
    refine HostQueue.removable_congr s.queue _ i (HostQueue.push_count (fun _ => locality) s.queue some_host j i r same) ?_
      (tidy i earlier)
    dsimp only
    rw [s.queue.push_posting (fun _ => locality) some_host]
    exact Function.update_of_ne same _ _

theorem tidy_step (s next : QueueSession Task) (label : QueueLabel Task) (sound : HostQueue.Sound hosts s.queue)
    (tidy : Tidy s) (taken : s.step label = some next) : Tidy next := by
  cases label with
  | push j locality r => exact push_tidy s j locality r next sound tidy taken
  | pop host =>
      cases taken
      exact fun i single => s.queue.pop_removable host i (tidy i single)
  | popAlt host =>
      cases taken
      obtain ⟨throughput, key, -, -, popped⟩ := s.queue.pop_alt_chosen host sound.throughput
      intro i single
      have removable : ({ s.queue with throughput := throughput } : HostQueue Task).Removable i := tidy i single
      change (s.queue.popAlt host).2.Removable i
      rw [popped]
      exact HostQueue.pop_removable _ key i removable
  | clear =>
      cases taken
      intro i _
      refine HostQueue.removable_absent _ i fun key => ?_
      change i ∉ s.queue.clear.q key
      rw [s.queue.clear_blank hosts sound key]
      exact List.not_mem_nil
  | ask query =>
      cases taken
      exact tidy

theorem tidy_run (some_host : hosts ≠ []) (guard : QueueSession Task → QueueLabel Task → Prop) (s : QueueSession Task)
    (run : Machine.Run step guard (init hosts) s) : Tidy s := by
  refine Machine.run_invariant Tidy (init hosts) (fun i _ => HostQueue.removable_absent _ i fun _ => List.not_mem_nil) ?_ s run
  intro before after label earlier tidy _ taken
  exact tidy_step before after label (sound_run some_host before earlier) tidy taken

-- What pop_alt takes and from where; the job is gone for good where its other
-- copies stand with assigned hosts.
theorem pop_alt_steals_best (hosts : List Hostname) (some_host : hosts ≠ []) (s : QueueSession Task)
    (run : Machine.Run step Anyhow (init hosts) s) (host : Option Hostname) :
    ((∃ key, s.queue.q key ≠ []) → ∃ h j rest, s.queue.FirstBest host h ∧ s.queue.q (some h) = j :: rest ∧
      (s.queue.popAlt host).1 = some j ∧
      ((∀ key, j ∉ (s.queue.popAlt host).2.q key) ↔ s.queue.Gathered j (some h)) ∧
      (j ∉ s.repushed → s.queue.Gathered j (some h))) ∧
    ((∀ key, s.queue.q key = []) → (s.queue.popAlt host).1 = none ∧ (s.queue.popAlt host).2.q = s.queue.q) := by
  have sound := sound_run some_host s run
  obtain ⟨throughput, key, -, chosen, popped⟩ := s.queue.pop_alt_chosen host sound.throughput
  rw [popped]
  constructor
  · intro content
    obtain ⟨h, rfl, best⟩ := HostQueue.chosen_first_best hosts s.queue sound host key chosen content
    have known : some h ∈ s.queue.keys := (s.queue.mem_keys _).mpr (.inr ⟨h, best.listed, rfl⟩)
    rcases HostQueue.pop_cases { s.queue with throughput := throughput } (some h) with
      ⟨unknown | vacant, -⟩ | ⟨j, rest, -, stands, result⟩
    · exact absurd known unknown
    · exact absurd vacant best.occupied
    · refine ⟨h, j, rest, best, stands, by rw [result], ?_, fun single => ?_⟩
      · rw [result]
        exact s.queue.strike_gone_iff (some h) j rest stands
      · exact s.queue.removable_gathered j (some h) (stands ▸ List.mem_cons_self) (tidy_run some_host Anyhow s run j single)
  · intro vacant
    have nobody := chosen.none fun other _ => vacant other
    subst nobody
    rcases HostQueue.pop_cases { s.queue with throughput := throughput } none with ⟨-, result⟩ | ⟨j, rest, -, stands, -⟩
    · rw [result]
      exact ⟨rfl, rfl⟩
    · exact absurd (vacant none) (by rw [stands]; exact List.cons_ne_nil j rest)

-- Host a holds more, so b steals from it, and the job leaves its own list too.
theorem longer_list_robbed :
    ∃ (s : QueueSession Nat) (h : Hostname) (rest : List Nat), s.queue.FirstBest (some ['b']) h ∧
      s.queue.q (some h) = 0 :: rest ∧ ∀ key, 0 ∉ (s.queue.popAlt (some ['b'])).2.q key := by
  obtain ⟨s, run, taken, once, content⟩ := Machine.run_of_exec step Anyhow
    (fun s : QueueSession Nat => (s.queue.popAlt (some ['b'])).1 = some 0 ∧ s.repushed = [] ∧ s.queue.q (some ['a']) ≠ [])
    [.push 0 [['a'], ['b']] 0, .push 1 [] 0] (init [['a'], ['b']]) (by decide +kernel)
  obtain ⟨h, j, rest, best, stands, result, gone, gathered⟩ :=
    (pop_alt_steals_best [['a'], ['b']] (by simp) s run (some ['b'])).1 ⟨_, content⟩
  have same : j = 0 := Option.some.inj (result.symm.trans taken)
  subst same
  exact ⟨s, h, rest, best, stands, gone.mpr (gathered (by simp [once]))⟩

-- A job without a known host is pushed twice and drawn to a and to b; the
-- steal from a leaves it with b.
theorem second_copy_stays :
    ¬ ∀ hosts : List Hostname, hosts ≠ [] → ∀ s : QueueSession Nat, Machine.Run step Anyhow (init hosts) s →
      ∀ host : Option Hostname,
        ((∃ key, s.queue.q key ≠ []) → ∃ h j rest, s.queue.FirstBest host h ∧ s.queue.q (some h) = j :: rest ∧
          (s.queue.popAlt host).1 = some j ∧ ∀ key, j ∉ (s.queue.popAlt host).2.q key) ∧
        ((∀ key, s.queue.q key = []) → (s.queue.popAlt host).1 = none ∧ (s.queue.popAlt host).2.q = s.queue.q) := by
  intro claimed
  obtain ⟨s, run, taken, left, content⟩ := Machine.run_of_exec step Anyhow
    (fun s : QueueSession Nat => (s.queue.popAlt none).1 = some 0 ∧ 0 ∈ (s.queue.popAlt none).2.q (some ['b']) ∧
      s.queue.q (some ['a']) ≠ [])
    [.push 0 [] 0, .push 0 [] 1] (init [['a'], ['b']]) (by decide +kernel)
  obtain ⟨h, j, rest, -, -, result, gone⟩ := (claimed [['a'], ['b']] (by simp) s run none).1 ⟨_, content⟩
  have same : j = 0 := Option.some.inj (result.symm.trans taken)
  exact gone (some ['b']) (same ▸ left)

end QueueSession

end Pwrake
