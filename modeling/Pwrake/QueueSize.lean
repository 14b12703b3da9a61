import Pwrake.Fifo

set_option autoImplicit false

namespace Pwrake

namespace HostQueue

variable {Task : Type*} [DecidableEq Task]

-- What size is for: one for each job in the lists, however many copies it has.
structure Counts (queue : HostQueue Task) : Prop where
  size : queue.size = queue.queued.card
  positive : 0 ≤ queue.size
  empty : queue.isEmpty = true ↔ queue.size = 0

theorem empty_iff_queued (queue : HostQueue Task) : queue.isEmpty = true ↔ queue.queued = ∅ := by
  rw [is_empty_iff, queued, List.toFinset_eq_empty_iff, List.flatMap_eq_nil_iff]

end HostQueue

namespace QueueSession

variable {Task : Type*} [DecidableEq Task] {hosts : List Hostname}

def reply (queue : HostQueue Task) : QueueLabel Task → Option Task
  | .pop host => (queue.pop host).1
  | .popAlt host => (queue.popAlt host).1
  | _ => none

structure Answer (Task : Type*) where
  job : Option Task
  empty : Bool
  size : Int

-- All that callers see of a queue, call by call.
def answers (queue : HostQueue Task) : List (QueueLabel Task) → List (Answer Task)
  | [] => []
  | label :: rest =>
      ⟨reply queue label, (called queue label).isEmpty, (called queue label).size⟩ :: answers (called queue label) rest

def Legit (queue : HostQueue Task) : List (QueueLabel Task) → Prop
  | [] => True
  | label :: rest => Admits queue label ∧ Legit (called queue label) rest

def LikeNew (hosts : List Hostname) (queue : HostQueue Task) : Prop :=
  ∀ labels, Legit (.new hosts) labels → answers queue labels = answers (.new hosts) labels

-- What a call makes of the roster.
def posted (queue : HostQueue Task) (roster : Roster Task) : QueueLabel Task → Roster Task
  | .push j locality r => roster ++ [queue.posting j locality r]
  | .clear => []
  | label => roster.filter fun p => p.job ∉ reply queue label

theorem represents_called (queue : HostQueue Task) (roster : Roster Task) (represents : Represents hosts queue roster)
    (label : QueueLabel Task) (admits : Admits queue label) : Represents hosts (called queue label) (posted queue roster label) := by
  cases label with
  | push j locality r => exact represents.push j locality r admits
  | pop host => exact (represents.pop host).2
  | popAlt host => exact represents.pop_alt host
  | clear => exact represents.clear
  | ask query => simpa [posted, reply, called] using represents.ask query

-- How a call moves the counter.
def counted (queue : HostQueue Task) : QueueLabel Task → Int
  | .push _ _ _ => 1
  | label => if (reply queue label).isSome then -1 else 0

theorem called_size (queue : HostQueue Task) (some_host : queue.hosts ≠ []) (label : QueueLabel Task) :
    (called queue label).size = queue.size + counted queue label := by
  have popped : ∀ (queue : HostQueue Task) (host : Option Hostname),
      (queue.pop host).2.size = queue.size + if (queue.pop host).1.isSome then -1 else 0 := by
    intro queue host
    rcases queue.pop_cases host with ⟨-, popped⟩ | ⟨j, rest, -, -, popped⟩
    · simp [popped]
    · simp [popped, Int.sub_eq_add_neg]
  cases label with
  | push j locality r =>
      change (queue.push (fun _ => locality) j r).size = queue.size + 1
      rw [queue.push_posting _ some_host]
  | pop host => exact popped queue host
  | popAlt host => exact popped _ _
  | clear => simp [called, counted, reply, HostQueue.clear]
  | ask query => simp [called, counted, reply, HostQueue.ask]

-- One roster leaves only what is remembered and counted to differ.
omit [DecidableEq Task] in
theorem twin_lists (a b : HostQueue Task) (roster : Roster Task) (left : Represents hosts a roster)
    (right : Represents hosts b roster) : a.hosts = b.hosts ∧ a.q = b.q := by
  constructor
  · exact left.sound.own.trans right.sound.own.symm
  · funext key
    exact (left.lists key).trans (right.lists key).symm

omit [DecidableEq Task] in
theorem same_keys (a b : HostQueue Task) (same : a.hosts = b.hosts) : a.keys = b.keys := by
  rw [HostQueue.keys, HostQueue.keys, same]

-- Queues with one roster choose alike, whatever they remember and whatever
-- their counters say.
omit [DecidableEq Task] in
theorem chosen_unique (a b : HostQueue Task) (host : Option Hostname) (same : a.hosts = b.hosts) (lists : a.q = b.q)
    (key other : Option Hostname) (chosen : a.Chosen host key) (also : b.Chosen host other) : key = other := by
  have keys := same_keys a b same
  by_cases content : ∃ k ∈ a.keys, a.q k ≠ []
  · have found := chosen.some content
    have again := also.some (keys ▸ lists ▸ content)
    have worth : a.worth host = b.worth host := by
      funext k
      rw [HostQueue.worth, HostQueue.worth, lists]
    have occupied : a.occupied = b.occupied := by
      funext k
      rw [HostQueue.occupied, HostQueue.occupied, lists]
    rw [keys, worth, occupied] at found
    exact Option.some.inj (found.symm.trans again)
  · have vacant : ∀ k ∈ a.keys, a.q k = [] := fun k member => by_contra fun filled => content ⟨k, member, filled⟩
    rw [chosen.none vacant, also.none (keys ▸ lists ▸ vacant)]

theorem pop_reply (a b : HostQueue Task) (same : a.hosts = b.hosts) (lists : a.q = b.q) (host : Option Hostname) :
    (a.pop host).1 = (b.pop host).1 := by
  rw [HostQueue.pop, HostQueue.pop, same_keys a b same, lists]
  by_cases known : host ∈ b.keys
  · rw [if_pos known, if_pos known]
    cases b.q host <;> rfl
  · rw [if_neg known, if_neg known]

theorem twin_reply (a b : HostQueue Task) (roster : Roster Task) (left : Represents hosts a roster)
    (right : Represents hosts b roster) (label : QueueLabel Task) : reply a label = reply b label := by
  obtain ⟨same, lists⟩ := twin_lists a b roster left right
  cases label with
  | pop host => exact pop_reply a b same lists host
  | popAlt host =>
      obtain ⟨throughput, key, -, chosen, popped⟩ := a.pop_alt_chosen host left.sound.throughput
      obtain ⟨memory, other, -, also, result⟩ := b.pop_alt_chosen host right.sound.throughput
      have one := chosen_unique a b host same lists key other chosen also
      change (a.popAlt host).1 = (b.popAlt host).1
      rw [popped, result, one]
      exact pop_reply { a with throughput := throughput } { b with throughput := memory } same lists other
  | _ => rfl

omit [DecidableEq Task] in
theorem twin_empty (a b : HostQueue Task) (roster : Roster Task) (left : Represents hosts a roster)
    (right : Represents hosts b roster) : a.isEmpty = b.isEmpty := by
  obtain ⟨same, lists⟩ := twin_lists a b roster left right
  rw [HostQueue.isEmpty, HostQueue.isEmpty, same, lists]

theorem twin_posted (a b : HostQueue Task) (roster : Roster Task) (left : Represents hosts a roster)
    (right : Represents hosts b roster) (label : QueueLabel Task) : posted a roster label = posted b roster label := by
  obtain ⟨same, -⟩ := twin_lists a b roster left right
  have reply := twin_reply a b roster left right label
  cases label with
  | push j locality r => simp [posted, HostQueue.posting, HostQueue.accepted, same]
  | clear => rfl
  | _ => simp only [posted, reply]

theorem twin_counted (a b : HostQueue Task) (roster : Roster Task) (left : Represents hosts a roster)
    (right : Represents hosts b roster) (label : QueueLabel Task) : counted a label = counted b label := by
  have reply := twin_reply a b roster left right label
  cases label with
  | push j locality r => rfl
  | _ => simp only [counted, reply]

-- Two queues with one roster answer alike for ever, up to what their counters
-- are apart.
theorem twin_answers (roster : Roster Task) (labels : List (QueueLabel Task)) (a b : HostQueue Task) (left : Represents hosts a roster)
    (right : Represents hosts b roster) (gap : Int) (apart : a.size = b.size + gap) (legit : Legit b labels) :
    answers a labels = (answers b labels).map fun answer => { answer with size := answer.size + gap } := by
  induction labels generalizing roster a b with
  | nil => rfl
  | cons label rest ih =>
      obtain ⟨admits, later⟩ := legit
      have also : Admits a label := by
        cases label with
        | push j locality r =>
            have absent : j ∉ b.queued := admits
            exact fun member => absent ((right.mem_queued j).mpr ((left.mem_queued j).mp member))
        | _ => trivial
      have here := represents_called a roster left label also
      have there := represents_called b roster right label admits
      rw [twin_posted a b roster left right label] at here
      have sizes : (called a label).size = (called b label).size + gap := by
        rw [called_size a (left.sound.own ▸ left.sound.some_host), called_size b (right.sound.own ▸ right.sound.some_host),
          twin_counted a b roster left right label, apart]
        omega
      rw [answers, answers, List.map_cons, ih _ _ _ here there sizes later, twin_reply a b roster left right label,
        twin_empty _ _ _ here there, sizes]

-- The counter is what waits and what clear threw away.
def Balanced (hosts : List Hostname) (s : QueueSession Task) : Prop :=
  ∃ roster, Represents hosts s.queue roster ∧ s.queue.size = roster.length + s.dropped

-- Only a clear lets the roster and the counter part.
theorem posted_length (queue : HostQueue Task) (roster : Roster Task) (represents : Represents hosts queue roster)
    (label : QueueLabel Task) (kept : label ≠ .clear) :
    ((posted queue roster label).length : Int) = roster.length + counted queue label := by
  have struck : ∀ result : Option Task, (∀ j ∈ result, j ∈ queue.queued) →
      ((roster.filter fun p => p.job ∉ result).length : Int) = roster.length + if result.isSome then -1 else 0 := by
    intro result found
    cases result with
    | none => simp
    | some j =>
        have once : (roster.map Posting.job).count j = 1 :=
          List.count_eq_one_of_mem represents.distinct ((represents.mem_queued j).mp (found j rfl))
        have parted : roster.length = (roster.filter fun p : Posting Task => p.job = j).length +
            (roster.filter fun p : Posting Task => !decide (p.job = j)).length := List.length_eq_length_filter_add _
        have same : (roster.filter fun p : Posting Task => p.job = j).length = 1 := by
          rw [← List.countP_eq_length_filter, ← once, List.count, List.countP_map]
          rfl
        have kept : (roster.filter fun p => p.job ∉ some j) = roster.filter fun p => !decide (p.job = j) := by
          simp [eq_comm]
        rw [kept]
        simp only [Option.isSome_some, if_true]
        omega
  cases label with
  | push j locality r => simp [posted, counted]
  | pop host => exact struck _ (popped_queued queue represents.sound host)
  | popAlt host => exact struck _ (stolen_queued queue represents.sound host)
  | clear => exact absurd rfl kept
  | ask query => simp [posted, counted, reply]

theorem balanced_step (s next : QueueSession Task) (label : QueueLabel Task) (balanced : Balanced hosts s)
    (admits : Admits s.queue label) (taken : s.step label = some next) : Balanced hosts next := by
  obtain ⟨roster, represents, size⟩ := balanced
  have some_host : s.queue.hosts ≠ [] := represents.sound.own ▸ represents.sound.some_host
  refine ⟨posted s.queue roster label, ?_, ?_⟩
  · rw [step_called s next label taken]
    exact represents_called s.queue roster represents label admits
  · rw [step_called s next label taken, called_size s.queue some_host, size]
    by_cases cleared : label = .clear
    · subst cleared
      cases taken
      simp [posted, counted, reply, represents.card_queued, Int.add_comm]
    · have dropped : next.dropped = s.dropped := by
        cases label <;> cases taken <;> first | rfl | exact absurd rfl cleared
      rw [posted_length s.queue roster represents label cleared, dropped]
      omega

theorem balanced_run (some_host : hosts ≠ []) (s : QueueSession Task) (run : Machine.Run step Unqueued (init hosts) s) :
    Balanced hosts s := by
  have start : Balanced hosts (init hosts : QueueSession Task) := ⟨[], Represents.newly some_host, rfl⟩
  exact Machine.run_invariant (Balanced hosts) (init hosts) start
    (fun before after label _ balanced admits taken => balanced_step before after label balanced admits taken) s run

theorem like_new_iff (queue : HostQueue Task) (some_host : hosts ≠ []) (represents : Represents hosts queue []) :
    LikeNew hosts queue ↔ queue.size = 0 := by
  constructor
  · intro alike
    have answered := alike [.ask (.interhost none none)] ⟨trivial, trivial⟩
    simp only [answers, List.cons.injEq, Answer.mk.injEq, and_true] at answered
    exact answered.2.2
  · intro zero labels legit
    have matched := twin_answers [] labels queue (.new hosts) represents (Represents.newly some_host) 0 (zero.trans rfl) legit
    simpa using matched

-- size, empty? and the lists agree as long as no clear found a job queued, and
-- the queue that clear leaves is like a new one under the same condition.
theorem size_counts_jobs_iff (hosts : List Hostname) (some_host : hosts ≠ []) (s : QueueSession Task)
    (run : Machine.Run step Unqueued (init hosts) s) :
    (s.queue.Counts ↔ s.dropped = 0) ∧ (LikeNew hosts s.queue.clear ↔ s.dropped + s.queue.queued.card = 0) := by
  obtain ⟨roster, represents, size⟩ := balanced_run some_host s run
  have card := represents.card_queued
  constructor
  · constructor
    · intro counts
      have exact_size := counts.size
      omega
    · intro none
      refine ⟨by omega, by omega, ?_⟩
      rw [s.queue.empty_iff_queued, ← Finset.card_eq_zero, card, size, none]
      omega
  · rw [like_new_iff s.queue.clear some_host represents.clear]
    change s.queue.size = 0 ↔ _
    rw [size, card]
    omega

-- A clear of an empty queue is harmless.
theorem counts_after_vacant_clear :
    ∃ s : QueueSession Nat, s.queue.Counts ∧ s.queue.queued = {1} ∧ s.returned = [0] := by
  obtain ⟨s, run, dropped, queued, returned⟩ := Machine.run_of_exec step Unqueued
    (fun s : QueueSession Nat => s.dropped = 0 ∧ s.queue.queued = {1} ∧ s.returned = [0])
    [.push 0 [['a'], ['b']] 0, .popAlt none, .clear, .push 1 [['b']] 0] (init [['a'], ['b']]) (by decide +kernel)
  exact ⟨s, (size_counts_jobs_iff [['a'], ['b']] (by simp) s run).1.mpr dropped, queued, returned⟩

-- clear empties the lists and leaves the counter where it was.
theorem counter_survives_clear :
    ¬ ∀ hosts : List Hostname, hosts ≠ [] → ∀ s : QueueSession Nat, Machine.Run step Unqueued (init hosts) s →
      s.queue.Counts ∧ LikeNew hosts s.queue.clear := by
  intro claimed
  obtain ⟨s, run, size, queued⟩ := Machine.run_of_exec step Unqueued
    (fun s : QueueSession Nat => s.queue.size = 1 ∧ s.queue.queued = ∅)
    [.push 0 [] 0, .clear] (init [['a']]) (by decide +kernel)
  have counts := (claimed [['a']] (by simp) s run).1.size
  simp [size, queued] at counts

end QueueSession

end Pwrake
