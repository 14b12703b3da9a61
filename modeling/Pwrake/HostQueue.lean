import Pwrake.TaskQueue
import Pwrake.Throughput
import Mathlib.Algebra.Order.Ring.Rat
import Mathlib.Data.List.Count
import Mathlib.Data.List.MinMax

set_option autoImplicit false

namespace Pwrake

-- The values of @q are read and written by key; its keys never change. The
-- @assigned lists of the tasks are kept here, where they are used.
structure HostQueue (Task : Type*) where
  hosts : List Hostname
  q : Option Hostname → List Task
  throughput : Throughput
  size : Int
  assigned : Task → List Hostname

-- A pushed job with the hosts that got a copy of it.
structure Posting (Task : Type*) where
  job : Task
  hosts : List Hostname
deriving DecidableEq

namespace HostQueue

variable {Task : Type*}

def new (hosts : List Hostname) : HostQueue Task := ⟨hosts, fun _ => [], .new none, 0, fun _ => []⟩

-- The keys of @q in the order in which initialize put them in.
def keys (queue : HostQueue Task) : List (Option Hostname) := queue.hosts.eraseDups.map some ++ [none]

def clear (queue : HostQueue Task) : HostQueue Task :=
  { queue with q := fun key => if ∃ h ∈ queue.hosts, key = some h then [] else queue.q key }

def isEmpty (queue : HostQueue Task) : Bool := queue.hosts.all fun h => (queue.q (some h)).isEmpty

variable [DecidableEq Task]

def append (queue : HostQueue Task) (key : Option Hostname) (j : Task) : HostQueue Task :=
  { queue with q := Function.update queue.q key (queue.q key ++ [j]) }

def assign (queue : HostQueue Task) (h : Hostname) (j : Task) : HostQueue Task :=
  { queue.append (some h) j with assigned := Function.update queue.assigned j (queue.assigned j ++ [h]) }

-- The loop of push over the locality, with its local variable stored.
def store (queue : HostQueue Task) (j : Task) : List Hostname → Bool → HostQueue Task × Bool
  | [], stored => (queue, stored)
  | h :: rest, stored => if some h ∈ queue.keys then (queue.assign h j).store j rest true else queue.store j rest stored

-- rand(@hosts.size) is r % size. With no hosts the index is past the end and
-- the key is nil.
def push (locality : Task → List Hostname) (queue : HostQueue Task) (j : Task) (r : Nat) : HostQueue Task :=
  let (queue, stored) := queue.store j (locality j) false
  let queue := if stored then queue else queue.append queue.hosts[r % queue.hosts.length]? j
  { queue with size := queue.size + 1 }

def strike (j : Task) (q : Option Hostname → List Task) (assigned : List Hostname) : Option Hostname → List Task :=
  assigned.foldl (fun q x => Function.update q (some x) ((q (some x)).filter (· ≠ j))) q

def pop (queue : HostQueue Task) (host : Option Hostname) : Option Task × HostQueue Task :=
  if host ∈ queue.keys then
    match queue.q host with
    | [] => (none, queue)
    | j :: rest =>
        (some j,
          { queue with q := strike j (Function.update queue.q host rest) (queue.assigned j), size := queue.size - 1 })
  else (none, queue)

structure Candidate where
  maxHost : Option Hostname
  maxNum : ℚ
  throughput : Throughput

-- A rate of nil would raise; without a list @min_value is 1 and none is nil.
def weigh (queue : HostQueue Task) (host : Option Hostname) (best : Candidate) (h : Option Hostname) : Candidate :=
  if (queue.q h).isEmpty then best
  else
    let (rate, throughput) := best.throughput.interhost host h
    let d := rate.getD 0 * (queue.q h).length
    if d > best.maxNum then ⟨h, d, throughput⟩ else { best with throughput := throughput }

-- Both branches of the last if in pop_alt are a pop of max_host, nil or not.
def popAlt (queue : HostQueue Task) (host : Option Hostname) : Option Task × HostQueue Task :=
  let best := queue.keys.foldl (queue.weigh host) ⟨none, 0, queue.throughput⟩
  { queue with throughput := best.throughput }.pop best.maxHost

def ops (locality : Task → List Hostname) : QueueOps (HostQueue Task) Task (Option Hostname) Nat where
  push := push locality
  pop := pop
  popAlt := popAlt
  clear := clear
  isEmpty := isEmpty

omit [DecidableEq Task] in
theorem mem_keys (queue : HostQueue Task) (key : Option Hostname) :
    key ∈ queue.keys ↔ key = none ∨ ∃ h ∈ queue.hosts, key = some h := by
  cases key <;> simp [keys]

omit [DecidableEq Task] in
theorem is_empty_iff (queue : HostQueue Task) : queue.isEmpty = true ↔ ∀ h ∈ queue.hosts, queue.q (some h) = [] := by
  simp [isEmpty]

def accepted (queue : HostQueue Task) (locality : List Hostname) : List Hostname := locality.filter (· ∈ queue.hosts)

-- One copy of the job for each known host of the locality, repeated hosts included.
theorem store_eq (queue : HostQueue Task) (j : Task) (locality : List Hostname) (stored : Bool) :
    queue.store j locality stored =
      ({ queue with
          q := fun key => queue.q key ++ List.replicate (((queue.accepted locality).map some).count key) j
          assigned := Function.update queue.assigned j (queue.assigned j ++ queue.accepted locality) },
        stored || !(queue.accepted locality).isEmpty) := by
  induction locality generalizing queue stored with
  | nil => simp [store, accepted]
  | cons h rest ih =>
      by_cases known : h ∈ queue.hosts
      · have key : some h ∈ queue.keys := (queue.mem_keys _).mpr (.inr ⟨h, known, rfl⟩)
        have same : (queue.assign h j).accepted rest = queue.accepted rest := rfl
        have grown : queue.accepted (h :: rest) = h :: queue.accepted rest := by simp [accepted, known]
        rw [store, if_pos key, ih, same, grown]
        simp only [assign, append, Function.update_idem, Function.update_self, List.append_assoc, List.singleton_append,
          List.isEmpty_cons, Bool.true_or, Bool.not_false, Bool.or_true, List.map_cons, Prod.mk.injEq, and_true]
        congr 1
        funext other
        by_cases equal : other = some h
        · subst equal
          simp [List.replicate_succ]
        · simp [equal, Ne.symm equal]
      · have key : some h ∉ queue.keys := by simp [mem_keys, known]
        have same : queue.accepted (h :: rest) = queue.accepted rest := by simp [accepted, known]
        rw [store, if_neg key, ih, same]

-- A push puts a job with each of its known hosts, or once with a drawn one.
def posting (queue : HostQueue Task) (j : Task) (locality : List Hostname) (r : Nat) : Posting Task :=
  ⟨j, if queue.accepted locality = [] then queue.hosts[r % queue.hosts.length]?.toList else queue.accepted locality⟩

omit [DecidableEq Task] in
theorem posting_hosts (queue : HostQueue Task) (some_host : queue.hosts ≠ []) (j : Task) (locality : List Hostname)
    (r : Nat) :
    (queue.posting j locality r).hosts ≠ [] ∧ (∀ h ∈ (queue.posting j locality r).hosts, h ∈ queue.hosts) ∧
      (queue.accepted locality = (queue.posting j locality r).hosts ∨
        queue.accepted locality = [] ∧ (queue.posting j locality r).hosts.length = 1) := by
  by_cases known : queue.accepted locality = []
  · have bound := Nat.mod_lt r (List.length_pos_of_ne_nil some_host)
    simp [posting, known, List.getElem?_eq_getElem bound]
  · rw [posting, if_neg known]
    refine ⟨known, fun h member => ?_, .inl rfl⟩
    simpa using (List.mem_filter.mp member).2

theorem push_posting (locality : Task → List Hostname) (queue : HostQueue Task) (some_host : queue.hosts ≠ []) (j : Task)
    (r : Nat) :
    queue.push locality j r =
      { queue with
        q := fun key => queue.q key ++ List.replicate (((queue.posting j (locality j) r).hosts.map some).count key) j
        size := queue.size + 1
        assigned := Function.update queue.assigned j (queue.assigned j ++ queue.accepted (locality j)) } := by
  by_cases known : queue.accepted (locality j) = []
  · have bound := Nat.mod_lt r (List.length_pos_of_ne_nil some_host)
    simp only [push, posting, store_eq, known, List.isEmpty_nil, Bool.not_true, Bool.or_self, Bool.false_eq_true, if_false,
      if_true, append, List.append_nil, List.map_nil, List.count_nil, List.replicate_zero, List.getElem?_eq_getElem bound,
      Option.toList_some, HostQueue.mk.injEq, true_and, and_true]
    funext key
    by_cases equal : key = some (queue.hosts.get ⟨r % queue.hosts.length, bound⟩)
    · subst equal
      simp
    · have other : key ≠ some queue.hosts[r % queue.hosts.length] := equal
      rw [Function.update_of_ne other]
      simp [Ne.symm other]
  · have stored : (queue.accepted (locality j)).isEmpty = false := by simpa using known
    simp only [push, posting, store_eq, stored, Bool.not_false, Bool.or_true, if_true, if_neg known]

theorem push_eq (locality : Task → List Hostname) (queue : HostQueue Task) (some_host : queue.hosts ≠ []) (j : Task)
    (r : Nat) :
    ∃ places, places ≠ [] ∧ (∀ h ∈ places, h ∈ queue.hosts) ∧
      (queue.accepted (locality j) = places ∨ queue.accepted (locality j) = [] ∧ places.length = 1) ∧
      queue.push locality j r =
        { queue with
          q := fun key => queue.q key ++ List.replicate ((places.map some).count key) j
          size := queue.size + 1
          assigned := Function.update queue.assigned j (queue.assigned j ++ queue.accepted (locality j)) } := by
  obtain ⟨nonempty, known, source⟩ := queue.posting_hosts some_host j (locality j) r
  exact ⟨_, nonempty, known, source, queue.push_posting locality some_host j r⟩

theorem strike_eq (j : Task) (q : Option Hostname → List Task) (assigned : List Hostname) (key : Option Hostname) :
    strike j q assigned key = if key ∈ assigned.map some then (q key).filter (· ≠ j) else q key := by
  induction assigned generalizing q with
  | nil => simp [strike]
  | cons x rest ih =>
      change strike j (Function.update q (some x) ((q (some x)).filter (· ≠ j))) rest key = _
      rw [ih, List.map_cons]
      by_cases equal : key = some x
      · subst equal
        rw [if_pos List.mem_cons_self, Function.update_self]
        split
        · rw [List.filter_filter]
          simp
        · rfl
      · rw [Function.update_of_ne equal]
        have member : key ∈ some x :: rest.map some ↔ key ∈ rest.map some := by simp [equal]
        simp only [member]

theorem strike_count (queue : HostQueue Task) (host : Option Hostname) (j i : Task) (rest : List Task)
    (content : queue.q host = j :: rest) (different : i ≠ j) (key : Option Hostname) :
    (strike j (Function.update queue.q host rest) (queue.assigned j) key).count i = (queue.q key).count i := by
  have shifted : (Function.update queue.q host rest key).count i = (queue.q key).count i := by
    by_cases same : key = host
    · subst same
      rw [Function.update_self, content, List.count_cons_of_ne (Ne.symm different)]
    · rw [Function.update_of_ne same]
  rw [strike_eq, ← shifted]
  split
  · exact List.count_filter (by simpa using different)
  · rfl

-- Apart from the copy at the head of this list, every copy of the job stands
-- with one of its assigned hosts.
def Gathered (queue : HostQueue Task) (j : Task) (host : Option Hostname) : Prop :=
  ∀ key, key ∉ (queue.assigned j).map some → (queue.q key).count j = if key = host then 1 else 0

theorem strike_gone_iff (queue : HostQueue Task) (host : Option Hostname) (j : Task) (rest : List Task)
    (content : queue.q host = j :: rest) :
    (∀ key, j ∉ strike j (Function.update queue.q host rest) (queue.assigned j) key) ↔ queue.Gathered j host := by
  refine forall_congr' fun key => ?_
  rw [strike_eq]
  by_cases assigned : key ∈ (queue.assigned j).map some
  · simp [assigned]
  · rw [if_neg assigned, ← List.count_eq_zero]
    by_cases same : key = host
    · subst same
      rw [Function.update_self, content, List.count_cons_self]
      simp [assigned]
    · rw [Function.update_of_ne same]
      simp [assigned, same]

theorem strike_filter (queue : HostQueue Task) (host : Option Hostname) (j : Task) (rest : List Task)
    (content : queue.q host = j :: rest) (gathered : queue.Gathered j host) (key : Option Hostname) :
    strike j (Function.update queue.q host rest) (queue.assigned j) key = (queue.q key).filter (· ≠ j) := by
  have shifted : (Function.update queue.q host rest key).filter (· ≠ j) = (queue.q key).filter (· ≠ j) := by
    by_cases same : key = host
    · subst same
      simp [content]
    · rw [Function.update_of_ne same]
  have gone := (strike_gone_iff queue host j rest content).mpr gathered key
  rw [strike_eq] at gone ⊢
  by_cases assigned : key ∈ (queue.assigned j).map some
  · rw [if_pos assigned, shifted]
  · rw [if_neg assigned] at gone ⊢
    rw [← shifted, List.filter_eq_self.mpr]
    intro other member
    simpa using fun same : other = j => gone (same ▸ member)

-- Wherever such a job is popped, it is gathered there.
def Removable (queue : HostQueue Task) (j : Task) : Prop :=
  (∀ key, j ∈ queue.q key → key ∈ (queue.assigned j).map some) ∨
    ∃ drawn, ∀ key, (queue.q key).count j = if key = drawn then 1 else 0

theorem removable_gathered (queue : HostQueue Task) (j : Task) (host : Option Hostname) (here : j ∈ queue.q host)
    (removable : queue.Removable j) : queue.Gathered j host := by
  intro key elsewhere
  rcases removable with assigned | ⟨drawn, single⟩
  · have different : key ≠ host := fun same => elsewhere (same ▸ assigned host here)
    rw [if_neg different]
    exact List.count_eq_zero.mpr fun member => elsewhere (assigned key member)
  · have chosen : host = drawn := by
      by_contra other
      have absent := single host
      rw [if_neg other] at absent
      exact List.count_eq_zero.mp absent here
    rw [single key, chosen]

theorem pop_cases (queue : HostQueue Task) (host : Option Hostname) :
    ((host ∉ queue.keys ∨ queue.q host = []) ∧ queue.pop host = (none, queue)) ∨
      ∃ j rest, host ∈ queue.keys ∧ queue.q host = j :: rest ∧ queue.pop host =
        (some j,
          { queue with q := strike j (Function.update queue.q host rest) (queue.assigned j), size := queue.size - 1 }) := by
  by_cases known : host ∈ queue.keys
  · cases content : queue.q host with
    | nil => exact .inl ⟨.inr rfl, by rw [pop, if_pos known, content]⟩
    | cons j rest => exact .inr ⟨j, rest, known, rfl, by rw [pop, if_pos known, content]⟩
  · exact .inl ⟨.inl known, by rw [pop, if_neg known]⟩

section Stealing

variable (queue : HostQueue Task) (host : Option Hostname)

-- What one list is worth to pop_alt, whatever its throughput remembers.
def worth (key : Option Hostname) : ℚ := ((Throughput.hostRate none host key).getD 0) * (queue.q key).length

omit [DecidableEq Task] in
theorem worth_positive (key : Option Hostname) (occupied : queue.q key ≠ []) : 0 < queue.worth host key := by
  have jobs : (0 : ℚ) < (queue.q key).length := by exact_mod_cast List.length_pos_of_ne_nil occupied
  exact mul_pos (Throughput.host_rate_positive host key) jobs

def occupied (key : Option Hostname) : Bool := !(queue.q key).isEmpty

-- What the search of pop_alt knows after some keys: the first of the best
-- lists among them, or that they are all empty.
structure Searched (seen : List (Option Hostname)) (best : Candidate) : Prop where
  throughput : best.throughput.Faithful none
  found : (seen.filter queue.occupied).argmax (queue.worth host) = none ∧ best.maxHost = none ∧ best.maxNum = 0 ∨
    (seen.filter queue.occupied).argmax (queue.worth host) = some best.maxHost ∧
      best.maxNum = queue.worth host best.maxHost

omit [DecidableEq Task] in
theorem weigh_searched (seen : List (Option Hostname)) (best : Candidate) (h : Option Hostname)
    (searched : queue.Searched host seen best) : queue.Searched host (seen ++ [h]) (queue.weigh host best h) := by
  by_cases vacant : queue.q h = []
  · have same : queue.weigh host best h = best := by simp [weigh, vacant]
    have skipped : (seen ++ [h]).filter queue.occupied = seen.filter queue.occupied := by simp [occupied, vacant]
    rw [same]
    exact ⟨searched.throughput, skipped.symm ▸ searched.found⟩
  · obtain ⟨value, kept⟩ := Throughput.interhost_faithful best.throughput none searched.throughput host h
      fun _ _ => Throughput.unlisted_mirrored _ _
    have step : queue.weigh host best h =
        if queue.worth host h > best.maxNum then ⟨h, queue.worth host h, (best.throughput.interhost host h).2⟩
        else { best with throughput := (best.throughput.interhost host h).2 } := by
      simp [weigh, vacant, value, worth]
    have taken : (seen ++ [h]).filter queue.occupied = seen.filter queue.occupied ++ [h] := by simp [occupied, vacant]
    rw [step]
    rcases searched.found with ⟨blank, -, zero⟩ | ⟨found, num⟩
    · rw [if_pos (zero ▸ queue.worth_positive host h vacant)]
      exact ⟨kept, .inr ⟨by rw [taken, List.argmax_concat, blank], rfl⟩⟩
    · split
      · rename_i better
        rw [num] at better
        exact ⟨kept, .inr ⟨by rw [taken, List.argmax_concat, found]; exact if_pos better, rfl⟩⟩
      · rename_i poor
        rw [num] at poor
        exact ⟨kept, .inr ⟨by rw [taken, List.argmax_concat, found]; exact if_neg poor, num⟩⟩

omit [DecidableEq Task] in
theorem search_searched (keys seen : List (Option Hostname)) (best : Candidate)
    (searched : queue.Searched host seen best) :
    queue.Searched host (seen ++ keys) (keys.foldl (queue.weigh host) best) := by
  induction keys generalizing seen best with
  | nil => simpa using searched
  | cons h rest ih =>
      have next := ih (seen ++ [h]) _ (queue.weigh_searched host seen best h searched)
      simpa using next

-- The list pop_alt chooses: the first in the order of the keys of those that
-- are worth most, and nil when all are empty.
structure Chosen (key : Option Hostname) : Prop where
  none : (∀ other ∈ queue.keys, queue.q other = []) → key = none
  some : (∃ other ∈ queue.keys, queue.q other ≠ []) → (queue.keys.filter queue.occupied).argmax (queue.worth host) = some key

theorem pop_alt_chosen (faithful : queue.throughput.Faithful none) :
    ∃ throughput key, throughput.Faithful none ∧ queue.Chosen host key ∧
      queue.popAlt host = { queue with throughput := throughput }.pop key := by
  have start : queue.Searched host [] ⟨none, 0, queue.throughput⟩ := ⟨faithful, .inl ⟨rfl, rfl, rfl⟩⟩
  have searched := queue.search_searched host queue.keys [] _ start
  rw [List.nil_append] at searched
  refine ⟨_, _, searched.throughput, ⟨fun vacant => ?_, fun ⟨other, member, content⟩ => ?_⟩, rfl⟩
  · rcases searched.found with ⟨-, nobody, -⟩ | ⟨found, -⟩
    · exact nobody
    · obtain ⟨member, content⟩ := List.mem_filter.mp (List.argmax_mem found)
      simp [occupied, vacant _ member] at content
  · rcases searched.found with ⟨blank, -⟩ | ⟨found, -⟩
    · have listed : other ∈ queue.keys.filter queue.occupied := List.mem_filter.mpr ⟨member, by simp [occupied, content]⟩
      rw [List.argmax_eq_none.mp blank] at listed
      cases listed
    · exact found

-- pop_alt is a pop of a key it chose, and it chooses a list with a job
-- whenever there is one.
theorem pop_alt_eq (faithful : queue.throughput.Faithful none) :
    ∃ throughput key, throughput.Faithful none ∧ queue.popAlt host = { queue with throughput := throughput }.pop key ∧
      ((∃ h ∈ queue.hosts, queue.q (some h) ≠ []) → key ∈ queue.keys ∧ queue.q key ≠ []) := by
  obtain ⟨throughput, key, kept, chosen, popped⟩ := queue.pop_alt_chosen host faithful
  refine ⟨throughput, key, kept, popped, ?_⟩
  rintro ⟨h, known, content⟩
  have found := chosen.some ⟨some h, (queue.mem_keys _).mpr (.inr ⟨h, known, rfl⟩), content⟩
  obtain ⟨member, filled⟩ := List.mem_filter.mp (List.argmax_mem found)
  exact ⟨member, by simpa [occupied] using filled⟩

end Stealing

-- What holds of every queue over some hosts, whatever was pushed.
structure Sound (hosts : List Hostname) (queue : HostQueue Task) : Prop where
  some_host : hosts ≠ []
  own : queue.hosts = hosts
  throughput : queue.throughput.Faithful none
  known : ∀ key, queue.q key ≠ [] → ∃ h ∈ hosts, key = some h

omit [DecidableEq Task] in
theorem new_sound (hosts : List Hostname) (some_host : hosts ≠ []) : Sound hosts (new hosts : HostQueue Task) :=
  ⟨some_host, rfl, Throughput.new_faithful none, fun _ occupied => absurd rfl occupied⟩

omit [DecidableEq Task] in
theorem occupied_iff (hosts : List Hostname) (queue : HostQueue Task) (sound : Sound hosts queue) :
    queue.isEmpty = false ↔ ∃ key, queue.q key ≠ [] := by
  rw [← Bool.not_eq_true, is_empty_iff]
  constructor
  · intro occupied
    by_contra vacant
    apply occupied
    intro h _
    by_contra content
    exact vacant ⟨some h, content⟩
  · rintro ⟨key, content⟩ vacant
    obtain ⟨h, known, rfl⟩ := sound.known key content
    exact content (vacant h (sound.own ▸ known))

theorem push_sound (locality : Task → List Hostname) (hosts : List Hostname) (queue : HostQueue Task) (j : Task)
    (r : Nat) (sound : Sound hosts queue) : Sound hosts (queue.push locality j r) := by
  obtain ⟨places, -, source, -, pushed⟩ := push_eq locality queue (sound.own ▸ sound.some_host) j r
  rw [pushed]
  refine ⟨sound.some_host, sound.own, sound.throughput, ?_⟩
  intro key content
  by_cases before : queue.q key = []
  · have drawn : key ∈ places.map some := by
      by_contra absent
      simp [before, List.count_eq_zero.mpr absent] at content
    obtain ⟨h, member, rfl⟩ := List.mem_map.mp drawn
    exact ⟨h, sound.own ▸ source h member, rfl⟩
  · exact sound.known key before

theorem pop_sound (hosts : List Hostname) (queue : HostQueue Task) (host : Option Hostname) (sound : Sound hosts queue) :
    Sound hosts (queue.pop host).2 := by
  rcases queue.pop_cases host with ⟨-, popped⟩ | ⟨j, rest, -, content, popped⟩
  · rw [popped]
    exact sound
  · rw [popped]
    refine ⟨sound.some_host, sound.own, sound.throughput, ?_⟩
    intro key occupied
    apply sound.known key
    intro vacant
    apply occupied
    have shifted : Function.update queue.q host rest key = [] := by
      by_cases same : key = host
      · subst same
        simp [vacant] at content
      · rw [Function.update_of_ne same, vacant]
    simp [strike_eq, shifted]

theorem pop_alt_sound (hosts : List Hostname) (queue : HostQueue Task) (host : Option Hostname)
    (sound : Sound hosts queue) : Sound hosts (queue.popAlt host).2 := by
  obtain ⟨throughput, key, faithful, popped, -⟩ := queue.pop_alt_eq host sound.throughput
  rw [popped]
  exact pop_sound hosts _ key ⟨sound.some_host, sound.own, faithful, sound.known⟩

theorem pop_some (queue : HostQueue Task) (key : Option Hostname) (known : key ∈ queue.keys) (occupied : queue.q key ≠ []) :
    (queue.pop key).1 ≠ none := by
  rcases queue.pop_cases key with ⟨unknown | vacant, -⟩ | ⟨j, rest, -, -, popped⟩
  · exact absurd known unknown
  · exact absurd vacant occupied
  · simp [popped]

theorem pop_none (queue : HostQueue Task) (key : Option Hostname) (fruitless : (queue.pop key).1 = none) :
    (queue.pop key).2 = queue := by
  rcases queue.pop_cases key with ⟨-, popped⟩ | ⟨j, rest, -, -, popped⟩
  · rw [popped]
  · simp [popped] at fruitless

end HostQueue

end Pwrake
