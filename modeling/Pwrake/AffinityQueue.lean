import Pwrake.HostQueue
import Pwrake.Relay

set_option autoImplicit false

namespace Pwrake

namespace HostQueue

variable {Task : Type*} [DecidableEq Task]

theorem ops_laws (locality : Task → List Hostname) (hosts : List Hostname) :
    QueueLaws (ops locality : QueueOps (HostQueue Task) Task (Option Hostname) Nat) (Sound hosts) where
  push := push_sound locality hosts
  pop := pop_sound hosts
  popAlt := pop_alt_sound hosts
  steals := by
    intro queue host sound occupied fruitless
    change (((queue.pop host).2).popAlt host).1 ≠ none
    rw [pop_none queue host fruitless]
    obtain ⟨throughput, key, -, popped, chosen⟩ := queue.pop_alt_eq host sound.throughput
    rw [popped]
    obtain ⟨content, stands⟩ := (occupied_iff hosts queue sound).mp occupied
    obtain ⟨h, known, rfl⟩ := sound.known content stands
    obtain ⟨member, filled⟩ := chosen ⟨h, sound.own ▸ known, stands⟩
    exact pop_some _ key member filled

end HostQueue

abbrev AffinityPool (Task : Type*) := Pool (HostQueue Task) Task

namespace AffinityPool

variable {Task : Type*}

-- AffinityQueue#initialize drops repeated hosts; the workers keep theirs.
-- placed holds the host of each worker's connection.
def init (hosts : List Hostname) (n : Nat) : AffinityPool Task := Pool.init (.new hosts.eraseDups) n

def isPopping : WorkerPc Task → Bool
  | .popping _ => true
  | _ => false

def companion (s : AffinityPool Task) (w : Nat) : Bool :=
  (List.range s.workers.length).any fun v => v != w && s.workers[v]?.any isPopping

-- The worker is about to find nothing for its host in its first two rounds,
-- and no other worker is in pop.
def lonely (placed : List Hostname) (s : AffinityPool Task) (w : Nat) : Bool :=
  match s.workers[w]? with
  | some (.checking n) => !s.queue.q.isEmpty && (s.queue.q.q placed[w]?).isEmpty && decide (n ≤ 1) && !companion s w
  | _ => false

def checker : PoolLabel Task Nat → Option Nat
  | .check w _ => some w
  | _ => none

def Accompanied (placed : List Hostname) (s : AffinityPool Task) (label : PoolLabel Task Nat) : Prop :=
  Pool.Open s label ∧ ∀ w ∈ checker label, lonely placed s w = false

instance (placed : List Hostname) (s : AffinityPool Task) (label : PoolLabel Task Nat) :
    Decidable (Accompanied placed s label) := by
  unfold Accompanied
  infer_instance

variable [DecidableEq Task]

def step (locality : Task → List Hostname) (placed : List Hostname) (s : AffinityPool Task) :
    PoolLabel Task Nat → Option (AffinityPool Task) :=
  Pool.step (HostQueue.ops locality) (fun w => placed[w]?) s

variable {hosts placed : List Hostname} {locality : Task → List Hostname}

theorem counted_run (some_host : hosts ≠ []) (guard : AffinityPool Task → PoolLabel Task Nat → Prop)
    (opened : ∀ s label, guard s label → Pool.Open s label) (n : Nat) (s : AffinityPool Task)
    (run : Machine.Run (step locality placed) guard (init hosts n) s) :
    Pool.Wired s ∧ Pool.Counted (HostQueue.Sound hosts.eraseDups) n s := by
  have wired : ∀ state, Machine.Run (step locality placed) guard (init hosts n) state → Pool.Wired state :=
    Pool.wired_run (HostQueue.ops locality) (fun w => placed[w]?) guard (.new hosts.eraseDups) n
  have distinct : hosts.eraseDups ≠ [] := by
    obtain ⟨h, member⟩ := List.exists_mem_of_ne_nil hosts some_host
    exact List.ne_nil_of_mem (List.mem_eraseDups.mpr member)
  refine ⟨wired s run, ?_⟩
  refine Machine.run_invariant (Pool.Counted (HostQueue.Sound hosts.eraseDups) n) (init hosts n)
    (Pool.counted_init _ n (HostQueue.new_sound _ distinct)) ?_ s run
  intro before after label earlier counted allowed taken
  exact Pool.counted_step (HostQueue.ops_laws locality hosts.eraseDups) _ n before after label (wired before earlier) counted
    (opened before label allowed) (Pool.step_effect _ _ before after label taken)

theorem turned_away_cases (s : AffinityPool Task) (sound : HostQueue.Sound hosts.eraseDups s.queue.q) (w n : Nat)
    (turned : Pool.TurnedAway (HostQueue.ops locality) (fun w => placed[w]?) s w n) :
    s.queue.q.q placed[w]? = [] ∧ n ≤ 1 := by
  obtain ⟨-, occupied, -, fruitless⟩ := turned
  constructor
  · by_contra content
    obtain ⟨h, known, named⟩ := sound.known _ content
    have member : placed[w]? ∈ s.queue.q.keys := (s.queue.q.mem_keys _).mpr (.inr ⟨h, sound.own ▸ known, named⟩)
    have served := HostQueue.pop_some s.queue.q _ member content
    unfold TaskQueue.take at fruitless
    cases result : s.queue.q.pop placed[w]? with
    | mk found left =>
        cases found with
        | none => simp [result] at served
        | some task => simp [HostQueue.ops, result] at fruitless
  · by_contra third
    obtain ⟨task, served⟩ :=
      (HostQueue.ops_laws locality hosts.eraseDups).take_steals s.queue.q placed[w]? n sound occupied (by omega)
    simp [served] at fruitless

-- On a single host something is always there for the only worker.
theorem turned_away_accompanied (some_host : hosts ≠ []) (same : placed.Perm hosts) (s : AffinityPool Task) (w n : Nat)
    (counted : Pool.Counted (HostQueue.Sound hosts.eraseDups) placed.length s)
    (turned : Pool.TurnedAway (HostQueue.ops locality) (fun w => placed[w]?) s w n) :
    ∃ (v : Nat) (pc : WorkerPc Task), v ≠ w ∧ s.workers[v]? = some pc := by
  have inside : w < s.workers.length := (List.getElem?_eq_some_iff.mp turned.1).1
  by_cases single : placed.length = 1
  · obtain ⟨h, rfl⟩ := List.length_eq_one_iff.mp single
    have only : hosts = [h] := List.perm_singleton.mp same.symm
    have first : w = 0 := by rw [counted.size, single] at inside; omega
    obtain ⟨nothing, -⟩ := turned_away_cases s counted.sound w n turned
    obtain ⟨key, content⟩ := (HostQueue.occupied_iff _ _ counted.sound).mp turned.2.1
    obtain ⟨other, known, rfl⟩ := counted.sound.known key content
    rw [only] at known
    have itself : other = h := by simpa using known
    simp [first, ← itself] at nothing
    exact absurd nothing content
  · have two : 2 ≤ s.workers.length := by
      have positive := List.length_pos_of_ne_nil some_host
      have equal := same.length_eq
      rw [counted.size]
      omega
    by_cases first : w = 0
    · exact ⟨1, _, by omega, List.getElem?_eq_getElem (by omega)⟩
    · exact ⟨0, _, by omega, List.getElem?_eq_getElem (by omega)⟩

theorem no_total_stall (locality : Task → List Hostname) (hosts placed : List Hostname) (some_host : hosts ≠ [])
    (same : placed.Perm hosts) (s : AffinityPool Task)
    (run : Machine.Run (step locality placed) Pool.Open (init hosts placed.length) s) :
    ((∃ key task, task ∈ s.queue.q.q key) → ∃ w < placed.length, w ∉ s.queue.cv.waiting) ∧
    (∀ w n : Nat, s.workers[w]? = some (.checking n) → n = 2 → (∃ key task, task ∈ s.queue.q.q key) →
      ∀ wake out queue, s.queue.popTurn (HostQueue.ops locality) w placed[w]? n wake = some (out, queue) →
        ∃ task, out = .task task) ∧
    (∀ w n : Nat, s.workers[w]? = some (.popping n) ∨ s.workers[w]? = some (.checking n) → n ≤ 2) := by
  have standards : Pool.Eligible fun _ : WorkerPc Task => True :=
    ⟨fun _ => trivial, fun _ => trivial, fun _ => trivial, fun _ _ => trivial⟩
  obtain ⟨wired, counted⟩ := counted_run some_host _ (fun _ _ allowed => allowed) placed.length s run
  have minded : Pool.Minded (HostQueue.ops locality) (fun _ => True) s := by
    refine Machine.run_invariant (Pool.Minded (HostQueue.ops locality) fun _ => True) _
      (Pool.minded_init _ _ _ placed.length) ?_ s run
    intro before after label earlier minded allowed taken
    obtain ⟨wired, counted⟩ := counted_run some_host _ (fun _ _ allowed => allowed) placed.length before earlier
    refine Pool.minded_step standards before after label wired counted.opened minded allowed
      (fun w n _ turned => ?_) (Pool.step_effect _ _ before after label taken)
    obtain ⟨v, pc, different, there⟩ := turned_away_accompanied some_host same before w n counted turned
    exact ⟨v, pc, different, there, trivial⟩
  have occupied : (∃ key task, task ∈ s.queue.q.q key) → s.queue.q.isEmpty = false := by
    rintro ⟨key, task, member⟩
    exact (HostQueue.occupied_iff _ _ counted.sound).mpr ⟨key, List.ne_nil_of_mem member⟩
  refine ⟨?_, ?_, ?_⟩
  · intro queued
    by_cases sleepers : s.queue.cv.waiting = []
    · have positive := List.length_pos_of_ne_nil some_host
      exact ⟨0, by rw [same.length_eq]; exact positive, by simp [sleepers]⟩
    · obtain ⟨v, pc, -, there, -, up⟩ := minded.awake (occupied queued) sleepers
      exact ⟨v, counted.size ▸ (List.getElem?_eq_some_iff.mp there).1, up⟩
  · intro w n stands third queued wake out queue turned
    rcases TaskQueue.pop_turn_cases _ s.queue queue w _ n wake out turned with
      ⟨retires, -, -⟩ | ⟨-, closed, -⟩ | ⟨-, -, vacant, -, -⟩ | ⟨-, -, -, rfl, -⟩
    · simp [wired.noRetirement] at retires
    · simp [counted.opened] at closed
    · exact absurd (occupied queued) (by simpa [HostQueue.ops] using vacant)
    · exact (HostQueue.ops_laws locality hosts.eraseDups).take_steals s.queue.q _ n counted.sound (occupied queued) (by omega)
  · rintro w n (stands | stands)
    · exact counted.patient w _ stands
    · exact counted.patient w _ stands

-- The worker of host b is sent back to sleep over a task of host a; the other
-- worker has not slept since.
theorem one_of_two_stays_awake :
    ∃ s : AffinityPool Nat, 7 ∈ s.queue.q.q (some ['a']) ∧ s.queue.cv.waiting = [0] ∧
      ∃ w < 2, w ∉ s.queue.cv.waiting := by
  obtain ⟨s, run, content, sleepers⟩ := Machine.run_of_exec (step (fun _ => [['a']]) [['b'], ['a']]) Pool.Open
    (fun s : AffinityPool Nat => 7 ∈ s.queue.q.q (some ['a']) ∧ s.queue.cv.waiting = [0])
    [.acquire 0, .check 0 none, .leave 0, .push [(7, 0)] (some 0), .acquire 0, .check 0 none, .leave 0]
    (init [['a'], ['b']] 2) (by decide)
  obtain ⟨awake, -⟩ := no_total_stall (fun _ => [['a']]) [['a'], ['b']] [['b'], ['a']] (by simp) (by decide) s run
  exact ⟨s, content, sleepers, awake ⟨some ['a'], 7, content⟩⟩

def atWork : WorkerPc Task → Bool
  | .executing _ | .leaving (.task _) => true
  | _ => false

-- Without hosts the queue reads as empty whatever is pushed, and nobody is
-- ever handed a task.
structure Hostless (s : AffinityPool Task) : Prop where
  bare : s.queue.q.hosts = []
  idle : ∀ (w : Nat) (pc : WorkerPc Task), s.workers[w]? = some pc → atWork pc = false

theorem push_all_hosts (locality : Task → List Hostname) (queue : HostQueue Task) (tasks : List (Task × Nat)) :
    (TaskQueue.pushAll (HostQueue.ops locality : QueueOps _ _ (Option Hostname) _) queue tasks).hosts = queue.hosts := by
  induction tasks generalizing queue with
  | nil => rfl
  | cons task rest ih =>
      have kept : (queue.push locality task.1 task.2).hosts = queue.hosts := by
        simp only [HostQueue.push, HostQueue.store_eq]
        split <;> rfl
      exact (ih _).trans kept

omit [DecidableEq Task] in
theorem hostless_set (s : AffinityPool Task) (hostless : Hostless s) (w : Nat) (pc : WorkerPc Task)
    (resting : atWork pc = false) : Hostless (s.setWorker w pc) := by
  refine ⟨hostless.bare, fun v found read => ?_⟩
  rcases Slots.lookup_set_cases s.workers w v pc found read with ⟨-, rfl⟩ | ⟨-, earlier⟩
  · exact resting
  · exact hostless.idle v found earlier

theorem hostless_step (s next : AffinityPool Task) (label : PoolLabel Task Nat) (hostless : Hostless s)
    (opened : Pool.Open s label)
    (effect : Pool.Effect (HostQueue.ops locality) (fun w => placed[w]?) s label next) : Hostless next := by
  cases effect with
  | push tasks wake cv free signalled => exact ⟨(push_all_hosts locality _ tasks).trans hostless.bare, hostless.idle⟩
  | acquire w n stands free awake =>
      exact hostless_set { s with m := some w, queue := { s.queue with cv := s.queue.cv.resume w } }
        ⟨hostless.bare, hostless.idle⟩ w (.checking n) rfl
  | check w n wake out queue stands turned =>
      have vacant : (HostQueue.ops locality : QueueOps _ _ (Option Hostname) _).isEmpty s.queue.q = true := by
        simp [HostQueue.ops, HostQueue.isEmpty, hostless.bare]
      have unserved : queue.q.hosts = [] ∧ atWork (.leaving out) = false := by
        rcases TaskQueue.pop_turn_cases _ s.queue queue w _ n wake out turned with
          ⟨-, rfl, rfl⟩ | ⟨-, -, rfl, cv, -, rfl⟩ | ⟨-, -, -, rfl, rfl⟩ | ⟨-, -, occupied, -⟩
        · exact ⟨hostless.bare, rfl⟩
        · exact ⟨hostless.bare, rfl⟩
        · exact ⟨hostless.bare, rfl⟩
        · simp [vacant] at occupied
      exact hostless_set { s with queue := queue, handed := s.record w out } ⟨unserved.1, hostless.idle⟩ w _ unserved.2
  | leave w out stands =>
      have freed : ∀ (cv : CondVar Nat) (pc : WorkerPc Task), atWork pc = false →
          Hostless ({ s with m := none, queue := { s.queue with cv := cv } }.setWorker w pc) := fun cv pc resting =>
        hostless_set { s with m := none, queue := { s.queue with cv := cv } } ⟨hostless.bare, hostless.idle⟩ w pc resting
      cases out with
      | wait n => exact freed (s.queue.cv.wait w) (.popping n) rfl
      | task task => exact absurd (hostless.idle w _ stands) (by simp [atWork])
      | retired => exact freed s.queue.cv .exited rfl
      | closed => exact freed s.queue.cv .exited rfl
  | taskEnd w task stands => exact hostless_set s hostless w (.popping 0) rfl
  | fail w task stands => exact hostless_set s hostless w .stopping rfl
  | stopEnter => exact opened.elim
  | stopRaise => exact opened.elim
  | stopSignal => exact opened.elim
  | stopLeave => exact opened.elim
  | finishRaise => exact opened.elim
  | finishSignal => exact opened.elim

theorem hostless_idle (locality : Task → List Hostname) (placed : List Hostname)
    (guard : AffinityPool Task → PoolLabel Task Nat → Prop) (opened : ∀ s label, guard s label → Pool.Open s label)
    (n : Nat) (s : AffinityPool Task) (run : Machine.Run (step locality placed) guard (init [] n) s) (w : Nat) (task : Task) :
    s.workers[w]? ≠ some (.executing task) := by
  have start : Hostless (init [] n : AffinityPool Task) := by
    refine ⟨rfl, fun v pc read => ?_⟩
    rw [Slots.lookup_replicate n v _ pc read]
    rfl
  have hostless : Hostless s :=
    Machine.run_invariant Hostless (init [] n) start
      (fun before after label _ earlier allowed taken => hostless_step before after label earlier
        (opened before label allowed) (Pool.step_effect _ _ before after label taken)) s run
  intro stands
  exact absurd (hostless.idle w _ stands) (by simp [atWork])

def insidePop : WorkerPc Task → Bool
  | .popping _ | .checking _ | .leaving _ => true
  | _ => false

-- A task is queued, a worker sleeps, another one executes, and nobody is in pop
-- to look at the queue.
structure Stalled (s : AffinityPool Task) : Prop where
  queued : ∃ key task, task ∈ s.queue.q.q key
  sleeper : s.queue.cv.waiting ≠ []
  busy : ∃ (w : Nat) (task : Task), s.workers[w]? = some (.executing task)
  quiet : s.queue.cv.notified = []
  deserted : ∀ (w : Nat) (pc : WorkerPc Task), s.workers[w]? = some pc → insidePop pc = true → w ∈ s.queue.cv.waiting

omit [DecidableEq Task] in
theorem companion_iff (s : AffinityPool Task) (w : Nat) :
    companion s w = true ↔ ∃ v n : Nat, v ≠ w ∧ s.workers[v]? = some (.popping n) := by
  simp only [companion, List.any_eq_true, List.mem_range, Bool.and_eq_true, bne_iff_ne]
  constructor
  · rintro ⟨v, -, different, popping⟩
    cases stands : s.workers[v]? with
    | none => simp [stands] at popping
    | some pc =>
        cases pc with
        | popping n => exact ⟨v, n, different, stands⟩
        | _ => simp [stands, isPopping] at popping
  · rintro ⟨v, n, different, stands⟩
    exact ⟨v, (List.getElem?_eq_some_iff.mp stands).1, different, by simp [stands, isPopping]⟩

theorem accompanied_workers_steal (locality : Task → List Hostname) (hosts placed : List Hostname)
    (s : AffinityPool Task)
    (run : Machine.Run (step locality placed) (Accompanied placed) (init hosts placed.length) s) : ¬ Stalled s := by
  intro stalled
  by_cases some_host : hosts = []
  · subst some_host
    obtain ⟨w, task, executing⟩ := stalled.busy
    exact hostless_idle locality placed _ (fun _ _ allowed => allowed.1) _ s run w task executing
  have standards : Pool.Eligible fun pc : WorkerPc Task => insidePop pc = true :=
    ⟨fun _ => rfl, fun _ => rfl, fun _ => rfl, fun _ inside => inside⟩
  have minded : Pool.Minded (HostQueue.ops locality) (fun pc => insidePop pc = true) s := by
    refine Machine.run_invariant (Pool.Minded (HostQueue.ops locality) fun pc => insidePop pc = true) _
      (Pool.minded_init _ _ _ placed.length) ?_ s run
    intro before after label earlier minded allowed taken
    obtain ⟨wired, counted⟩ := counted_run some_host _ (fun _ _ allowed => allowed.1) placed.length before earlier
    refine Pool.minded_step standards before after label wired counted.opened minded allowed.1 ?_
      (Pool.step_effect _ _ before after label taken)
    rintro w n ⟨wake, rfl⟩ turned
    obtain ⟨nothing, early⟩ := turned_away_cases before counted.sound w n turned
    have accompanied : companion before w = true := by
      have occupied : before.queue.q.isEmpty = false := turned.2.1
      have met : lonely placed before w = false := allowed.2 w rfl
      simpa [lonely, turned.1, occupied, nothing, early] using met
    obtain ⟨v, k, different, there⟩ := (companion_iff before w).mp accompanied
    exact ⟨v, .popping k, different, there, rfl⟩
  obtain ⟨-, counted⟩ := counted_run some_host _ (fun _ _ allowed => allowed.1) placed.length s run
  obtain ⟨key, task, member⟩ := stalled.queued
  have occupied : s.queue.q.isEmpty = false :=
    (HostQueue.occupied_iff _ _ counted.sound).mpr ⟨key, List.ne_nil_of_mem member⟩
  obtain ⟨v, pc, -, there, inside, up⟩ := minded.awake occupied stalled.sleeper
  exact up (stalled.deserted v pc there inside)

omit [DecidableEq Task] in
theorem lonely_cases (placed : List Hostname) (s : AffinityPool Task) (w : Nat) (turned : lonely placed s w = true) :
    ∃ n : Nat, s.workers[w]? = some (.checking n) ∧ s.queue.q.isEmpty = false ∧ s.queue.q.q placed[w]? = [] ∧ n ≤ 1 ∧
      ∀ u k : Nat, s.workers[u]? ≠ some (.popping k) := by
  unfold lonely at turned
  cases stands : s.workers[w]? with
  | none => simp [stands] at turned
  | some pc =>
      cases pc with
      | checking n =>
          simp only [stands, Bool.and_eq_true, Bool.not_eq_true', List.isEmpty_iff, decide_eq_true_eq] at turned
          obtain ⟨⟨⟨occupied, nothing⟩, early⟩, deserted⟩ := turned
          refine ⟨n, rfl, occupied, nothing, early, fun u k popping => ?_⟩
          by_cases same : u = w
          · rw [same, stands] at popping
            cases popping
          · rw [(companion_iff s w).mpr ⟨u, k, same, popping⟩] at deserted
            cases deserted
      | _ => simp [stands] at turned

theorem fruitless_turn (locality : Task → List Hostname) (queue : TaskQueue (HostQueue Task) Nat) (w n : Nat)
    (host : Option Hostname) (registered : queue.thEnd = []) (opened : queue.finished = false) (sleepers : queue.cv.waiting = [])
    (occupied : queue.q.isEmpty = false) (nothing : queue.q.q host = []) (early : n ≤ 1) :
    queue.popTurn (HostQueue.ops locality) w host n none = some (.wait (n + 1), queue) := by
  have fruitless : TaskQueue.take (HostQueue.ops locality) queue.q host n = (.wait (n + 1), queue.q) := by
    have popped : queue.q.pop host = (none, queue.q) := by
      rcases queue.q.pop_cases host with ⟨-, popped⟩ | ⟨j, rest, -, content, -⟩
      · exact popped
      · simp [nothing] at content
    have soon : ¬ n > 1 := by omega
    simp [TaskQueue.take, HostQueue.ops, popped, soon]
  have content : (HostQueue.ops locality : QueueOps (HostQueue Task) Task _ _).isEmpty queue.q = false := occupied
  have signalled : queue.signal none = some queue := by simp [TaskQueue.signal, CondVar.signal, sleepers]
  unfold TaskQueue.popTurn
  rw [if_neg (by simp [registered]), if_neg (by simp [opened]), if_neg (by simp [content])]
  simp only [fruitless, signalled, Option.map_some]

-- Without the condition the very next steps of that worker end in a stall.
theorem lonely_worker_stalls (locality : Task → List Hostname) (hosts placed : List Hostname)
    (s : AffinityPool Task) (run : Machine.Run (step locality placed) Pool.Open (init hosts placed.length) s)
    (w v : Nat) (task : Task) (turned : lonely placed s w = true) (busy : s.workers[v]? = some (.executing task)) :
    ∃ next, Machine.Run (step locality placed) Pool.Open s next ∧ Stalled next := by
  have some_host : hosts ≠ [] := by
    rintro rfl
    exact hostless_idle locality placed _ (fun _ _ allowed => allowed) _ s run v task busy
  obtain ⟨wired, counted⟩ := counted_run some_host _ (fun _ _ allowed => allowed) placed.length s run
  obtain ⟨n, stands, occupied, nothing, early, nobody⟩ := lonely_cases placed s w turned
  have sleepers : s.queue.cv.waiting = [] := by
    apply List.eq_nil_iff_forall_not_mem.mpr
    intro u member
    obtain ⟨k, popping⟩ := wired.waiters u member
    exact nobody u k popping
  have woken : s.queue.cv.notified = [] := by
    apply List.eq_nil_iff_forall_not_mem.mpr
    intro u member
    obtain ⟨k, popping⟩ := wired.woken u member
    exact nobody u k popping
  have looked := fruitless_turn locality s.queue w n placed[w]? wired.noRetirement counted.opened sleepers occupied nothing early
  let turnedAway := s.setWorker w (.leaving (.wait (n + 1)))
  let asleep := turnedAway.release w (.wait (n + 1))
  have left : turnedAway.workers[w]? = some (.leaving (.wait (n + 1))) := by
    rw [Pool.set_worker_lookup s w w _ _ stands, if_pos rfl]
  have check : step locality placed s (.check w none) = some turnedAway := by
    simp [step, Pool.step, stands, looked, turnedAway, Pool.setWorker, Pool.record]
  have leave : step locality placed turnedAway (.leave w) = some asleep := by
    simp [step, Pool.step, left, asleep]
  refine ⟨asleep, .tail turnedAway asleep (.leave w) (Machine.run_single s turnedAway (.check w none) trivial check) trivial
    leave, ?_⟩
  have places : ∀ u : Nat, asleep.workers[u]? = if u = w then some (.popping (n + 1)) else s.workers[u]? := by
    intro u
    have outer := Slots.lookup_set turnedAway.workers w u _ (.popping (n + 1)) left
    have inner := Pool.set_worker_lookup s w u _ (.leaving (.wait (n + 1))) stands
    change (turnedAway.workers.set w (.popping (n + 1)))[u]? = _
    rw [outer]
    by_cases same : u = w
    · rw [if_pos same, if_pos same]
    · rw [if_neg same, if_neg same, inner, if_neg same]
  have different : v ≠ w := by
    rintro rfl
    rw [stands] at busy
    cases busy
  have memory : asleep.queue.cv = ⟨[w], []⟩ := by
    simp [asleep, turnedAway, Pool.release, Pool.setWorker, CondVar.wait, sleepers, woken]
  refine ⟨?_, by simp [memory], ⟨v, task, by rw [places, if_neg different, busy]⟩, by simp [memory], ?_⟩
  · obtain ⟨key, content⟩ := (HostQueue.occupied_iff _ _ counted.sound).mp occupied
    obtain ⟨j, member⟩ := List.exists_mem_of_ne_nil _ content
    exact ⟨key, j, member⟩
  · intro u pc there inside
    by_cases same : u = w
    · simp [memory, same]
    · rw [places, if_neg same] at there
      have owner := wired.owner w _ stands rfl
      cases pc with
      | popping k => exact absurd there (nobody u k)
      | checking k => exact absurd (Option.some.inj ((wired.owner u _ there rfl).symm.trans owner)) same
      | leaving out => exact absurd (Option.some.inj ((wired.owner u _ there rfl).symm.trans owner)) same
      | _ => cases inside

-- Host a runs a task and gets another one; the worker of host b is woken for
-- it, finds nothing of its own and goes back to sleep.
theorem idle_worker_sleeps :
    ¬ ∀ (locality : Nat → List Hostname) (hosts placed : List Hostname), hosts ≠ [] → placed.Perm hosts →
      2 ≤ placed.length → ∀ s : AffinityPool Nat,
        Machine.Run (step locality placed) Pool.Open (init hosts placed.length) s → ¬ Stalled s := by
  intro claimed
  obtain ⟨s, run, content, sleepers, places, woken⟩ := Machine.run_of_exec (step (fun _ => [['a']]) [['a'], ['b']]) Pool.Open
    (fun s : AffinityPool Nat => 7 ∈ s.queue.q.q (some ['a']) ∧ s.queue.cv.waiting = [1] ∧
      s.workers = [.executing 5, .popping 1] ∧ s.queue.cv.notified = [])
    [.push [(5, 0)] none, .acquire 0, .check 0 none, .leave 0, .acquire 1, .check 1 none, .leave 1,
      .push [(7, 0)] (some 1), .acquire 1, .check 1 none, .leave 1]
    (init [['a'], ['b']] 2) (by decide)
  refine claimed (fun _ => [['a']]) [['a'], ['b']] [['a'], ['b']] (by simp) (by simp) (by simp) s run
    ⟨⟨_, 7, content⟩, ?_, ?_, ?_, ?_⟩
  · simp [sleepers]
  · exact ⟨0, 5, by simp [places]⟩
  · exact woken
  · intro w pc there inside
    rw [places] at there
    rcases w with _ | _ | w
    · have executing : pc = .executing 5 := by simpa [eq_comm] using there
      simp [executing, insidePop] at inside
    · simp [sleepers]
    · simp at there

-- Two sleepers wake each other until the third round steals.
theorem two_sleepers_steal :
    ∃ s : AffinityPool Nat, s.handed = [(5, 0), (7, 1)] ∧ s.workers = [.executing 5, .executing 7, .popping 2] ∧
      ¬ Stalled s := by
  obtain ⟨s, run, handed, places⟩ := Machine.run_of_exec (step (fun _ => [['a']]) [['a'], ['b'], ['c']])
    (Accompanied [['a'], ['b'], ['c']])
    (fun s : AffinityPool Nat => s.handed = [(5, 0), (7, 1)] ∧ s.workers = [.executing 5, .executing 7, .popping 2])
    [.push [(5, 0)] none, .acquire 0, .check 0 none, .leave 0, .acquire 1, .check 1 none, .leave 1,
      .acquire 2, .check 2 none, .leave 2, .push [(7, 0)] (some 1), .acquire 1, .check 1 (some 2), .leave 1,
      .acquire 2, .check 2 (some 1), .leave 2, .acquire 1, .check 1 (some 2), .leave 1,
      .acquire 2, .check 2 (some 1), .leave 2, .acquire 1, .check 1 (some 2), .leave 1]
    (init [['a'], ['b'], ['c']] 3) (by decide +kernel)
  exact ⟨s, handed, places, accompanied_workers_steal _ [['a'], ['b'], ['c']] [['a'], ['b'], ['c']] s run⟩

end AffinityPool

end Pwrake
