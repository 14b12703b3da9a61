import Pwrake.InvokeEnds
import Pwrake.InvokeHalted
import Pwrake.InvokeProgress
import Pwrake.InvokeRake
import Pwrake.Refinement

set_option autoImplicit false

namespace Pwrake

namespace InvokeTask

open Tracer

variable {Task Name Scope : Type*} [DecidableEq Task] [Fintype Task]

-- Operator#initialize with the plain queue class, whose pop ignores the host.
def simpleStep (app : Application Task Name Scope) (root : Task) :
    InvokeTask (SimpleQueue Task) Task → InvokeLabel Task Unit → Option (InvokeTask (SimpleQueue Task) Task) :=
  step app root SimpleQueue.ops fun _ => ()

-- The same with AffinityQueue. The w-th worker pops for the host that its
-- connection is placed on.
def affinityStep (app : Application Task Name Scope) (root : Task) (placed : List Hostname) :
    InvokeTask (HostQueue Task) Task → InvokeLabel Task (List Hostname × Nat) → Option (InvokeTask (HostQueue Task) Task) :=
  step app root HostQueue.placing fun w => placed[w]?

def simpleStart (n : Nat) : InvokeTask (SimpleQueue Task) Task := new [] n

def affinityStart (hosts placed : List Hostname) : InvokeTask (HostQueue Task) Task :=
  new (.new hosts.eraseDups) placed.length

section Queues

variable {app : Application Task Name Scope} {root : Task}

theorem some_host_left (hosts : List Hostname) (some_host : hosts ≠ []) : hosts.eraseDups ≠ [] := by
  obtain ⟨h, member⟩ := List.exists_mem_of_ne_nil hosts some_host
  exact List.ne_nil_of_mem (List.mem_eraseDups.mpr member)

omit [Fintype Task] in
theorem new_vacant (hosts : List Hostname) : (HostQueue.new hosts : HostQueue Task).queued = ∅ := by
  refine Finset.eq_empty_iff_forall_notMem.mpr fun task listed => ?_
  obtain ⟨h, -, stands⟩ := (HostQueue.mem_queued _ task).mp listed
  exact absurd stands List.not_mem_nil

theorem simple_kept (guard : InvokeTask (SimpleQueue Task) Task → InvokeLabel Task Unit → Prop) (n : Nat)
    (s : InvokeTask (SimpleQueue Task) Task) (run : Machine.Run (simpleStep app root) guard (simpleStart n) s) :
    Kept app root List.Nodup List.toFinset s :=
  kept_run SimpleQueue.simple_store [] List.nodup_nil rfl n s run

theorem affinity_kept (guard : InvokeTask (HostQueue Task) Task → InvokeLabel Task (List Hostname × Nat) → Prop)
    (hosts placed : List Hostname) (some_host : hosts ≠ []) (s : InvokeTask (HostQueue Task) Task)
    (run : Machine.Run (affinityStep app root placed) guard (affinityStart hosts placed) s) :
    Kept app root (HostQueue.Rostered hosts.eraseDups) HostQueue.queued s :=
  kept_run (HostQueue.host_store hosts.eraseDups) _ (HostQueue.new_rostered _ (some_host_left hosts some_host)) (new_vacant _)
    placed.length s run

end Queues

theorem invoke_task_orderly (app : Application Task Name Scope) (root : Task) :
    (∀ (n : Nat) (s : InvokeTask (SimpleQueue Task) Task),
      Machine.Run (simpleStep app root) (fun _ _ => True) (simpleStart n) s → Orderly app root s) ∧
    ∀ (hosts placed : List Hostname) (s : InvokeTask (HostQueue Task) Task), hosts ≠ [] →
      Machine.Run (affinityStep app root placed) (fun _ _ => True) (affinityStart hosts placed) s → Orderly app root s :=
  ⟨fun n s run => kept_orderly (simple_kept _ n s run),
    fun hosts placed s some_host run => kept_orderly (affinity_kept _ hosts placed some_host s run)⟩

-- The leaves are pushed for different hosts and each worker takes its own.
def leafTaken : List (InvokeLabel (Fin 5) (List Hostname × Nat)) :=
  [.trace (fun _ => true), .push (fun task => (if task.val = 1 then [['a']] else [['b']], 0)) none,
    .worker (.acquire 0), .worker (.check 0 none), .worker (.leave 0), .worker (.acquire 1), .worker (.check 1 none),
    .worker (.leave 1)]

-- Leaf 1 fails; leaf 2 is still executed, and 0 is not.
def leafFails : List (InvokeLabel (Fin 5) (List Hostname × Nat)) :=
  leafTaken ++ [.start 0, .start 1, .fail 0, .worker (.stopEnter 0), .worker (.stopRaise 0), .worker (.stopSignal 0 none),
    .execute 1, .complete 1, .die 0, .abort]

theorem invoke_task_orderly_leaf :
    ∃ s : InvokeTask (HostQueue (Fin 5)) (Fin 5), s.failed = [1] ∧ s.ended = [2] ∧ Orderly (graph Operator.twoLeaves) 0 s := by
  obtain ⟨s, run, failed, ended⟩ := Machine.run_of_exec (affinityStep (graph Operator.twoLeaves) 0 [['a'], ['b']]) (fun _ _ => True)
    (fun s => s.failed = [1] ∧ s.ended = [2]) leafFails (affinityStart [['a'], ['b']] [['a'], ['b']]) (by decide)
  exact ⟨s, failed, ended, (invoke_task_orderly (graph Operator.twoLeaves) 0).2 _ _ s (by decide) run⟩

theorem invoke_task_concludes (app : Application Task Name Scope) (root : Task) :
    (∀ (n : Nat) (s : InvokeTask (SimpleQueue Task) Task), s.main = .returned →
      Machine.Run (simpleStep app root) (fun _ _ => True) (simpleStart n) s → Concluded app root s) ∧
    ∀ (hosts placed : List Hostname) (s : InvokeTask (HostQueue Task) Task), hosts ≠ [] → s.main = .returned →
      Machine.Run (affinityStep app root placed) (fun _ _ => True) (affinityStart hosts placed) s → Concluded app root s :=
  ⟨fun n s returned run => kept_concluded (simple_kept _ n s run) returned,
    fun hosts placed s some_host returned run => kept_concluded (affinity_kept _ hosts placed some_host s run) returned⟩

-- Each leaf is executed in turn, then 0, and finish waits for the worker.
def leafRound (wake : Option Nat) : List (InvokeLabel (Fin 5) Unit) :=
  [.worker (.acquire 0), .worker (.check 0 wake), .worker (.leave 0), .start 0, .execute 0, .complete 0]

def leafBuilds : List (InvokeLabel (Fin 5) Unit) :=
  [.trace (fun _ => true), .push (fun _ => ()) none] ++ leafRound none ++ leafRound none ++
    [.collect, .collect, .again, .trace (fun _ => true), .push (fun _ => ()) none] ++ leafRound none ++
    [.collect, .again, .trace (fun _ => true), .finishRaise, .finishSignal none, .worker (.acquire 0), .worker (.check 0 none),
      .worker (.leave 0), .join, .join]

theorem invoke_task_concludes_leaf :
    ∃ s : InvokeTask (SimpleQueue (Fin 5)) (Fin 5), s.main = .returned ∧ s.raised = false ∧ s.ended = [1, 2, 0] ∧
      Concluded (graph Operator.twoLeaves) 0 s := by
  obtain ⟨s, run, returned, quiet, ended⟩ := Machine.run_of_exec (simpleStep (graph Operator.twoLeaves) 0) (fun _ _ => True)
    (fun s => s.main = .returned ∧ s.raised = false ∧ s.ended = [1, 2, 0]) leafBuilds (simpleStart 1) (by decide)
  exact ⟨s, returned, quiet, ended, (invoke_task_concludes (graph Operator.twoLeaves) 0).1 1 s returned run⟩

-- What is still to come after @finished was raised, by finish or by the stop
-- of a dying worker: nothing is handed out, and a worker may start what it has
-- in its hands.
structure Closing (n : Nat) {Queue : Type*} (s next : InvokeTask Queue Task) : Prop where
  handed : next.pool.handed = s.pool.handed
  started : ∃ more : List Task, next.started = s.started ++ more ∧ (more : Multiset Task) ≤ s.pool.carried ∧ more.length ≤ n

theorem hand_out_closes (app : Application Task Name Scope) (root : Task) :
    (∀ (n : Nat) (s next : InvokeTask (SimpleQueue Task) Task),
      Machine.Run (simpleStep app root) (fun _ _ => True) (simpleStart n) s → s.pool.queue.finished = true →
      Machine.Run (simpleStep app root) (fun _ _ => True) s next → Closing n s next) ∧
    ∀ (hosts placed : List Hostname) (s next : InvokeTask (HostQueue Task) Task), hosts ≠ [] →
      Machine.Run (affinityStep app root placed) (fun _ _ => True) (affinityStart hosts placed) s → s.pool.queue.finished = true →
      Machine.Run (affinityStep app root placed) (fun _ _ => True) s next → Closing placed.length s next := by
  constructor
  · intro n s next run finished later
    have halted := halted_run s next finished later
    have orderly := kept_orderly (simple_kept _ n next (Machine.run_trans _ s next run later))
    exact ⟨halted.pool.handed, size_run [] n s run ▸ halted_starts s next halted orderly.once⟩
  · intro hosts placed s next some_host run finished later
    have halted := halted_run s next finished later
    have orderly := kept_orderly (affinity_kept _ hosts placed some_host next (Machine.run_trans _ s next run later))
    exact ⟨halted.pool.handed, size_run _ placed.length s run ▸ halted_starts s next halted orderly.once⟩

-- Worker 0 raises the flag while worker 1 has leaf 2 in its hands.
theorem hand_out_closes_leaf :
    ∃ s next : InvokeTask (HostQueue (Fin 5)) (Fin 5), s.started = [1] ∧ next.started = [1, 2] ∧ Closing 2 s next := by
  obtain ⟨s, run, finished, started, onward⟩ :=
    Machine.run_of_exec (affinityStep (graph Operator.twoLeaves) 0 [['a'], ['b']]) (fun _ _ => True)
      (fun s => s.pool.queue.finished = true ∧ s.started = [1] ∧
        (Machine.exec (affinityStep (graph Operator.twoLeaves) 0 [['a'], ['b']]) (fun _ _ => True) s [.start 1]).any
          (fun next => decide (next.started = [1, 2])) = true)
      (leafTaken ++ [.start 0, .fail 0, .worker (.stopEnter 0), .worker (.stopRaise 0)])
      (affinityStart [['a'], ['b']] [['a'], ['b']]) (by decide)
  obtain ⟨next, later, more⟩ :=
    Machine.run_of_exec (affinityStep (graph Operator.twoLeaves) 0 [['a'], ['b']]) (fun _ _ => True)
      (fun next => next.started = [1, 2]) [.start 1] s onward
  exact ⟨s, next, started, more, (hand_out_closes (graph Operator.twoLeaves) 0).2 _ _ s next (by decide) run finished later⟩

-- Every run of invoke_task comes to its end, and it ends nowhere but at the
-- return: until then some thread can take its next step, whatever needed?
-- answers. With a single worker the statements of finish may lose the wakeup
-- that its pop waits for.
theorem invoke_task_returns (app : Application Task Name Scope) (root : Task) :
    (∀ n : Nat, ¬ Machine.Endless (simpleStep app root) (fun _ _ => True) (simpleStart n) ∧
      (2 ≤ n → ∀ s : InvokeTask (SimpleQueue Task) Task,
        Machine.Run (simpleStep app root) (fun _ _ => True) (simpleStart n) s → s.main ≠ .returned →
        ∀ needed, Enabled app root SimpleQueue.ops (fun _ => ()) needed s)) ∧
    ∀ hosts placed : List Hostname, hosts ≠ [] →
      ¬ Machine.Endless (affinityStep app root placed) (fun _ _ => True) (affinityStart hosts placed) ∧
      (2 ≤ placed.length → ∀ s : InvokeTask (HostQueue Task) Task,
        Machine.Run (affinityStep app root placed) (fun _ _ => True) (affinityStart hosts placed) s → s.main ≠ .returned →
        ∀ needed, Enabled app root HostQueue.placing (fun w => placed[w]?) needed s) := by
  refine ⟨fun n => ⟨?_, fun two s run running needed => ?_⟩, fun hosts placed some_host => ⟨?_, fun two s run running needed => ?_⟩⟩
  · exact invoke_ends SimpleQueue.simple_store [] List.nodup_nil rfl n
  · exact going_progress SimpleQueue.simple_store two
      (going_run SimpleQueue.simple_store [] List.nodup_nil rfl n two s run) needed running
  · exact invoke_ends (HostQueue.host_store hosts.eraseDups) _ (HostQueue.new_rostered _ (some_host_left hosts some_host))
      (new_vacant _) placed.length
  · exact going_progress (HostQueue.host_store hosts.eraseDups) two
      (going_run (HostQueue.host_store hosts.eraseDups) _ (HostQueue.new_rostered _ (some_host_left hosts some_host))
        (new_vacant _) placed.length two s run) needed running

theorem invoke_task_returns_leaf :
    ¬ Machine.Endless (affinityStep (graph Operator.twoLeaves) 0 [['a'], ['b']]) (fun _ _ => True)
        (affinityStart [['a'], ['b']] [['a'], ['b']]) ∧
      ∃ s : InvokeTask (HostQueue (Fin 5)) (Fin 5), s.failed = [1] ∧
        Enabled (graph Operator.twoLeaves) 0 HostQueue.placing (fun w => ([['a'], ['b']] : List Hostname)[w]?) (fun _ => true) s := by
  obtain ⟨ends, onward⟩ := (invoke_task_returns (graph Operator.twoLeaves) 0).2 [['a'], ['b']] [['a'], ['b']] (by decide)
  obtain ⟨s, run, failed, running⟩ := Machine.run_of_exec (affinityStep (graph Operator.twoLeaves) 0 [['a'], ['b']]) (fun _ _ => True)
    (fun s => s.failed = [1] ∧ s.main ≠ .returned) leafFails (affinityStart [['a'], ['b']] [['a'], ['b']]) (by decide)
  exact ⟨ends, s, failed, onward (by decide) s run running fun _ => true⟩

-- What the workers execute is what a sequential Rake executes that asks the
-- same needed?, in an order that Rake could have taken.
theorem invoke_task_refines_rake (app : Application Task Name Scope) (root : Task) (buildable : Buildable app root)
    (oracle : Task → Finset Task → Bool) (reads : Rake.ReadsBelow app oracle) :
    ∃ rake, Rake.invoke app oracle (Fintype.card Task + 1) root ⟨∅, []⟩ = some rake ∧
      (∀ (n : Nat) (s : InvokeTask (SimpleQueue Task) Task),
        Machine.Run (simpleStep app root) (Consults oracle) (simpleStart n) s → Refines app rake.executed s) ∧
      ∀ (hosts placed : List Hostname) (s : InvokeTask (HostQueue Task) Task), hosts ≠ [] →
        Machine.Run (affinityStep app root placed) (Consults oracle) (affinityStart hosts placed) s →
          Refines app rake.executed s := by
  obtain ⟨rake, ran, executes⟩ := Rake.invoke_executes reads root buildable
  refine ⟨rake, ran, fun n s run => ?_, fun hosts placed s some_host run => ?_⟩
  · exact consulting_refines SimpleQueue.simple_store [] List.nodup_nil rfl reads buildable rake.executed executes n s run
  · exact consulting_refines (HostQueue.host_store hosts.eraseDups) _ (HostQueue.new_rostered _ (some_host_left hosts some_host))
      (new_vacant _) reads buildable rake.executed executes placed.length s run

-- Leaf 1 is skipped; leaf 2 is executed and 0 asks about it.
theorem invoke_task_refines_rake_leaf :
    ∃ s : InvokeTask (SimpleQueue (Fin 5)) (Fin 5), s.main = .returned ∧ s.ended = [2, 0] ∧
      ∃ rake, Rake.invoke (graph Operator.twoLeaves) Operator.leafNeeded 6 0 ⟨∅, []⟩ = some rake ∧
        Refines (graph Operator.twoLeaves) rake.executed s := by
  obtain ⟨s, run, returned, ended⟩ := Machine.run_of_exec (simpleStep (graph Operator.twoLeaves) 0) (Consults Operator.leafNeeded)
    (fun s => s.main = .returned ∧ s.ended = [2, 0])
    ([.trace (fun task => Operator.leafNeeded task ∅), .push (fun _ => ()) none] ++ leafRound none ++
      [.collect, .again, .trace (fun task => Operator.leafNeeded task {2}), .push (fun _ => ()) none] ++ leafRound none ++
      [.collect, .again, .trace (fun task => Operator.leafNeeded task {2, 0}), .finishRaise, .finishSignal none,
        .worker (.acquire 0), .worker (.check 0 none), .worker (.leave 0), .join, .join]) (simpleStart 1) (by decide)
  obtain ⟨rake, ran, simple, -⟩ := invoke_task_refines_rake (graph Operator.twoLeaves) 0 (Operator.two_leaves_buildable 0)
    Operator.leafNeeded Operator.leaf_needed_reads_below
  exact ⟨s, returned, ended, rake, ran, simple 1 s run⟩

end InvokeTask

end Pwrake
