import Mathlib.Algebra.BigOperators.Group.Multiset.Basic
import Mathlib.Algebra.Order.Group.Multiset
import Mathlib.Data.Multiset.Bind
import Mathlib.Tactic.Abel
import Pwrake.Invocations

set_option autoImplicit false

namespace Pwrake

namespace Operator

open Tracer

variable {Task Name Scope : Type*} [DecidableEq Task]

-- What a thread holds in its hands at the four stages between available_task
-- and the output queue.
def batched (s : Operator Task Name) : ThreadPc Task → Multiset Task
  | .invoking _ (.assign a) => s.batch a
  | .invoking _ (.push a) => s.batch a
  | _ => 0

def popped : ThreadPc Task → Multiset Task
  | .popped task => {task}
  | _ => 0

def running : ThreadPc Task → Multiset Task
  | .running task => {task}
  | .invoking inv _ => inv.nested.elim 0 fun nested => {nested.1}
  | _ => 0

def executed : ThreadPc Task → Multiset Task
  | .executed task => {task}
  | _ => 0

def total (s : Operator Task Name) (weight : ThreadPc Task → Multiset Task) : Multiset Task := (s.threads.map weight).sum

def returned (s : Operator Task Name) : List Task := s.calls.flatMap fun call => s.batch call.array

def outputted (s : Operator Task Name) : Multiset Task := (s.outputs.map fun content : List Task => (content : Multiset Task)).sum

-- Every task a call returned is in exactly one place: each line says where the
-- tasks that left one stage and have not left the next one are.
structure Ledger (s : Operator Task Name) : Prop where
  pushed : (s.returned : Multiset Task) = s.total s.batched + s.pushed
  started : (s.pushed : Multiset Task) = s.inputQueue.q + s.total popped + s.started
  ended : (s.started : Multiset Task) = s.total running + s.ended
  collected : (s.ended : Multiset Task) = s.total executed + s.outputted + s.collected
  distinct : s.returned.Nodup
  fetched : ∀ task, task ∈ s.fetched ↔ task ∈ s.returned ∨ task ∈ s.skipped
  invoked : ∀ task, task ∈ s.invoked ↔ task ∈ s.started ∨ task ∈ s.skipped
  skipped : ∀ task ∈ s.skipped, task ∉ s.returned

section Facts

omit [DecidableEq Task] in
theorem total_move (s after : Operator Task Name) (w : Nat) (old pc : ThreadPc Task) (stands : s.threads[w]? = some old)
    (threads : after.threads = s.threads.set w pc) (weight : ThreadPc Task → Multiset Task) :
    after.total weight + weight old = s.total weight + weight pc := by
  unfold total
  rw [threads]
  exact Slots.sum_set weight s.threads w old pc stands

omit [DecidableEq Task] in
theorem total_same (s after : Operator Task Name) (w : Nat) (old pc : ThreadPc Task) (stands : s.threads[w]? = some old)
    (threads : after.threads = s.threads.set w pc) (weight : ThreadPc Task → Multiset Task)
    (same : weight pc = weight old) : after.total weight = s.total weight := by
  unfold total
  rw [threads]
  exact Slots.sum_set_same weight s.threads w old pc stands same

omit [DecidableEq Task] in
theorem total_member (s : Operator Task Name) (w : Nat) (pc : ThreadPc Task) (stands : s.threads[w]? = some pc)
    (weight : ThreadPc Task → Multiset Task) (task : Task) (holds : task ∈ weight pc) : task ∈ s.total weight := by
  obtain ⟨rest, split⟩ := Slots.sum_lookup weight s.threads w pc stands
  unfold total
  rw [split]
  exact Multiset.mem_add.mpr (.inl holds)

omit [DecidableEq Task] in
theorem total_holder (s : Operator Task Name) (weight : ThreadPc Task → Multiset Task) (task : Task)
    (member : task ∈ s.total weight) : ∃ (w : Nat) (pc : ThreadPc Task), s.threads[w]? = some pc ∧ task ∈ weight pc := by
  unfold total at member
  rw [← Multiset.sum_coe] at member
  obtain ⟨part, inside, holds⟩ := Multiset.mem_join.mp member
  obtain ⟨pc, placed, rfl⟩ := List.mem_map.mp (Multiset.mem_coe.mp inside)
  obtain ⟨w, read⟩ := List.mem_iff_getElem?.mp placed
  exact ⟨w, pc, read, holds⟩

omit [DecidableEq Task] in
theorem outputted_member (s : Operator Task Name) (task : Task) (member : task ∈ s.outputted) :
    ∃ (i : Nat) (content : List Task), s.outputs[i]? = some content ∧ task ∈ content := by
  unfold outputted at member
  rw [← Multiset.sum_coe] at member
  obtain ⟨part, placed, inside⟩ := Multiset.mem_join.mp member
  obtain ⟨content, listed, rfl⟩ := List.mem_map.mp (Multiset.mem_coe.mp placed)
  obtain ⟨i, read⟩ := List.mem_iff_getElem?.mp listed
  exact ⟨i, content, read, Multiset.mem_coe.mp inside⟩

variable {s : Operator Task Name}

omit [DecidableEq Task] in
theorem ledger_started (ledger : Ledger s) : (s.started : Multiset Task) ≤ s.pushed := by
  rw [ledger.started]
  exact Multiset.le_add_left _ _

omit [DecidableEq Task] in
theorem ledger_ended (ledger : Ledger s) : (s.ended : Multiset Task) ≤ s.started := by
  rw [ledger.ended]
  exact Multiset.le_add_left _ _

omit [DecidableEq Task] in
theorem ledger_pushed (ledger : Ledger s) : (s.pushed : Multiset Task) ≤ s.returned := by
  rw [ledger.pushed]
  exact Multiset.le_add_left _ _

omit [DecidableEq Task] in
theorem pushed_nodup (ledger : Ledger s) : s.pushed.Nodup :=
  Multiset.coe_nodup.mp (Multiset.nodup_of_le (ledger_pushed ledger) (Multiset.coe_nodup.mpr ledger.distinct))

omit [DecidableEq Task] in
theorem started_nodup (ledger : Ledger s) : s.started.Nodup :=
  Multiset.coe_nodup.mp (Multiset.nodup_of_le (ledger_started ledger) (Multiset.coe_nodup.mpr (pushed_nodup ledger)))

omit [DecidableEq Task] in
theorem ended_nodup (ledger : Ledger s) : s.ended.Nodup :=
  Multiset.coe_nodup.mp (Multiset.nodup_of_le (ledger_ended ledger) (Multiset.coe_nodup.mpr (started_nodup ledger)))

omit [DecidableEq Task] in
theorem ledger_members (ledger : Ledger s) (task : Task) :
    (task ∈ s.ended → task ∈ s.started) ∧ (task ∈ s.started → task ∈ s.pushed) ∧ (task ∈ s.pushed → task ∈ s.returned) :=
  ⟨fun member => Multiset.mem_coe.mp (Multiset.mem_of_le (ledger_ended ledger) (Multiset.mem_coe.mpr member)),
    fun member => Multiset.mem_coe.mp (Multiset.mem_of_le (ledger_started ledger) (Multiset.mem_coe.mpr member)),
    fun member => Multiset.mem_coe.mp (Multiset.mem_of_le (ledger_pushed ledger) (Multiset.mem_coe.mpr member))⟩

omit [DecidableEq Task] in
theorem started_returned (ledger : Ledger s) (task : Task) (member : task ∈ s.started) : task ∈ s.returned :=
  have members := ledger_members ledger task
  members.2.2 (members.2.1 member)

omit [DecidableEq Task] in
theorem ended_returned (ledger : Ledger s) (task : Task) (member : task ∈ s.ended) : task ∈ s.returned :=
  started_returned ledger task ((ledger_members ledger task).1 member)

end Facts

section Steps

variable {app : Application Task Name Scope}

omit [DecidableEq Task] in
theorem ledger_inert (s after : Operator Task Name) (ledger : Ledger s) (returned : after.returned = s.returned)
    (batched : after.total after.batched = s.total s.batched) (popping : after.total popped = s.total popped)
    (runs : after.total running = s.total running) (executes : after.total executed = s.total executed)
    (pushed : after.pushed = s.pushed) (queued : after.inputQueue.q = s.inputQueue.q) (started : after.started = s.started)
    (ended : after.ended = s.ended) (outputs : after.outputted = s.outputted) (collected : after.collected = s.collected)
    (fetched : after.fetched = s.fetched) (invoked : after.invoked = s.invoked) (skipped : after.skipped = s.skipped) :
    Ledger after where
  pushed := by rw [returned, batched, pushed]; exact ledger.pushed
  started := by rw [pushed, queued, popping, started]; exact ledger.started
  ended := by rw [started, runs, ended]; exact ledger.ended
  collected := by rw [ended, executes, outputs, collected]; exact ledger.collected
  distinct := by rw [returned]; exact ledger.distinct
  fetched := by rw [fetched, returned, skipped]; exact ledger.fetched
  invoked := by rw [invoked, started, skipped]; exact ledger.invoked
  skipped := by rw [skipped, returned]; exact ledger.skipped

omit [DecidableEq Task] in
theorem ledger_shift (s after : Operator Task Name) (w : Nat) (old pc : ThreadPc Task) (ledger : Ledger s)
    (stands : s.threads[w]? = some old) (threads : after.threads = s.threads.set w pc)
    (calls : after.calls = s.calls) (batch : after.batch = s.batch)
    (same : s.batched pc = s.batched old ∧ popped pc = popped old ∧ running pc = running old ∧ executed pc = executed old)
    (pushed : after.pushed = s.pushed) (queued : after.inputQueue.q = s.inputQueue.q) (started : after.started = s.started)
    (ended : after.ended = s.ended) (outputs : after.outputted = s.outputted) (collected : after.collected = s.collected)
    (fetched : after.fetched = s.fetched) (invoked : after.invoked = s.invoked) (skipped : after.skipped = s.skipped) :
    Ledger after := by
  have weights : after.batched = s.batched := by
    funext pc
    unfold batched
    rw [batch]
  have moved := total_same s after w old pc stands threads
  refine ledger_inert s after ledger ?_ ?_ (moved popped same.2.1) (moved running same.2.2.1) (moved executed same.2.2.2)
    pushed queued started ended outputs collected fetched invoked skipped
  · unfold returned
    rw [calls, batch]
  · rw [weights]
    exact moved s.batched same.1

omit [DecidableEq Task] in
theorem ledger_call (s : Operator Task Name) (w : Nat) (root task : Task) (ledger : Ledger s)
    (stands : s.threads[w]? = some (.running task)) :
    Ledger { s with
      outputs := s.outputs ++ [[]]
      threads := s.threads.set w (.invoking ⟨root, s.outputs.length, some (task, s.threads.length)⟩ .reset) ++
        [.popping 0] } := by
  have moved := fun weight : ThreadPc Task → Multiset Task => Slots.sum_set_same weight s.threads w _
    (.invoking ⟨root, s.outputs.length, some (task, s.threads.length)⟩ .reset) stands
  have weights : ∀ weight : ThreadPc Task → Multiset Task,
      weight (.invoking ⟨root, s.outputs.length, some (task, s.threads.length)⟩ .reset) = weight (.running task) →
      weight (.popping 0) = 0 →
      ((s.threads.set w (.invoking ⟨root, s.outputs.length, some (task, s.threads.length)⟩ .reset) ++
        [ThreadPc.popping 0]).map weight).sum = s.total weight := by
    intro weight same nothing
    rw [List.map_append, List.sum_append, moved weight same]
    simp [total, nothing]
  exact ledger_inert s _ ledger rfl (weights s.batched rfl rfl) (weights popped rfl rfl) (weights running rfl rfl)
    (weights executed rfl rfl) rfl rfl rfl rfl (by simp [outputted]) rfl rfl rfl rfl

omit [DecidableEq Task] in
theorem ledger_pop_task (s : Operator Task Name) (w n : Nat) (cv : CondVar Nat) (task : Task) (rest : List Task)
    (ledger : Ledger s) (stands : s.threads[w]? = some (.popping n)) (content : s.inputQueue.q = task :: rest) :
    Ledger ({ s with inputQueue := { s.inputQueue with q := rest, cv := cv } }.setThread w (.popped task)) := by
  have moved := total_move s ({ s with inputQueue := { s.inputQueue with q := rest, cv := cv } }.setThread w (.popped task))
    w _ _ stands rfl
  have same := total_same s ({ s with inputQueue := { s.inputQueue with q := rest, cv := cv } }.setThread w (.popped task))
    w _ _ stands rfl
  refine { ledger with pushed := ?_, started := ?_, ended := ?_, collected := ?_ }
  · exact ledger.pushed.trans (congrArg (· + _) (same s.batched rfl).symm)
  · have gained := moved popped
    simp only [popped, add_zero] at gained
    have before := ledger.started
    rw [content, ← Multiset.cons_coe, ← Multiset.singleton_add] at before
    rw [gained]
    exact before.trans (by simp only [setThread]; abel)
  · exact ledger.ended.trans (congrArg (· + _) (same running rfl).symm)
  · exact ledger.collected.trans (congrArg (· + _ + _) (same executed rfl).symm)

theorem ledger_start (s : Operator Task Name) (w : Nat) (task : Task) (ledger : Ledger s)
    (stands : s.threads[w]? = some (.popped task)) :
    Ledger ({ s with invoked := insert task s.invoked, started := s.started ++ [task] }.setThread w (.running task)) := by
  have moved := total_move s
    ({ s with invoked := insert task s.invoked, started := s.started ++ [task] }.setThread w (.running task)) w _ _ stands rfl
  have same := total_same s
    ({ s with invoked := insert task s.invoked, started := s.started ++ [task] }.setThread w (.running task)) w _ _ stands rfl
  refine { ledger with pushed := ?_, started := ?_, ended := ?_, collected := ?_, invoked := ?_ }
  · exact ledger.pushed.trans (congrArg (· + _) (same s.batched rfl).symm)
  · have lost := moved popped
    simp only [popped, add_zero] at lost
    refine ledger.started.trans ?_
    rw [← lost]
    simp only [setThread, ← Multiset.coe_add, Multiset.coe_singleton]
    abel
  · have gained := moved running
    simp only [running, add_zero] at gained
    rw [gained]
    simp only [setThread, ← Multiset.coe_add, Multiset.coe_singleton, ledger.ended]
    abel
  · exact ledger.collected.trans (congrArg (· + _ + _) (same executed rfl).symm)
  · intro other
    have before := ledger.invoked other
    simp only [setThread, Finset.mem_insert, List.mem_append, List.mem_singleton, before]
    rw [or_left_comm, or_assoc]

omit [DecidableEq Task] in
theorem ledger_task_end (s : Operator Task Name) (w : Nat) (task : Task) (ledger : Ledger s)
    (stands : s.threads[w]? = some (.running task)) :
    Ledger ({ s with ended := s.ended ++ [task] }.setThread w (.executed task)) := by
  have moved := total_move s ({ s with ended := s.ended ++ [task] }.setThread w (.executed task)) w _ _ stands rfl
  have same := total_same s ({ s with ended := s.ended ++ [task] }.setThread w (.executed task)) w _ _ stands rfl
  refine { ledger with pushed := ?_, started := ?_, ended := ?_, collected := ?_ }
  · exact ledger.pushed.trans (congrArg (· + _) (same s.batched rfl).symm)
  · exact ledger.started.trans (congrArg (_ + · + _) (same popped rfl).symm)
  · have lost := moved running
    simp only [running, add_zero] at lost
    refine ledger.ended.trans ?_
    rw [← lost]
    simp only [setThread, ← Multiset.coe_add, Multiset.coe_singleton]
    abel
  · have gained := moved executed
    simp only [executed, add_zero] at gained
    rw [gained]
    simp only [setThread, ← Multiset.coe_add, Multiset.coe_singleton, ledger.collected, outputted]
    abel

omit [DecidableEq Task] in
theorem outputted_set (s : Operator Task Name) (i : Nat) (content fresh : List Task) (output : s.outputs[i]? = some content) :
    ((s.outputs.set i fresh).map fun content : List Task => (content : Multiset Task)).sum + content = s.outputted + fresh :=
  Slots.sum_set (fun content : List Task => (content : Multiset Task)) s.outputs i content fresh output

omit [DecidableEq Task] in
theorem ledger_complete (s : Operator Task Name) (w i : Nat) (task : Task) (content : List Task) (ledger : Ledger s)
    (stands : s.threads[w]? = some (.executed task)) (output : s.outputs[i]? = some content) :
    Ledger ({ s with outputs := s.outputs.set i (content ++ [task]) }.setThread w (.popping 0)) := by
  have moved := total_move s ({ s with outputs := s.outputs.set i (content ++ [task]) }.setThread w (.popping 0)) w _ _ stands rfl
  have same := total_same s ({ s with outputs := s.outputs.set i (content ++ [task]) }.setThread w (.popping 0)) w _ _ stands rfl
  refine { ledger with pushed := ?_, started := ?_, ended := ?_, collected := ?_ }
  · exact ledger.pushed.trans (congrArg (· + _) (same s.batched rfl).symm)
  · exact ledger.started.trans (congrArg (_ + · + _) (same popped rfl).symm)
  · exact ledger.ended.trans (congrArg (· + _) (same running rfl).symm)
  · have lost := moved executed
    simp only [executed, add_zero] at lost
    have gained := outputted_set s i content (content ++ [task]) output
    rw [← Multiset.coe_add, Multiset.coe_singleton, add_comm (content : Multiset Task), ← add_assoc] at gained
    refine ledger.collected.trans ?_
    rw [← lost]
    simp only [setThread, outputted, add_right_cancel gained]
    abel

omit [DecidableEq Task] in
theorem ledger_push (s : Operator Task Name) (w a : Nat) (inv : Invocation Task) (cv : CondVar Nat) (ledger : Ledger s)
    (stands : s.threads[w]? = some (.invoking inv (.push a))) :
    Ledger ({ s with
      inputQueue := { s.inputQueue with q := s.inputQueue.q ++ s.batch a, cv := cv }
      pushed := s.pushed ++ s.batch a }.setThread w (.invoking inv (.collect a 0))) := by
  have moved := total_move s ({ s with
      inputQueue := { s.inputQueue with q := s.inputQueue.q ++ s.batch a, cv := cv }
      pushed := s.pushed ++ s.batch a }.setThread w (.invoking inv (.collect a 0))) w _ _ stands rfl
  have same := total_same s ({ s with
      inputQueue := { s.inputQueue with q := s.inputQueue.q ++ s.batch a, cv := cv }
      pushed := s.pushed ++ s.batch a }.setThread w (.invoking inv (.collect a 0))) w _ _ stands rfl
  refine { ledger with pushed := ?_, started := ?_, ended := ?_, collected := ?_ }
  · have lost := moved s.batched
    simp only [batched, add_zero] at lost
    refine ledger.pushed.trans ?_
    rw [← lost]
    simp only [setThread, ← Multiset.coe_add]
    exact (add_right_comm _ _ _).trans (add_assoc _ _ _)
  · have kept := same popped rfl
    rw [kept]
    simp only [setThread, ← Multiset.coe_add, ledger.started]
    abel
  · exact ledger.ended.trans (congrArg (· + _) (same running rfl).symm)
  · exact ledger.collected.trans (congrArg (· + _ + _) (same executed rfl).symm)

-- The completion leaves the output queue whether or not it is included in a.
omit [DecidableEq Task] in
theorem ledger_take (s : Operator Task Name) (w a taken : Nat) (inv : Invocation Task) (stage : InvokePc) (b : Task)
    (rest : List Task) (ledger : Ledger s) (stands : s.threads[w]? = some (.invoking inv (.collect a taken)))
    (empty : s.batched (.invoking inv stage) = 0) (output : s.outputs[inv.outputQueue]? = some (b :: rest)) :
    Ledger ({ s with outputs := s.outputs.set inv.outputQueue rest, collected := s.collected ++ [b] }.setThread w
      (.invoking inv stage)) := by
  have same := total_same s
    ({ s with outputs := s.outputs.set inv.outputQueue rest, collected := s.collected ++ [b] }.setThread w (.invoking inv stage))
    w _ _ stands rfl
  refine { ledger with pushed := ?_, started := ?_, ended := ?_, collected := ?_ }
  · exact ledger.pushed.trans (congrArg (· + _) (same s.batched empty).symm)
  · exact ledger.started.trans (congrArg (_ + · + _) (same popped rfl).symm)
  · exact ledger.ended.trans (congrArg (· + _) (same running rfl).symm)
  · have lost := outputted_set s inv.outputQueue (b :: rest) rest output
    rw [← Multiset.cons_coe, ← Multiset.singleton_add, ← add_assoc] at lost
    have kept := same executed rfl
    rw [kept]
    refine ledger.collected.trans ?_
    rw [← add_right_cancel lost]
    simp only [setThread, outputted, ← Multiset.coe_add, Multiset.coe_singleton]
    abel

theorem traced_flags (s : Operator Task Name) (tracerState : TraceState Task) (allowed : Task → Prop)
    (needed : Task → Bool) (added : List Task) (ledger : Ledger s)
    (outcome : Outcome app needed allowed s.tracer tracerState added) :
    (∀ task, task ∈ tracerState.fetched ↔ task ∈ s.returned ++ added ∨ task ∈ (s.traced tracerState).skipped) ∧
      (∀ task, task ∈ tracerState.invoked ↔ task ∈ s.started ∨ task ∈ (s.traced tracerState).skipped) ∧
      (∀ task ∈ (s.traced tracerState).skipped, task ∉ s.returned ++ added) ∧ (s.returned ++ added).Nodup := by
  have skipped : ∀ task, task ∈ (s.traced tracerState).skipped ↔
      task ∈ s.skipped ∨ (task ∈ tracerState.invoked ∧ task ∉ s.invoked) := by
    intro task
    simp only [traced, Finset.mem_union, Finset.mem_sdiff]
  refine ⟨fun task => ?_, fun task => ?_, fun task member => ?_, ?_⟩
  · have before := ledger.fetched task
    have now := outcome.fetched task
    simp only [tracer] at now
    rw [now, before, skipped, List.mem_append]
    exact or_or_or_comm
  · have before := ledger.invoked task
    have kept : task ∈ s.invoked → task ∈ tracerState.invoked := fun member => outcome.invoked member
    rw [skipped, ← or_assoc, ← before]
    constructor
    · intro member
      by_cases early : task ∈ s.invoked
      · exact .inl early
      · exact .inr ⟨member, early⟩
    · rintro (early | ⟨member, -⟩)
      · exact kept early
      · exact member
  · have unfetched : ∀ other ∈ added, other ∉ s.fetched := fun other chosen => (outcome.chosen other chosen).2.1
    rw [List.mem_append]
    rintro (earlier | latest)
    · rcases (skipped task).mp member with before | ⟨invoked, absent⟩
      · exact ledger.skipped task before earlier
      · exact (outcome.dropped task invoked absent).2.1 ((ledger.fetched task).mpr (.inl earlier))
    · rcases (skipped task).mp member with before | ⟨invoked, -⟩
      · exact unfetched task latest ((ledger.fetched task).mpr (.inr before))
      · exact (outcome.chosen task latest).2.2.1 invoked
  · refine ledger.distinct.append outcome.distinct fun task earlier latest => ?_
    exact (outcome.chosen task latest).2.1 ((ledger.fetched task).mpr (.inl earlier))

omit [DecidableEq Task] in
theorem returns_returned (s after : Operator Task Name) (w : Nat) (inv : Invocation Task) (added : List Task)
    (fresh : ∀ call ∈ s.calls, call.array ≠ s.fetchedTasks) (returns : Returns app s after w inv added) :
    after.returned = s.returned ++ added := by
  unfold returned
  rw [returns.calls, List.flatMap_append]
  congr 1
  · exact List.flatMap_congr fun call member => by rw [returns.batch, if_neg (fresh call member)]
  · simp [returns.batch]

omit [DecidableEq Task] in
theorem returns_batched (s after : Operator Task Name) (w : Nat) (inv : Invocation Task) (added : List Task)
    (shape : Shape app s) (fresh : ∀ call ∈ s.calls, call.array ≠ s.fetchedTasks)
    (stands : s.threads[w]? = some (.invoking inv .trace)) (returns : Returns app s after w inv added) :
    after.total after.batched = s.total s.batched + added := by
  have others : s.threads.map after.batched = s.threads.map s.batched := by
    refine List.map_congr_left fun pc placed => ?_
    obtain ⟨j, read⟩ := List.mem_iff_getElem?.mp placed
    have apart : ∀ other stage a, pc = .invoking other stage → stage.array = some a → a ≠ s.fetchedTasks := by
      rintro other stage a rfl holds
      exact fresh _ (shape.current j other stage a read holds)
    cases pc with
    | invoking other stage =>
        cases stage with
        | assign a => simp only [batched, returns.batch, if_neg (apart other (.assign a) a rfl rfl)]
        | push a => simp only [batched, returns.batch, if_neg (apart other (.push a) a rfl rfl)]
        | _ => rfl
    | _ => rfl
  have moved := Slots.sum_set after.batched s.threads w _ (.invoking inv (.assign s.fetchedTasks)) stands
  have gained : after.batched (.invoking inv (.assign s.fetchedTasks)) = added := by simp [batched, returns.batch]
  have nothing : after.batched (.invoking inv .trace) = 0 := rfl
  rw [gained, nothing, add_zero, others] at moved
  unfold total
  rw [returns.threads]
  exact moved

section Fintype

variable [Fintype Task]

theorem ledger_batch (s : Operator Task Name) (w : Nat) (needed : Task → Bool) (inv : Invocation Task) (status : Status)
    (tracerState : TraceState Task) (shape : Shape app s) (ledger : Ledger s)
    (fresh : ∀ call ∈ s.calls, call.array ≠ s.fetchedTasks) (stands : s.threads[w]? = some (.invoking inv .trace))
    (result : availableTask app needed inv.root s.tracer = (.ok (some status), tracerState)) :
    Ledger (((s.traced tracerState).handOut ⟨s.fetchedTasks, inv.outputQueue⟩).setThread w
      (.invoking inv (.assign s.fetchedTasks))) := by
  obtain ⟨added, outcome, returns⟩ := trace_returns s w needed inv status tracerState shape fresh stands result
  obtain ⟨fetched, invoked, skipped, distinct⟩ := traced_flags s tracerState _ needed added ledger outcome
  have whole := returns_returned s _ w inv added fresh returns
  have same := total_same s (((s.traced tracerState).handOut ⟨s.fetchedTasks, inv.outputQueue⟩).setThread w
    (.invoking inv (.assign s.fetchedTasks))) w _ _ stands rfl
  refine ⟨?_, ?_, ?_, ?_, ?_, ?_, invoked, ?_⟩
  · rw [whole, returns_batched s _ w inv added shape fresh stands returns, ← Multiset.coe_add, ledger.pushed]
    exact add_right_comm _ _ _
  · exact ledger.started.trans (congrArg (_ + · + _) (same popped rfl).symm)
  · exact ledger.ended.trans (congrArg (· + _) (same running rfl).symm)
  · exact ledger.collected.trans (congrArg (· + _ + _) (same executed rfl).symm)
  · rw [whole]; exact distinct
  · rw [whole]; exact fetched
  · rw [whole]; exact skipped

theorem ledger_nil (s : Operator Task Name) (w : Nat) (needed : Task → Bool) (inv : Invocation Task)
    (tracerState : TraceState Task) (ledger : Ledger s) (stands : s.threads[w]? = some (.invoking inv .trace))
    (result : availableTask app needed inv.root s.tracer = (.ok none, tracerState)) :
    Ledger ((s.traced tracerState).setThread w (afterLoop inv)) := by
  obtain ⟨added, outcome⟩ := trace_outcome app needed inv.root s.tracer _ tracerState result
  obtain ⟨-, content, arrays⟩ := trace_nil s needed inv.root tracerState result
  have nothing : added = [] := by
    have appended := outcome.appended
    rw [content] at appended
    exact List.append_right_eq_self.mp appended.symm
  subst nothing
  obtain ⟨fetched, invoked, skipped, -⟩ := traced_flags s tracerState _ needed [] ledger outcome
  rw [List.append_nil] at fetched skipped
  have batch : (s.traced tracerState).batch = s.batch := by
    funext a
    simp only [Operator.batch, arrays]
  have weights : ((s.traced tracerState).setThread w (afterLoop inv)).batched = s.batched := by
    funext pc
    show (s.traced tracerState).batched pc = s.batched pc
    unfold batched
    rw [batch]
  have whole : ((s.traced tracerState).setThread w (afterLoop inv)).returned = s.returned := by
    show (s.calls.flatMap fun call => (s.traced tracerState).batch call.array) = s.returned
    rw [batch]
    rfl
  have held : s.batched (afterLoop inv) = 0 ∧ popped (afterLoop inv) = 0 ∧
      running (afterLoop inv) = running (.invoking inv .trace) ∧ executed (afterLoop inv) = 0 := by
    cases nested : inv.nested <;> simp [afterLoop, nested, batched, popped, running, executed]
  have same := total_same s ((s.traced tracerState).setThread w (afterLoop inv)) w _ _ stands rfl
  refine ⟨?_, ?_, ?_, ?_, ?_, ?_, invoked, ?_⟩
  · rw [whole, weights]
    exact ledger.pushed.trans (congrArg (· + _) (same s.batched held.1).symm)
  · exact ledger.started.trans (congrArg (_ + · + _) (same popped held.2.1).symm)
  · exact ledger.ended.trans (congrArg (· + _) (same running held.2.2.1).symm)
  · exact ledger.collected.trans (congrArg (· + _ + _) (same executed held.2.2.2).symm)
  · rw [whole]; exact ledger.distinct
  · rw [whole]; exact fetched
  · rw [whole]; exact skipped

theorem ledger_step (s after : Operator Task Name) (label : OperatorLabel Task) (shape : Shape app s) (ledger : Ledger s)
    (fresh : Fresh s label) (effect : Effect app s label after) : Ledger after := by
  have shift : ∀ (w : Nat) (old pc : ThreadPc Task) (after : Operator Task Name), s.threads[w]? = some old →
      after.threads = s.threads.set w pc → after.calls = s.calls → after.batch = s.batch →
      (s.batched pc = s.batched old ∧ popped pc = popped old ∧ running pc = running old ∧ executed pc = executed old) →
      after.pushed = s.pushed → after.inputQueue.q = s.inputQueue.q → after.started = s.started → after.ended = s.ended →
      after.outputted = s.outputted → after.collected = s.collected → after.fetched = s.fetched →
      after.invoked = s.invoked → after.skipped = s.skipped → Ledger after :=
    fun w old pc after stands => ledger_shift s after w old pc ledger stands
  have still : ∀ (w : Nat) (old pc : ThreadPc Task), s.threads[w]? = some old →
      (s.batched pc = s.batched old ∧ popped pc = popped old ∧ running pc = running old ∧ executed pc = executed old) →
      Ledger (s.setThread w pc) :=
    fun w old pc stands same => shift w old pc _ stands rfl rfl rfl same rfl rfl rfl rfl rfl rfl rfl rfl rfl
  cases effect with
  | popRetired w n wake stands =>
      exact shift w _ .exited _ stands rfl rfl rfl ⟨rfl, rfl, rfl, rfl⟩ rfl rfl rfl rfl rfl rfl rfl rfl rfl
  | popClosed w n wake cv stands =>
      exact shift w _ .exited _ stands rfl rfl rfl ⟨rfl, rfl, rfl, rfl⟩ rfl rfl rfl rfl rfl rfl rfl rfl rfl
  | popWait w n wake stands =>
      exact shift w _ (.popping n) _ stands rfl rfl rfl ⟨rfl, rfl, rfl, rfl⟩ rfl rfl rfl rfl rfl rfl rfl rfl rfl
  | popTask w n wake cv task rest stands awake notHead unfinished content =>
      exact ledger_pop_task s w n cv task rest ledger stands content
  | start w task stands => exact ledger_start s w task ledger stands
  | call w root task stands => exact ledger_call s w root task ledger stands
  | taskEnd w task stands => exact ledger_task_end s w task ledger stands
  | complete w i task content stands owner output => exact ledger_complete s w i task content ledger stands output
  | reset w inv stands =>
      exact shift w _ (.invoking inv .trace) _ stands rfl rfl (funext (batch_append s)) ⟨rfl, rfl, rfl, rfl⟩
        rfl rfl rfl rfl rfl rfl rfl rfl rfl
  | traceBatch w needed inv status tracerState stands result =>
      exact ledger_batch s w needed inv status tracerState shape ledger (fresh rfl) stands result
  | traceNil w needed inv tracerState stands result => exact ledger_nil s w needed inv tracerState ledger stands result
  | traceError w needed inv error tracerState stands result =>
      exact absurd result (available_task_no_error app needed inv.root s.tracer _ (shape.roots w inv .trace stands) error)
  | assign w a inv stands =>
      exact shift w _ (.invoking inv (.push a)) _ stands rfl rfl rfl ⟨rfl, rfl, rfl, rfl⟩ rfl rfl rfl rfl rfl rfl rfl rfl rfl
  | push w a inv wake cv stands => exact ledger_push s w a inv cv ledger stands
  | collect w a taken inv b rest stands short output =>
      exact ledger_take s w a taken inv (.collect a (taken + 1)) b rest ledger stands rfl output
  | stray w a taken inv b rest stands short output =>
      exact ledger_take s w a taken inv .raised b rest ledger stands rfl output
  | again w a taken inv stands => exact still w _ (.invoking inv .reset) stands ⟨rfl, rfl, rfl, rfl⟩
  | threadEnd w thread inv task stands =>
      exact shift w _ (.invoking inv (.joining thread)) _ stands rfl rfl rfl ⟨rfl, rfl, rfl, rfl⟩
        rfl rfl rfl rfl rfl rfl rfl rfl rfl
  | join w thread own inv task stands nested =>
      exact still w _ (.running task) stands ⟨rfl, rfl, by simp [running, nested], rfl⟩
  | invokeTask name rest root stands =>
      exact shift mainThread _ (.invoking ⟨root, s.outputs.length, none⟩ .reset) _ stands rfl rfl rfl ⟨rfl, rfl, rfl, rfl⟩
        rfl rfl rfl rfl (by simp [outputted, setThread]) rfl rfl rfl rfl
  | invokeUnknown name rest stands =>
      exact shift mainThread _ .exited _ stands rfl rfl rfl ⟨rfl, rfl, rfl, rfl⟩ rfl rfl rfl rfl rfl rfl rfl rfl rfl
  | finish wake cv stands =>
      exact shift mainThread _ .joinWorkers _ stands rfl rfl rfl ⟨rfl, rfl, rfl, rfl⟩ rfl rfl rfl rfl rfl rfl rfl rfl rfl
  | joinWorkers stands => exact still mainThread _ .idle stands ⟨rfl, rfl, rfl, rfl⟩

omit [DecidableEq Task] [Fintype Task] in
theorem ledger_new (n : Nat) (names : List Name) : Ledger (new n names : Operator Task Name) := by
  have nothing : ∀ weight : ThreadPc Task → Multiset Task, weight .idle = 0 → weight (.popping 0) = 0 →
      (new n names : Operator Task Name).total weight = 0 := by
    intro weight main worker
    simp [total, new, main, worker]
  exact ⟨by rw [nothing _ rfl rfl]; rfl, by rw [nothing _ rfl rfl]; rfl, by rw [nothing _ rfl rfl]; rfl,
    by rw [nothing _ rfl rfl]; rfl, List.nodup_nil, by simp [new, returned], by simp [new], by simp [new, returned]⟩

end Fintype

end Steps

end Operator

end Pwrake
