import Pwrake.Ledger

set_option autoImplicit false

namespace Pwrake

namespace Operator

open Tracer

variable {Task Name Scope : Type*} [DecidableEq Task]

-- Which way the completions go: to the call of invoke that was given the task,
-- as long as that call has not counted its batch to the end.
structure Routing (s : Operator Task Name) : Prop where
  owned : ∀ call ∈ s.calls, (∀ (w : Nat) inv, s.threads[w]? ≠ some (.invoking inv (.assign call.array))) →
    ∀ task ∈ s.batch call.array, s.outputQueue task = some call.outputQueue
  routed : ∀ (i : Nat) content, s.outputs[i]? = some content → ∀ task ∈ content,
    ∃ call ∈ s.calls, call.outputQueue = i ∧ task ∈ s.batch call.array
  counted : ∀ (w : Nat) inv a taken, s.threads[w]? = some (.invoking inv (.collect a taken)) →
    (s.collected.filter (· ∈ s.batch a)).length = taken
  closed : ∀ call ∈ s.calls, (∃ (w : Nat) (inv : Invocation Task) (stage : InvokePc),
      s.threads[w]? = some (.invoking inv stage) ∧ stage.array = some call.array) ∨
    ∀ task ∈ s.batch call.array, task ∈ s.collected
  sound : ∀ (w : Nat) inv, s.threads[w]? ≠ some (.invoking inv .raised)

section Facts

variable {app : Application Task Name Scope} {s : Operator Task Name}

omit [DecidableEq Task] in
theorem batch_owner (ledger : Ledger s) (call other : BatchCall) (listed : call ∈ s.calls) (otherListed : other ∈ s.calls)
    (task : Task) (member : task ∈ s.batch call.array) (shared : task ∈ s.batch other.array) : call = other := by
  by_contra different
  have apart := (List.nodup_flatMap.mp ledger.distinct).2
  have symmetric : Std.Symm (Function.onFun List.Disjoint fun call : BatchCall => s.batch call.array) :=
    ⟨fun _ _ disjoint => List.Disjoint.symm disjoint⟩
  exact apart.forall listed otherListed different member shared

omit [DecidableEq Task] in
theorem current_call (shape : Shape app s) (w : Nat) (inv : Invocation Task) (stage : InvokePc) (call : BatchCall)
    (stands : s.threads[w]? = some (.invoking inv stage)) (holds : stage.array = some call.array) (listed : call ∈ s.calls) :
    call.outputQueue = inv.outputQueue := by
  have own := shape.current w inv stage call.array stands holds
  have same : call = ⟨call.array, inv.outputQueue⟩ :=
    List.inj_on_of_nodup_map shape.arrays listed own rfl
  exact congrArg BatchCall.outputQueue same

omit [DecidableEq Task] in
theorem array_holder (shape : Shape app s) (w v : Nat) (inv other : Invocation Task) (stage next : InvokePc) (a : Nat)
    (stands : s.threads[w]? = some (.invoking inv stage)) (holds : stage.array = some a)
    (there : s.threads[v]? = some (.invoking other next)) (shared : next.array = some a) : w = v := by
  have own := shape.current w inv stage a stands holds
  exact shape.distinct w v inv other stage next stands there (current_call shape v other next _ there shared own)

omit [DecidableEq Task] in
theorem returned_batch (task : Task) (member : task ∈ s.returned) : ∃ call ∈ s.calls, task ∈ s.batch call.array :=
  List.mem_flatMap.mp member

omit [DecidableEq Task] in
theorem collected_ended (ledger : Ledger s) (task : Task) (member : task ∈ s.collected) : task ∈ s.ended := by
  have whole : task ∈ (s.ended : Multiset Task) := by
    rw [ledger.collected]
    exact Multiset.mem_add.mpr (.inr (Multiset.mem_coe.mpr member))
  exact Multiset.mem_coe.mp whole

omit [DecidableEq Task] in
theorem collected_nodup (ledger : Ledger s) : s.collected.Nodup := by
  have whole := Multiset.coe_nodup.mpr (ended_nodup ledger)
  rw [ledger.collected] at whole
  exact Multiset.coe_nodup.mp (Multiset.nodup_of_le (Multiset.le_add_left _ _) whole)

omit [DecidableEq Task] in
theorem output_uncollected (ledger : Ledger s) (i : Nat) (content : List Task) (output : s.outputs[i]? = some content)
    (task : Task) (member : task ∈ content) : task ∉ s.collected := by
  intro collected
  obtain ⟨rest, split⟩ := Slots.sum_lookup (fun content : List Task => (content : Multiset Task)) s.outputs i content output
  have inside : task ∈ s.total executed + s.outputted := by
    unfold outputted
    rw [split]
    exact Multiset.mem_add.mpr (.inr (Multiset.mem_add.mpr (.inl (Multiset.mem_coe.mpr member))))
  have whole := Multiset.coe_nodup.mpr (ended_nodup ledger)
  rw [ledger.collected] at whole
  exact Multiset.disjoint_left.mp (Multiset.nodup_add.mp whole).2.2 inside (Multiset.mem_coe.mpr collected)

omit [DecidableEq Task] in
theorem batched_unpushed (ledger : Ledger s) (w : Nat) (pc : ThreadPc Task) (stands : s.threads[w]? = some pc) (task : Task)
    (holds : task ∈ s.batched pc) : task ∉ s.pushed := by
  intro pushed
  have whole := Multiset.coe_nodup.mpr ledger.distinct
  rw [ledger.pushed] at whole
  exact Multiset.disjoint_left.mp (Multiset.nodup_add.mp whole).2.2 (total_member s w pc stands _ task holds)
    (Multiset.mem_coe.mpr pushed)

omit [DecidableEq Task] in
theorem collected_pushed (ledger : Ledger s) (task : Task) (member : task ∈ s.collected) : task ∈ s.pushed :=
  (ledger_members ledger task).2.1 ((ledger_members ledger task).1 (collected_ended ledger task member))

omit [DecidableEq Task] in
theorem stage_pending (ledger : Ledger s) (task : Task)
    (placed : task ∈ s.total popped ∨ task ∈ s.total running ∨ task ∈ s.total executed ∨ task ∈ s.inputQueue.q) :
    task ∈ s.pushed ∧ task ∉ s.collected := by
  have pushedNodup := Multiset.coe_nodup.mpr (pushed_nodup ledger)
  have startedNodup := Multiset.coe_nodup.mpr (started_nodup ledger)
  have endedNodup := Multiset.coe_nodup.mpr (ended_nodup ledger)
  have members := ledger_members ledger task
  have memberPushed : task ∈ s.inputQueue.q ∨ task ∈ s.total popped ∨ task ∈ s.started → task ∈ s.pushed := by
    intro inside
    refine Multiset.mem_coe.mp ?_
    rw [ledger.started]
    simp only [Multiset.mem_add, Multiset.mem_coe, or_assoc]
    exact inside
  have memberStarted : task ∈ s.total running → task ∈ s.started := by
    intro inside
    refine Multiset.mem_coe.mp ?_
    rw [ledger.ended]
    exact Multiset.mem_add.mpr (.inl inside)
  have memberEnded : task ∈ s.total executed → task ∈ s.ended := by
    intro inside
    refine Multiset.mem_coe.mp ?_
    rw [ledger.collected]
    exact Multiset.mem_add.mpr (.inl (Multiset.mem_add.mpr (.inl inside)))
  rw [ledger.started] at pushedNodup
  rw [ledger.ended] at startedNodup
  rw [ledger.collected] at endedNodup
  have unstarted := (Multiset.disjoint_left.mp (Multiset.nodup_add.mp pushedNodup).2.2 : task ∈ _ → task ∉ _)
  have unended := (Multiset.disjoint_left.mp (Multiset.nodup_add.mp startedNodup).2.2 : task ∈ _ → task ∉ _)
  have uncollected := (Multiset.disjoint_left.mp (Multiset.nodup_add.mp endedNodup).2.2 : task ∈ _ → task ∉ _)
  have ended := collected_ended ledger task
  rcases placed with inside | inside | inside | inside
  · refine ⟨memberPushed (.inr (.inl inside)), fun collected => ?_⟩
    exact unstarted (Multiset.mem_add.mpr (.inr inside)) (Multiset.mem_coe.mpr (members.1 (ended collected)))
  · refine ⟨members.2.1 (memberStarted inside), fun collected => ?_⟩
    exact unended inside (Multiset.mem_coe.mpr (ended collected))
  · refine ⟨members.2.1 (members.1 (memberEnded inside)), fun collected => ?_⟩
    exact uncollected (Multiset.mem_add.mpr (.inl inside)) (Multiset.mem_coe.mpr collected)
  · refine ⟨memberPushed (.inl inside), fun collected => ?_⟩
    exact unstarted (Multiset.mem_add.mpr (.inl (Multiset.mem_coe.mpr inside)))
      (Multiset.mem_coe.mpr (members.1 (ended collected)))

omit [DecidableEq Task] in
theorem executed_pending (ledger : Ledger s) (w : Nat) (task : Task) (stands : s.threads[w]? = some (.executed task)) :
    task ∈ s.pushed ∧ task ∉ s.collected :=
  stage_pending ledger task
    (.inr (.inr (.inl (total_member s w _ stands executed task (Multiset.mem_singleton_self task)))))

theorem counted_all (ledger : Ledger s) (a : Nat)
    (enough : (s.batch a).length ≤ (s.collected.filter (· ∈ s.batch a)).length) : ∀ task ∈ s.batch a, task ∈ s.collected := by
  have distinct : (s.collected.filter (· ∈ s.batch a)).Nodup := (collected_nodup ledger).filter _
  have inside : s.collected.filter (· ∈ s.batch a) ⊆ s.batch a := fun task member => by simpa using (List.mem_filter.mp member).2
  have same := (List.subperm_of_subset distinct inside).perm_of_length_le enough
  exact fun task member => (List.mem_filter.mp (same.mem_iff.mpr member)).1

theorem collect_included (shape : Shape app s) (ledger : Ledger s) (routing : Routing s) (w a taken : Nat)
    (inv : Invocation Task) (b : Task) (rest : List Task) (stands : s.threads[w]? = some (.invoking inv (.collect a taken)))
    (output : s.outputs[inv.outputQueue]? = some (b :: rest)) : b ∈ s.batch a := by
  obtain ⟨call, listed, queue, member⟩ := routing.routed inv.outputQueue (b :: rest) output b List.mem_cons_self
  rcases routing.closed call listed with ⟨v, other, stage, there, holds⟩ | collected
  · have owner := current_call shape v other stage call there holds listed
    have here := shape.distinct v w other inv stage _ there stands (owner.symm.trans queue)
    subst here
    rw [stands] at there
    cases there
    cases holds
    exact member
  · exact absurd (collected b member) (output_uncollected ledger inv.outputQueue (b :: rest) output b List.mem_cons_self)

omit [DecidableEq Task] in
theorem batch_nodup (ledger : Ledger s) (call : BatchCall) (listed : call ∈ s.calls) : (s.batch call.array).Nodup :=
  (List.nodup_flatMap.mp ledger.distinct).1 call listed

theorem collecting_owns (shape : Shape app s) (routing : Routing s) (w a taken : Nat) (inv : Invocation Task)
    (stands : s.threads[w]? = some (.invoking inv (.collect a taken))) (task : Task) (member : task ∈ s.batch a) :
    s.outputQueue task = some inv.outputQueue := by
  refine routing.owned ⟨a, inv.outputQueue⟩ (shape.current w inv _ a stands rfl) (fun v other assigning => ?_) task member
  have same := array_holder shape w v inv other _ _ a stands rfl assigning rfl
  subst same
  rw [stands] at assigning
  cases assigning

omit [DecidableEq Task] in
theorem collecting_pushed (shape : Shape app s) (ledger : Ledger s) (w a taken : Nat) (inv : Invocation Task)
    (stands : s.threads[w]? = some (.invoking inv (.collect a taken))) (task : Task) (member : task ∈ s.batch a) :
    task ∈ s.pushed := by
  have own := shape.current w inv _ a stands rfl
  have whole : task ∈ (s.returned : Multiset Task) := Multiset.mem_coe.mpr (List.mem_flatMap.mpr ⟨_, own, member⟩)
  rw [ledger.pushed, Multiset.mem_add, Multiset.mem_coe] at whole
  refine whole.resolve_left fun held => ?_
  obtain ⟨v, pc, there, holds⟩ := total_holder s s.batched task held
  -- a thread that holds the task before the push would hold the same array
  have clash : ∀ other stage b, pc = .invoking other stage → stage.array = some b → task ∈ s.batch b → v = w := by
    rintro other stage b rfl holdsArray inside
    have theirs := shape.current v other stage b there holdsArray
    have array : b = a := congrArg BatchCall.array (batch_owner ledger _ _ theirs own task inside member)
    exact array_holder shape v w other inv stage _ b there holdsArray stands (congrArg some array.symm)
  cases pc with
  | invoking other stage =>
      cases stage with
      | assign b =>
          have same := clash other _ b rfl rfl (Multiset.mem_coe.mp holds)
          subst same
          cases there.symm.trans stands
      | push b =>
          have same := clash other _ b rfl rfl (Multiset.mem_coe.mp holds)
          subst same
          cases there.symm.trans stands
      | _ => cases holds
  | _ => cases holds

-- Whoever holds a task on its way, some call of invoke is waiting for it at
-- the output queue the task knows.
theorem pending_owner (shape : Shape app s) (ledger : Ledger s) (routing : Routing s) (task : Task)
    (pushed : task ∈ s.pushed) (uncollected : task ∉ s.collected) :
    ∃ (w : Nat) (inv : Invocation Task) (a taken : Nat), s.threads[w]? = some (.invoking inv (.collect a taken)) ∧
      task ∈ s.batch a ∧ taken < (s.batch a).length ∧ s.outputQueue task = some inv.outputQueue := by
  obtain ⟨call, listed, member⟩ := returned_batch task ((ledger_members ledger task).2.2 pushed)
  rcases routing.closed call listed with ⟨v, inv, stage, stands, holds⟩ | collected
  · cases stage with
    | assign a =>
        cases holds
        exact absurd pushed (batched_unpushed ledger v _ stands task (Multiset.mem_coe.mpr member))
    | push a =>
        cases holds
        exact absurd pushed (batched_unpushed ledger v _ stands task (Multiset.mem_coe.mpr member))
    | collect a taken =>
        cases holds
        refine ⟨v, inv, call.array, taken, stands, member, ?_, collecting_owns shape routing v _ taken inv stands task member⟩
        by_contra enough
        exact uncollected (counted_all ledger call.array
          (by rw [routing.counted v inv call.array taken stands]; omega) task member)
    | _ => cases holds
  · exact absurd (collected task member) uncollected

end Facts

section Steps

variable {app : Application Task Name Scope}

-- A step that neither begins nor ends the work on an array.
theorem routing_quiet (s after : Operator Task Name) (routing : Routing s) (calls : after.calls = s.calls)
    (batch : after.batch = s.batch) (queues : after.outputQueue = s.outputQueue) (collected : after.collected = s.collected)
    (outputs : ∀ (i : Nat) content, after.outputs[i]? = some content → ∀ task ∈ content,
      ∃ call ∈ s.calls, call.outputQueue = i ∧ task ∈ s.batch call.array)
    (stays : ∀ (j : Nat) inv stage a, s.threads[j]? = some (.invoking inv stage) → stage.array = some a →
      after.threads[j]? = some (.invoking inv stage))
    (older : ∀ (j : Nat) inv stage, after.threads[j]? = some (.invoking inv stage) →
      s.threads[j]? = some (.invoking inv stage) ∨ (stage.array = none ∧ stage ≠ .raised)) : Routing after where
  owned := by
    intro call listed nobody task member
    rw [calls] at listed
    rw [batch] at member
    rw [queues]
    exact routing.owned call listed
      (fun w inv assigning => nobody w inv (stays w inv _ call.array assigning rfl)) task member
  routed := by
    rw [calls, batch]
    exact outputs
  counted := by
    intro w inv a taken read
    rw [collected, batch]
    rcases older w inv _ read with old | ⟨free, -⟩
    · exact routing.counted w inv a taken old
    · cases free
  closed := by
    intro call listed
    rw [calls] at listed
    rw [batch, collected]
    rcases routing.closed call listed with ⟨w, inv, stage, stands, holds⟩ | done
    · exact .inl ⟨w, inv, stage, stays w inv stage call.array stands holds, holds⟩
    · exact .inr done
  sound := by
    intro w inv read
    rcases older w inv .raised read with old | ⟨-, calm⟩
    · exact routing.sound w inv old
    · exact calm rfl

theorem routing_steady (s after : Operator Task Name) (w : Nat) (old pc : ThreadPc Task) (routing : Routing s)
    (stands : s.threads[w]? = some old) (threads : after.threads = s.threads.set w pc) (calls : after.calls = s.calls)
    (batch : after.batch = s.batch) (queues : after.outputQueue = s.outputQueue) (collected : after.collected = s.collected)
    (outputs : ∀ (i : Nat) content, after.outputs[i]? = some content → ∀ task ∈ content,
      ∃ call ∈ s.calls, call.outputQueue = i ∧ task ∈ s.batch call.array)
    (free : ∀ inv stage, old = .invoking inv stage → stage.array = none)
    (calm : ∀ inv stage, pc = .invoking inv stage → stage.array = none ∧ stage ≠ .raised) : Routing after := by
  refine routing_quiet s after routing calls batch queues collected outputs ?_ ?_
  · intro j inv stage a read holds
    have apart : j ≠ w := by
      rintro rfl
      rw [stands] at read
      rw [free inv stage (Option.some.inj read)] at holds
      cases holds
    rw [threads, List.getElem?_set_ne (Ne.symm apart)]
    exact read
  · intro j inv stage read
    rcases set_thread_moves s after w pc threads j inv stage read with ⟨-, same⟩ | ⟨-, earlier⟩
    · exact .inr (calm inv stage same)
    · exact .inl earlier

omit [DecidableEq Task] in
theorem nobody_assigning (s : Operator Task Name) (w a : Nat) (pc : ThreadPc Task)
    (nobody : ∀ (v : Nat) inv, (s.threads.set w pc)[v]? ≠ some (.invoking inv (.assign a)))
    (moved : ∀ inv, s.threads[w]? ≠ some (.invoking inv (.assign a))) (v : Nat) (inv : Invocation Task) :
    s.threads[v]? ≠ some (.invoking inv (.assign a)) := by
  intro assigning
  have apart : v ≠ w := by
    rintro rfl
    exact moved inv assigning
  refine nobody v inv ?_
  rw [List.getElem?_set_ne (Ne.symm apart)]
  exact assigning

omit [DecidableEq Task] in
theorem holder_after (s : Operator Task Name) (w : Nat) (inv : Invocation Task) (stage next : InvokePc) (a : Nat)
    (stands : s.threads[w]? = some (.invoking inv stage)) (keeps : stage.array = some a → next.array = some a) (v : Nat)
    (other : Invocation Task) (place : InvokePc) (there : s.threads[v]? = some (.invoking other place))
    (holds : place.array = some a) :
    ∃ (v : Nat) (other : Invocation Task) (place : InvokePc),
      (s.threads.set w (.invoking inv next))[v]? = some (.invoking other place) ∧ place.array = some a := by
  by_cases here : v = w
  · subst here
    rw [stands] at there
    cases there
    exact ⟨v, inv, next, by rw [Slots.lookup_set s.threads v v _ _ stands, if_pos rfl], keeps holds⟩
  · exact ⟨v, other, place, by rw [List.getElem?_set_ne (Ne.symm here)]; exact there, holds⟩

theorem routing_assign (s : Operator Task Name) (w a : Nat) (inv : Invocation Task) (shape : Shape app s)
    (ledger : Ledger s) (routing : Routing s) (stands : s.threads[w]? = some (.invoking inv (.assign a))) :
    Routing ({ s with outputQueue := fun task => if task ∈ s.batch a then some inv.outputQueue else s.outputQueue task
      }.setThread w (.invoking inv (.push a))) := by
  have threads := set_thread_moves s ({ s with
    outputQueue := fun task => if task ∈ s.batch a then some inv.outputQueue else s.outputQueue task
      }.setThread w (.invoking inv (.push a))) w (.invoking inv (.push a)) rfl
  have own := shape.current w inv (.assign a) a stands rfl
  refine ⟨fun call listed nobody task member => ?_, routing.routed, fun v other b taken read => ?_,
    fun call listed => ?_, fun v other read => ?_⟩
  · show (if task ∈ s.batch a then some inv.outputQueue else s.outputQueue task) = some call.outputQueue
    by_cases mine : call.array = a
    · have queue := current_call shape w inv _ call stands (congrArg some mine.symm) listed
      rw [if_pos (mine ▸ member), queue]
    · rw [if_neg fun shared => mine (congrArg BatchCall.array (batch_owner ledger call _ listed own task member shared))]
      refine routing.owned call listed (nobody_assigning s w call.array _ nobody fun other assigning => ?_) task member
      rw [stands] at assigning
      cases assigning
      exact mine rfl
  · rcases threads v other _ read with ⟨-, same⟩ | ⟨-, old⟩
    · cases same
    · exact routing.counted v other b taken old
  · rcases routing.closed call listed with ⟨v, other, stage, there, holds⟩ | done
    · exact .inl (holder_after s w inv _ (.push a) call.array stands (fun same => same) v other stage there holds)
    · exact .inr done
  · rcases threads v other _ read with ⟨-, same⟩ | ⟨-, old⟩
    · cases same
    · exact routing.sound v other old

theorem routing_push (s : Operator Task Name) (w a : Nat) (inv : Invocation Task) (cv : CondVar Nat) (ledger : Ledger s)
    (routing : Routing s) (stands : s.threads[w]? = some (.invoking inv (.push a))) :
    Routing ({ s with
      inputQueue := { s.inputQueue with q := s.inputQueue.q ++ s.batch a, cv := cv }
      pushed := s.pushed ++ s.batch a }.setThread w (.invoking inv (.collect a 0))) := by
  have threads := set_thread_moves s ({ s with
    inputQueue := { s.inputQueue with q := s.inputQueue.q ++ s.batch a, cv := cv }
    pushed := s.pushed ++ s.batch a }.setThread w (.invoking inv (.collect a 0))) w (.invoking inv (.collect a 0)) rfl
  refine ⟨fun call listed nobody task member => ?_, routing.routed, fun v other b taken read => ?_,
    fun call listed => ?_, fun v other read => ?_⟩
  · exact routing.owned call listed
      (nobody_assigning s w call.array _ nobody (by rw [stands]; simp)) task member
  · rcases threads v other _ read with ⟨-, same⟩ | ⟨-, old⟩
    · -- nothing of a batch is collected before the batch is pushed
      cases same
      rw [List.length_eq_zero_iff, List.filter_eq_nil_iff]
      intro task collected
      simp only [decide_eq_true_eq]
      exact fun member => batched_unpushed ledger w _ stands task (Multiset.mem_coe.mpr member)
        (collected_pushed ledger task collected)
    · exact routing.counted v other b taken old
  · rcases routing.closed call listed with ⟨v, other, stage, there, holds⟩ | done
    · exact .inl (holder_after s w inv _ (.collect a 0) call.array stands (fun same => same) v other stage there holds)
    · exact .inr done
  · rcases threads v other _ read with ⟨-, same⟩ | ⟨-, old⟩
    · cases same
    · exact routing.sound v other old

theorem routing_collect (s : Operator Task Name) (w a taken : Nat) (inv : Invocation Task) (b : Task) (rest : List Task)
    (shape : Shape app s) (ledger : Ledger s) (routing : Routing s)
    (stands : s.threads[w]? = some (.invoking inv (.collect a taken)))
    (output : s.outputs[inv.outputQueue]? = some (b :: rest)) (included : b ∈ s.batch a) :
    Routing ({ s with outputs := s.outputs.set inv.outputQueue rest, collected := s.collected ++ [b] }.setThread w
      (.invoking inv (.collect a (taken + 1)))) := by
  have threads := set_thread_moves s
    ({ s with outputs := s.outputs.set inv.outputQueue rest, collected := s.collected ++ [b] }.setThread w
      (.invoking inv (.collect a (taken + 1)))) w (.invoking inv (.collect a (taken + 1))) rfl
  have own := shape.current w inv (.collect a taken) a stands rfl
  refine ⟨fun call listed nobody task member => ?_, fun i content read task member => ?_,
    fun v other c count read => ?_, fun call listed => ?_, fun v other read => ?_⟩
  · exact routing.owned call listed
      (nobody_assigning s w call.array _ nobody (by rw [stands]; simp)) task member
  · rcases Slots.lookup_set_cases s.outputs inv.outputQueue i rest content read with ⟨rfl, rfl⟩ | ⟨-, old⟩
    · exact routing.routed inv.outputQueue (b :: content) output task (List.mem_cons_of_mem b member)
    · exact routing.routed i content old task member
  · show ((s.collected ++ [b]).filter (· ∈ s.batch c)).length = count
    rw [List.filter_append, List.length_append]
    rcases threads v other _ read with ⟨-, same⟩ | ⟨apart, old⟩
    · cases same
      rw [routing.counted w inv a taken stands]
      simp [included]
    · have elsewhere : b ∉ s.batch c := by
        intro member
        have theirs := shape.current v other (.collect c count) c old rfl
        have same := batch_owner ledger _ _ theirs own b member included
        have array : c = a := congrArg BatchCall.array same
        exact apart (array_holder shape v w other inv _ _ c old rfl stands (congrArg some array.symm))
      rw [routing.counted v other c count old]
      simp [elsewhere]
  · rcases routing.closed call listed with ⟨v, other, stage, there, holds⟩ | done
    · exact .inl (holder_after s w inv _ (.collect a (taken + 1)) call.array stands (fun same => same) v other stage there
        holds)
    · exact .inr fun task member => List.mem_append_left [b] (done task member)
  · rcases threads v other _ read with ⟨-, same⟩ | ⟨-, old⟩
    · cases same
    · exact routing.sound v other old

theorem routing_again (s : Operator Task Name) (w a taken : Nat) (inv : Invocation Task) (ledger : Ledger s)
    (routing : Routing s) (stands : s.threads[w]? = some (.invoking inv (.collect a taken)))
    (done : (s.batch a).length ≤ taken) : Routing (s.setThread w (.invoking inv .reset)) := by
  have threads := set_thread_moves s (s.setThread w (.invoking inv .reset)) w (.invoking inv .reset) rfl
  refine ⟨fun call listed nobody task member => ?_, routing.routed, fun v other b count read => ?_,
    fun call listed => ?_, fun v other read => ?_⟩
  · exact routing.owned call listed
      (nobody_assigning s w call.array _ nobody (by rw [stands]; simp)) task member
  · rcases threads v other _ read with ⟨-, same⟩ | ⟨-, old⟩
    · cases same
    · exact routing.counted v other b count old
  · rcases routing.closed call listed with ⟨v, other, stage, there, holds⟩ | finished
    · by_cases mine : a = call.array
      · subst mine
        exact .inr (counted_all ledger call.array (by rw [routing.counted w inv call.array taken stands]; exact done))
      · exact .inl (holder_after s w inv _ .reset call.array stands (fun same => absurd (Option.some.inj same) mine)
          v other stage there holds)
    · exact .inr finished
  · rcases threads v other _ read with ⟨-, same⟩ | ⟨-, old⟩
    · cases same
    · exact routing.sound v other old

omit [DecidableEq Task] in
theorem returns_kept (s after : Operator Task Name) (w : Nat) (inv : Invocation Task) (added : List Task)
    (fresh : ∀ call ∈ s.calls, call.array ≠ s.fetchedTasks) (returns : Returns app s after w inv added) (call : BatchCall)
    (listed : call ∈ s.calls) : after.batch call.array = s.batch call.array := by
  rw [returns.batch, if_neg (fresh call listed)]

theorem routing_returns (s after : Operator Task Name) (w : Nat) (inv : Invocation Task) (added : List Task)
    (shape : Shape app s) (routing : Routing s) (fresh : ∀ call ∈ s.calls, call.array ≠ s.fetchedTasks)
    (stands : s.threads[w]? = some (.invoking inv .trace)) (returns : Returns app s after w inv added)
    (queues : after.outputQueue = s.outputQueue) (collected : after.collected = s.collected) : Routing after := by
  have threads := set_thread_moves s after w _ returns.threads
  have placed : after.threads[w]? = some (.invoking inv (.assign s.fetchedTasks)) := by
    rw [returns.threads, Slots.lookup_set s.threads w w _ _ stands, if_pos rfl]
  have kept := returns_kept s after w inv added fresh returns
  have listed : ∀ call, call ∈ after.calls ↔ call ∈ s.calls ∨ call = ⟨s.fetchedTasks, inv.outputQueue⟩ := by
    intro call
    rw [returns.calls, List.mem_append, List.mem_singleton]
  refine ⟨fun call member nobody task inside => ?_, fun i content read task member => ?_,
    fun v other b count read => ?_, fun call member => ?_, fun v other read => ?_⟩
  · rcases (listed call).mp member with earlier | rfl
    · rw [queues]
      rw [kept call earlier] at inside
      rw [returns.threads] at nobody
      exact routing.owned call earlier (nobody_assigning s w call.array _ nobody (by rw [stands]; simp)) task inside
    · exact absurd placed (nobody w inv)
  · rw [returns.outputs] at read
    obtain ⟨call, earlier, queue, inside⟩ := routing.routed i content read task member
    exact ⟨call, (listed call).mpr (.inl earlier), queue, by rw [kept call earlier]; exact inside⟩
  · rcases threads v other _ read with ⟨-, same⟩ | ⟨-, old⟩
    · cases same
    · rw [collected, kept _ (shape.current v other _ b old rfl)]
      exact routing.counted v other b count old
  · rcases (listed call).mp member with earlier | rfl
    · rw [kept call earlier, collected]
      rcases routing.closed call earlier with ⟨v, other, stage, there, holds⟩ | done
      · rw [returns.threads]
        exact .inl (holder_after s w inv .trace _ call.array stands (by simp [InvokePc.array]) v other stage there holds)
      · exact .inr done
    · exact .inl ⟨w, inv, _, placed, rfl⟩
  · rcases threads v other _ read with ⟨-, same⟩ | ⟨-, old⟩
    · cases same
    · exact routing.sound v other old

theorem routing_step [Fintype Task] (s after : Operator Task Name) (label : OperatorLabel Task) (shape : Shape app s)
    (ledger : Ledger s) (routing : Routing s) (fresh : Fresh s label) (effect : Effect app s label after) :
    Routing after := by
  have steady : ∀ (w : Nat) (old pc : ThreadPc Task) (after : Operator Task Name), s.threads[w]? = some old →
      after.threads = s.threads.set w pc → after.calls = s.calls → after.batch = s.batch →
      after.outputQueue = s.outputQueue → after.collected = s.collected → after.outputs = s.outputs →
      (∀ inv stage, old = .invoking inv stage → stage.array = none) →
      (∀ inv stage, pc = .invoking inv stage → stage.array = none ∧ stage ≠ .raised) → Routing after :=
    fun w old pc after stands threads calls batch queues collected outputs =>
      routing_steady s after w old pc routing stands threads calls batch queues collected (outputs ▸ routing.routed)
  -- a fresh output queue is empty
  have opened : ∀ (i : Nat) content, (s.outputs ++ [[]])[i]? = some content → ∀ task ∈ content,
      ∃ call ∈ s.calls, call.outputQueue = i ∧ task ∈ s.batch call.array := by
    intro i content read task member
    rcases Slots.lookup_append s.outputs i [] content read with old | ⟨-, rfl⟩
    · exact routing.routed i content old task member
    · cases member
  cases effect with
  | popRetired w n wake stands => exact steady w _ .exited _ stands rfl rfl rfl rfl rfl rfl (by simp) (by simp)
  | popClosed w n wake cv stands => exact steady w _ .exited _ stands rfl rfl rfl rfl rfl rfl (by simp) (by simp)
  | popWait w n wake stands => exact steady w _ (.popping n) _ stands rfl rfl rfl rfl rfl rfl (by simp) (by simp)
  | popTask w n wake cv task rest stands =>
      exact steady w _ (.popped task) _ stands rfl rfl rfl rfl rfl rfl (by simp) (by simp)
  | start w task stands => exact steady w _ (.running task) _ stands rfl rfl rfl rfl rfl rfl (by simp) (by simp)
  | call w root task stands =>
      refine routing_quiet s _ routing rfl rfl rfl rfl opened (fun j inv stage a read holds => ?_) (fun j inv stage read => ?_)
      · have apart : j ≠ w := by
          rintro rfl
          rw [stands] at read
          cases read
        refine Slots.lookup_old _ j _ _ ?_
        rw [List.getElem?_set_ne (Ne.symm apart)]
        exact read
      · rcases call_threads s.threads w _ j inv stage read with ⟨-, same⟩ | ⟨-, old⟩
        · cases same
          exact .inr ⟨rfl, by simp⟩
        · exact .inl old
  | taskEnd w task stands => exact steady w _ (.executed task) _ stands rfl rfl rfl rfl rfl rfl (by simp) (by simp)
  | complete w i task content stands owner output =>
      refine routing_steady s _ w _ (.popping 0) routing stands rfl rfl rfl rfl rfl (fun j delivered read other member => ?_)
        (by simp) (by simp)
      rcases Slots.lookup_set_cases s.outputs i j _ delivered read with ⟨rfl, rfl⟩ | ⟨-, old⟩
      · rcases List.mem_append.mp member with earlier | latest
        · exact routing.routed j content output other earlier
        · rw [List.mem_singleton.mp latest]
          obtain ⟨pushed, uncollected⟩ := executed_pending ledger w task stands
          obtain ⟨v, inv, a, taken, there, inside, -, queue⟩ := pending_owner shape ledger routing task pushed uncollected
          rw [owner] at queue
          exact ⟨_, shape.current v inv _ a there rfl, (Option.some.inj queue).symm, inside⟩
      · exact routing.routed j delivered old other member
  | reset w inv stands =>
      exact steady w _ (.invoking inv .trace) _ stands rfl rfl (funext (batch_append s)) rfl rfl rfl
        (by rintro other stage ⟨⟩; rfl) (by rintro other stage ⟨⟩; exact ⟨rfl, by simp⟩)
  | traceBatch w needed inv status tracerState stands result =>
      obtain ⟨added, -, returns⟩ := trace_returns s w needed inv status tracerState shape (fresh rfl) stands result
      exact routing_returns s _ w inv added shape routing (fresh rfl) stands returns rfl rfl
  | traceNil w needed inv tracerState stands result =>
      have batch : (s.traced tracerState).batch = s.batch := by
        funext a
        simp only [Operator.batch, (trace_nil s needed inv.root tracerState result).2.2]
      refine steady w _ (afterLoop inv) _ stands rfl rfl batch rfl rfl rfl (by rintro other stage ⟨⟩; rfl) ?_
      intro other stage same
      obtain ⟨rfl, rfl⟩ := after_loop_invoking inv other stage same
      exact ⟨rfl, by simp⟩
  | traceError w needed inv error tracerState stands result =>
      exact absurd result (available_task_no_error app needed inv.root s.tracer _ (shape.roots w inv .trace stands) error)
  | assign w a inv stands => exact routing_assign s w a inv shape ledger routing stands
  | push w a inv wake cv stands => exact routing_push s w a inv cv ledger routing stands
  | collect w a taken inv b rest stands short output included =>
      exact routing_collect s w a taken inv b rest shape ledger routing stands output included
  | stray w a taken inv b rest stands short output foreign =>
      exact absurd (collect_included shape ledger routing w a taken inv b rest stands output) foreign
  | again w a taken inv stands done => exact routing_again s w a taken inv ledger routing stands done
  | threadEnd w thread inv task stands =>
      exact steady w _ (.invoking inv (.joining thread)) _ stands rfl rfl rfl rfl rfl rfl
        (by rintro other stage ⟨⟩; rfl) (by rintro other stage ⟨⟩; exact ⟨rfl, by simp⟩)
  | join w thread own inv task stands =>
      exact steady w _ (.running task) _ stands rfl rfl rfl rfl rfl rfl (by rintro other stage ⟨⟩; rfl) (by simp)
  | invokeTask name rest root stands =>
      exact routing_steady s _ mainThread _ (.invoking ⟨root, s.outputs.length, none⟩ .reset) routing stands rfl rfl rfl rfl rfl
        opened (by simp) (by rintro other stage ⟨⟩; exact ⟨rfl, by simp⟩)
  | invokeUnknown name rest stands => exact steady mainThread _ .exited _ stands rfl rfl rfl rfl rfl rfl (by simp) (by simp)
  | finish wake cv stands => exact steady mainThread _ .joinWorkers _ stands rfl rfl rfl rfl rfl rfl (by simp) (by simp)
  | joinWorkers stands => exact steady mainThread _ .idle _ stands rfl rfl rfl rfl rfl rfl (by simp) (by simp)

theorem routing_new (n : Nat) (names : List Name) : Routing (new n names : Operator Task Name) :=
  ⟨by simp [new], by simp [new], fun w inv a taken read => absurd read (new_nobody n names w inv _), by simp [new],
    fun w inv => new_nobody n names w inv .raised⟩

end Steps

end Operator

end Pwrake
