import Mathlib.Data.Set.Card
import Pwrake.Readiness
import Pwrake.Retirement

set_option autoImplicit false

namespace Pwrake

namespace Operator

open Tracer

variable {Task Name Scope : Type*} [DecidableEq Task]

def nests : OperatorLabel Task → Bool
  | .call _ _ => true
  | _ => false

-- No action calls Task#invoke.
def NoNested (label : OperatorLabel Task) : Prop := nests label = false

instance (label : OperatorLabel Task) : Decidable (NoNested label) := inferInstanceAs (Decidable (nests label = false))

omit [DecidableEq Task] in
theorem no_nested_call (w : Nat) (root : Task) : ¬ NoNested (.call w root) := by simp [NoNested, nests]

-- Only the main thread runs invoke, so the Tracer is as it left it.
structure Solitary (s : Operator Task Name) : Prop where
  alone : ∀ (w : Nat) inv stage, s.threads[w]? = some (.invoking inv stage) → inv.nested = none
  scratch : ∀ (w : Nat) inv, s.threads[w]? = some (.invoking inv .trace) →
    s.footprint = ∅ ∧ ∀ call ∈ s.calls, call.array ≠ s.fetchedTasks

section Threads

variable {app : Application Task Name Scope} {s : Operator Task Name}

omit [DecidableEq Task] in
theorem solitary_main (roles : Roles s) (solitary : Solitary s) (w : Nat) (inv : Invocation Task) (stage : InvokePc)
    (stands : s.threads[w]? = some (.invoking inv stage)) : w = mainThread := by
  cases w with
  | zero => rfl
  | succ w => exact absurd (solitary.alone (w + 1) inv stage stands) (roles.crew w _ stands)

omit [DecidableEq Task] in
theorem solitary_move (after : Operator Task Name) (w : Nat) (old pc : ThreadPc Task) (solitary : Solitary s)
    (stands : s.threads[w]? = some old) (threads : after.threads = s.threads.set w pc)
    (footprint : after.footprint = s.footprint) (calls : after.calls = s.calls) (scratch : after.fetchedTasks = s.fetchedTasks)
    (entered : ∀ inv stage, pc = .invoking inv stage → stage ≠ .trace ∧
      (inv.nested = none ∨ ∃ earlier, old = .invoking inv earlier)) : Solitary after := by
  constructor
  · intro v inv stage read
    rcases set_thread_moves s after w pc threads v inv stage read with ⟨rfl, same⟩ | ⟨-, earlier⟩
    · rcases (entered inv stage same).2 with alone | ⟨earlier, here⟩
      · exact alone
      · exact solitary.alone v inv earlier (here ▸ stands)
    · exact solitary.alone v inv stage earlier
  · intro v inv read
    rw [footprint, calls, scratch]
    rcases set_thread_moves s after w pc threads v inv _ read with ⟨-, same⟩ | ⟨-, earlier⟩
    · exact absurd rfl (entered inv _ same).1
    · exact solitary.scratch v inv earlier

theorem solitary_step [Fintype Task] (after : Operator Task Name) (label : OperatorLabel Task) (solitary : Solitary s)
    (roles : Roles s) (shape : Shape app s) (noNested : NoNested label) (effect : Effect app s label after) :
    Solitary after := by
  have move : ∀ (w : Nat) (old pc : ThreadPc Task) (after : Operator Task Name), s.threads[w]? = some old →
      after.threads = s.threads.set w pc → after.footprint = s.footprint → after.calls = s.calls →
      after.fetchedTasks = s.fetchedTasks →
      (∀ inv stage, pc = .invoking inv stage → stage ≠ .trace ∧
        (inv.nested = none ∨ ∃ earlier, old = .invoking inv earlier)) → Solitary after :=
    fun w old pc after stands => solitary_move after w old pc solitary stands
  have onward : ∀ (w : Nat) (inv : Invocation Task) (stage next : InvokePc) (after : Operator Task Name),
      s.threads[w]? = some (.invoking inv stage) → after.threads = s.threads.set w (.invoking inv next) →
      after.footprint = s.footprint → after.calls = s.calls → after.fetchedTasks = s.fetchedTasks → next ≠ .trace →
      Solitary after := by
    intro w inv stage next after stands threads footprint calls scratch later
    refine move w _ _ after stands threads footprint calls scratch ?_
    rintro other place ⟨⟩
    exact ⟨later, .inr ⟨stage, rfl⟩⟩
  -- a step of the invoker after which nobody is at its trace
  have passed : ∀ (w : Nat) (inv : Invocation Task) (stage : InvokePc) (pc : ThreadPc Task) (after : Operator Task Name),
      s.threads[w]? = some (.invoking inv stage) → after.threads = s.threads.set w pc →
      (∀ other next, pc = .invoking other next → other = inv ∧ next ≠ .trace) → Solitary after := by
    intro w inv stage pc after stands threads leaves
    have main := solitary_main roles solitary w inv stage stands
    constructor
    · intro v other next read
      rcases set_thread_moves s after w pc threads v other next read with ⟨rfl, same⟩ | ⟨-, earlier⟩
      · exact (leaves other next same).1 ▸ solitary.alone v inv stage stands
      · exact solitary.alone v other next earlier
    · intro v other read
      rcases set_thread_moves s after w pc threads v other _ read with ⟨-, same⟩ | ⟨apart, earlier⟩
      · exact absurd rfl (leaves other _ same).2
      · exact absurd ((solitary_main roles solitary v other _ earlier).trans main.symm) apart
  cases effect with
  | popRetired w n wake stands => exact move w _ .exited _ stands rfl rfl rfl rfl (by simp)
  | popClosed w n wake cv stands => exact move w _ .exited _ stands rfl rfl rfl rfl (by simp)
  | popWait w n wake stands => exact move w _ (.popping n) _ stands rfl rfl rfl rfl (by simp)
  | popTask w n wake cv task rest stands => exact move w _ (.popped task) _ stands rfl rfl rfl rfl (by simp)
  | start w task stands => exact move w _ (.running task) _ stands rfl rfl rfl rfl (by simp)
  | call w root task stands => exact absurd noNested (no_nested_call w root)
  | taskEnd w task stands => exact move w _ (.executed task) _ stands rfl rfl rfl rfl (by simp)
  | complete w i task content stands => exact move w _ (.popping 0) _ stands rfl rfl rfl rfl (by simp)
  | reset w inv stands =>
      refine ⟨fun v other stage read => ?_, fun v other read => ⟨rfl, fun call listed => ?_⟩⟩
      · rcases (reset_moves s w inv shape stands).threads v other stage read with ⟨rfl, same⟩ | ⟨-, earlier⟩
        · cases same
          exact solitary.alone v inv _ stands
        · exact solitary.alone v other stage earlier
      · exact Nat.ne_of_lt (shape.valid call listed).1
  | traceBatch w needed inv status tracerState stands =>
      refine passed w inv _ (.invoking inv (.assign s.fetchedTasks)) _ stands rfl ?_
      rintro other next ⟨⟩
      exact ⟨rfl, by simp⟩
  | traceNil w needed inv tracerState stands =>
      refine passed w inv _ (afterLoop inv) _ stands rfl fun other next same => ?_
      obtain ⟨rfl, rfl⟩ := after_loop_invoking inv other next same
      exact ⟨rfl, by simp⟩
  | traceError w needed inv error tracerState stands =>
      refine passed w inv _ (.invoking inv .raised) _ stands rfl ?_
      rintro other next ⟨⟩
      exact ⟨rfl, by simp⟩
  | assign w a inv stands => exact onward w inv _ (.push a) _ stands rfl rfl rfl rfl (by simp)
  | push w a inv wake cv stands => exact onward w inv _ (.collect a 0) _ stands rfl rfl rfl rfl (by simp)
  | collect w a taken inv b rest stands => exact onward w inv _ (.collect a (taken + 1)) _ stands rfl rfl rfl rfl (by simp)
  | stray w a taken inv b rest stands => exact onward w inv _ .raised _ stands rfl rfl rfl rfl (by simp)
  | again w a taken inv stands => exact onward w inv _ .reset _ stands rfl rfl rfl rfl (by simp)
  | threadEnd w thread inv task stands => exact onward w inv _ (.joining thread) _ stands rfl rfl rfl rfl (by simp)
  | join w thread own inv task stands => exact move w _ (.running task) _ stands rfl rfl rfl rfl (by simp)
  | invokeTask name rest root stands =>
      refine move mainThread _ (.invoking ⟨root, s.outputs.length, none⟩ .reset) _ stands rfl rfl rfl rfl ?_
      rintro inv stage ⟨⟩
      exact ⟨by simp, .inl rfl⟩
  | invokeUnknown name rest stands => exact move mainThread _ .exited _ stands rfl rfl rfl rfl (by simp)
  | finish wake cv stands => exact move mainThread _ .joinWorkers _ stands rfl rfl rfl rfl (by simp)
  | joinWorkers stands => exact move mainThread _ .idle _ stands rfl rfl rfl rfl (by simp)

-- While the invoker holds no batch, everything handed out has come back.
theorem nothing_in_flight (books : Books app s) (roles : Roles s) (solitary : Solitary s)
    (free : ∀ inv stage, s.threads[mainThread]? = some (.invoking inv stage) → stage.array = none) :
    (∀ task ∈ s.returned, task ∈ s.ended) ∧ (∀ task ∈ s.started, task ∈ s.ended) ∧
      ∀ task ∈ s.invoked, Done s task := by
  have back : ∀ task ∈ s.returned, task ∈ s.ended := by
    intro task member
    obtain ⟨call, listed, inside⟩ := returned_batch task member
    rcases books.routing.closed call listed with ⟨w, inv, stage, stands, holds⟩ | collected
    · have main := solitary_main roles solitary w inv stage stands
      rw [free inv stage (main ▸ stands)] at holds
      cases holds
    · exact collected_ended books.ledger task (collected task inside)
  have finished : ∀ task ∈ s.started, task ∈ s.ended := by
    intro task member
    exact back task (started_returned books.ledger task member)
  refine ⟨back, finished, fun task member => ?_⟩
  exact ((books.ledger.invoked task).mp member).imp_left (finished task)

-- At its trace the invoker holds no batch.
theorem trace_in_flight (books : Books app s) (roles : Roles s) (solitary : Solitary s) (w : Nat) (inv : Invocation Task)
    (stands : s.threads[w]? = some (.invoking inv .trace)) :
    (∀ task ∈ s.returned, task ∈ s.ended) ∧ (∀ task ∈ s.started, task ∈ s.ended) ∧ ∀ task ∈ s.invoked, Done s task := by
  have main := solitary_main roles solitary w inv _ stands
  refine nothing_in_flight books roles solitary fun other stage read => ?_
  rw [main, read] at stands
  cases stands
  rfl

omit [DecidableEq Task] in
theorem fetched_invoked (ledger : Ledger s) (back : ∀ task ∈ s.returned, task ∈ s.ended) (task : Task)
    (fetched : task ∈ s.fetched) : task ∈ s.invoked := by
  rcases (ledger.fetched task).mp fetched with returned | skipped
  · exact (ledger.invoked task).mpr (.inl ((ledger_members ledger task).1 (back task returned)))
  · exact (ledger.invoked task).mpr (.inr skipped)

end Threads

-- What the calls of invoke_task have done for the names they were given.
structure Served (app : Application Task Name Scope) (names : List Name) (s : Operator Task Name) : Prop where
  readied : Readied app s
  todo : s.todo ⊆ names
  roots : ∀ (w : Nat) inv stage, s.threads[w]? = some (.invoking inv stage) →
    ∃ name ∈ names, app.lookup name none = some inv.root
  served : ∀ name ∈ names, name ∈ s.todo ∨ ∀ root, app.lookup name none = some root → Done s root ∨
    ∃ (w : Nat) (inv : Invocation Task) (stage : InvokePc), s.threads[w]? = some (.invoking inv stage) ∧ inv.root = root
  reached : ∀ task ∈ s.fetched, ∃ name ∈ names, ∃ root, app.lookup name none = some root ∧ Reach app root task
  closed : ∀ task ∈ s.invoked, Ready app s task
  nonempty : ∀ call ∈ s.calls, s.batch call.array ≠ []

section Serving

variable {app : Application Task Name Scope} {s : Operator Task Name} {names : List Name}

omit [DecidableEq Task] in
theorem done_mono (s after : Operator Task Name) (ended : s.ended ⊆ after.ended) (skipped : s.skipped ⊆ after.skipped)
    (task : Task) (done : Done s task) : Done after task :=
  done.imp (fun member => ended member) (fun member => skipped member)

theorem done_traced (s : Operator Task Name) (after : TraceState Task) (task : Task) (done : Done s task) :
    Done (s.traced after) task :=
  done_mono s (s.traced after) (List.Subset.refl _) Finset.subset_union_left task done

-- A step that leaves the tasks' flags and the calls of invoke as they are.
omit [DecidableEq Task] in
theorem served_move (after : Operator Task Name) (w : Nat) (old pc : ThreadPc Task) (served : Served app names s)
    (readied : Readied app after) (stands : s.threads[w]? = some old) (threads : after.threads = s.threads.set w pc)
    (todo : after.todo = s.todo) (fetched : after.fetched = s.fetched) (invoked : after.invoked = s.invoked)
    (calls : after.calls = s.calls) (batch : after.batch = s.batch) (ended : s.ended ⊆ after.ended)
    (skipped : s.skipped ⊆ after.skipped)
    (onward : ∀ inv stage, old = .invoking inv stage → ∃ next, pc = .invoking inv next)
    (back : ∀ inv stage, pc = .invoking inv stage → ∃ earlier, old = .invoking inv earlier) : Served app names after where
  readied := readied
  todo := by rw [todo]; exact served.todo
  roots := by
    intro v inv stage read
    rcases set_thread_moves s after w pc threads v inv stage read with ⟨rfl, same⟩ | ⟨-, earlier⟩
    · obtain ⟨earlier, here⟩ := back inv stage same
      exact served.roots v inv earlier (here ▸ stands)
    · exact served.roots v inv stage earlier
  served := by
    intro name listed
    rw [todo]
    refine (served.served name listed).imp_right fun known root found => ?_
    rcases known root found with done | ⟨v, inv, stage, there, rooted⟩
    · exact .inl (done_mono s after ended skipped root done)
    · refine .inr ?_
      rw [threads]
      by_cases here : v = w
      · subst here
        obtain ⟨next, same⟩ := onward inv stage (Option.some.inj (stands.symm.trans there))
        exact ⟨v, inv, next, by rw [Slots.lookup_set s.threads v v old pc stands, if_pos rfl, same], rooted⟩
      · exact ⟨v, inv, stage, by rw [List.getElem?_set_ne (Ne.symm here)]; exact there, rooted⟩
  reached := by rw [fetched]; exact served.reached
  closed := by
    intro task member
    rw [invoked] at member
    exact ready_mono s after ended skipped task (served.closed task member)
  nonempty := by rw [calls, batch]; exact served.nonempty

theorem served_start (w : Nat) (task : Task) (served : Served app names s)
    (readied : Readied app ({ s with invoked := insert task s.invoked, started := s.started ++ [task] }.setThread w (.running task)))
    (stands : s.threads[w]? = some (.popped task)) :
    Served app names ({ s with invoked := insert task s.invoked, started := s.started ++ [task] }.setThread w
      (.running task)) := by
  have moved : Served app names (s.setThread w (.running task)) :=
    served_move _ w _ (.running task) served
      ⟨served.readied.flags, served.readied.arrays, served.readied.queued, readied.popped⟩
      stands rfl rfl rfl rfl rfl rfl (List.Subset.refl _) subset_rfl (by simp) (by simp)
  refine { moved with readied := readied, closed := fun other member => ?_ }
  rcases Finset.mem_insert.mp member with rfl | earlier
  · exact served.readied.popped w other stands
  · exact served.closed other earlier

-- The part of a trace that is the same whether it returns a batch or nil.
theorem served_trace [Fintype Task] (needed : Task → Bool) (inv : Invocation Task)
    (result : Except (TraceError Task Name) (Option Status)) (tracerState : TraceState Task) (served : Served app names s)
    (known : ∃ name ∈ names, app.lookup name none = some inv.root) (settled : ∀ task ∈ s.invoked, Done s task)
    (ran : availableTask app needed inv.root s.tracer = (result, tracerState)) :
    (∀ task ∈ tracerState.fetched, ∃ name ∈ names, ∃ root, app.lookup name none = some root ∧ Reach app root task) ∧
      (∀ task ∈ tracerState.invoked, Done (s.traced tracerState) task) ∧
      ∀ task ∈ tracerState.invoked, Ready app (s.traced tracerState) task := by
  obtain ⟨added, outcome⟩ := trace_outcome app needed inv.root s.tracer result tracerState ran
  obtain ⟨name, listed, found⟩ := known
  have done : ∀ task ∈ tracerState.invoked, Done (s.traced tracerState) task := by
    intro task member
    by_cases before : task ∈ s.invoked
    · exact done_traced s tracerState task (settled task before)
    · exact .inr (Finset.mem_union_right _ (Finset.mem_sdiff.mpr ⟨member, before⟩))
  refine ⟨fun task member => ?_, done, fun task member prereq edge => ?_⟩
  · have seen : ∀ task, Sees app s.tracer inv.root task ∧ task ∉ s.footprint →
        ∃ name ∈ names, ∃ root, app.lookup name none = some root ∧ Reach app root task :=
      fun task permitted => ⟨name, listed, inv.root, found, sees_reach app s.tracer inv.root task permitted.1⟩
    rcases (outcome.fetched task).mp member with earlier | chosen | ⟨invoked, absent⟩
    · exact served.reached task earlier
    · exact seen task (outcome.chosen task chosen).1
    · exact seen task (outcome.dropped task invoked absent).1
  · by_cases before : task ∈ s.invoked
    · exact ready_mono s (s.traced tracerState) (List.Subset.refl _) Finset.subset_union_left task
        (served.closed task before) prereq edge
    · exact done prereq ((outcome.dropped task member before).2.2.2 prereq edge)

theorem served_batch [Fintype Task] (w : Nat) (needed : Task → Bool) (inv : Invocation Task) (status : Status)
    (tracerState : TraceState Task) (served : Served app names s) (books : Books app s)
    (fresh : ∀ call ∈ s.calls, call.array ≠ s.fetchedTasks) (clean : s.footprint = ∅)
    (back : ∀ task ∈ s.returned, task ∈ s.ended) (settled : ∀ task ∈ s.invoked, Done s task)
    (stands : s.threads[w]? = some (.invoking inv .trace))
    (result : availableTask app needed inv.root s.tracer = (.ok (some status), tracerState))
    (readied : Readied app (((s.traced tracerState).handOut ⟨s.fetchedTasks, inv.outputQueue⟩).setThread w
      (.invoking inv (.assign s.fetchedTasks)))) :
    Served app names (((s.traced tracerState).handOut ⟨s.fetchedTasks, inv.outputQueue⟩).setThread w
      (.invoking inv (.assign s.fetchedTasks))) := by
  obtain ⟨added, outcome, returns⟩ := trace_returns s w needed inv status tracerState books.shape fresh stands result
  have known := served.roots w inv _ stands
  obtain ⟨reached, -, closed⟩ := served_trace needed inv _ tracerState served known settled result
  have moved := set_thread_moves s (s.setThread w (.invoking inv (.assign s.fetchedTasks))) w _ rfl
  refine ⟨readied, served.todo, fun v other stage read => ?_, fun name listed => ?_, reached, closed, fun call listed => ?_⟩
  · rcases moved v other stage read with ⟨rfl, same⟩ | ⟨-, earlier⟩
    · cases same
      exact known
    · exact served.roots v other stage earlier
  · refine (served.served name listed).imp_right fun waits root found => ?_
    rcases waits root found with done | ⟨v, other, stage, there, rooted⟩
    · exact .inl (done_traced s tracerState root done)
    · obtain ⟨u, third, place, now, same⟩ : ∃ (u : Nat) (third : Invocation Task) (place : InvokePc),
          (s.threads.set w (.invoking inv (.assign s.fetchedTasks)))[u]? = some (.invoking third place) ∧ third.root = root := by
        by_cases here : v = w
        · subst here
          rw [stands] at there
          cases there
          exact ⟨v, inv, _, by rw [Slots.lookup_set s.threads v v _ _ stands, if_pos rfl], rooted⟩
        · exact ⟨v, other, stage, by rw [List.getElem?_set_ne (Ne.symm here)]; exact there, rooted⟩
      exact .inr ⟨u, third, place, now, same⟩
  · rcases List.mem_append.mp listed with earlier | latest
    · rw [returns_kept s _ w inv added fresh returns call earlier]
      exact served.nonempty call earlier
    · rw [List.mem_singleton.mp latest, returns.batch, if_pos rfl]
      -- what the trace is held up by is new, since nothing is in flight
      obtain ⟨lower, -, fetched, uninvoked⟩ := available_task_blocked app needed inv.root s.tracer clean status
        (by rw [result])
      rw [result] at fetched uninvoked
      rcases (outcome.fetched lower).mp fetched with earlier | chosen | ⟨invoked, -⟩
      · exact absurd (outcome.invoked (fetched_invoked books.ledger back lower earlier)) uninvoked
      · exact List.ne_nil_of_mem chosen
      · exact absurd invoked uninvoked

theorem served_nil [Fintype Task] (w : Nat) (needed : Task → Bool) (inv : Invocation Task) (tracerState : TraceState Task)
    (served : Served app names s) (settled : ∀ task ∈ s.invoked, Done s task) (alone : inv.nested = none)
    (stands : s.threads[w]? = some (.invoking inv .trace))
    (result : availableTask app needed inv.root s.tracer = (.ok none, tracerState))
    (readied : Readied app ((s.traced tracerState).setThread w (afterLoop inv))) :
    Served app names ((s.traced tracerState).setThread w (afterLoop inv)) := by
  have known := served.roots w inv _ stands
  obtain ⟨reached, done, closed⟩ := served_trace needed inv _ tracerState served known settled result
  obtain ⟨rootInvoked, -, arrays⟩ := trace_nil s needed inv.root tracerState result
  have next := after_loop_main inv alone
  rw [next] at readied ⊢
  refine ⟨readied, served.todo, fun v other stage read => ?_, fun name listed => ?_, reached, closed, fun call listed => ?_⟩
  · rcases set_thread_moves s (s.setThread w .finishing) w _ rfl v other stage read with ⟨-, same⟩ | ⟨-, earlier⟩
    · cases same
    · exact served.roots v other stage earlier
  · refine (served.served name listed).imp_right fun waits root found => ?_
    rcases waits root found with finished | ⟨v, other, stage, there, rooted⟩
    · exact .inl (done_traced s tracerState root finished)
    · by_cases here : v = w
      · subst here
        rw [stands] at there
        cases there
        exact .inl (rooted ▸ done inv.root rootInvoked)
      · refine .inr ⟨v, other, stage, ?_, rooted⟩
        show (s.threads.set w .finishing)[v]? = _
        rw [List.getElem?_set_ne (Ne.symm here)]
        exact there
  · have same : (s.traced tracerState).batch = s.batch := by
      funext a
      simp only [batch, arrays]
    show (s.traced tracerState).batch call.array ≠ []
    rw [same]
    exact served.nonempty call listed

-- invoke_task takes the next name: the main thread begins a call for its task.
omit [DecidableEq Task] in
theorem served_invoke (name : Name) (rest : List Name) (root : Task) (served : Served app names s)
    (stands : s.threads[mainThread]? = some .idle) (queued : s.todo = name :: rest) (known : app.lookup name none = some root)
    (readied : Readied app ({ s with outputs := s.outputs ++ [[]], todo := rest }.setThread mainThread
      (.invoking ⟨root, s.outputs.length, none⟩ .reset))) :
    Served app names ({ s with outputs := s.outputs ++ [[]], todo := rest }.setThread mainThread
      (.invoking ⟨root, s.outputs.length, none⟩ .reset)) := by
  have moved := set_thread_moves s (s.setThread mainThread (.invoking ⟨root, s.outputs.length, none⟩ .reset)) mainThread _ rfl
  refine ⟨readied, fun other member => served.todo (queued ▸ List.mem_cons_of_mem name member), fun v inv stage read => ?_,
    fun other listed => ?_, served.reached, served.closed, served.nonempty⟩
  · rcases moved v inv stage read with ⟨-, same⟩ | ⟨-, earlier⟩
    · cases same
      exact ⟨name, served.todo (queued ▸ List.mem_cons_self), known⟩
    · exact served.roots v inv stage earlier
  · rcases served.served other listed with later | waits
    · rw [queued] at later
      rcases List.mem_cons.mp later with rfl | later
      · refine .inr fun wanted found => .inr ⟨mainThread, ⟨root, s.outputs.length, none⟩, .reset, ?_, ?_⟩
        · show (s.threads.set mainThread _)[mainThread]? = _
          rw [Slots.lookup_set s.threads mainThread mainThread _ _ stands, if_pos rfl]
        · exact Option.some.inj (known.symm.trans found)
      · exact .inl later
    · refine .inr fun wanted found => (waits wanted found).imp_right ?_
      rintro ⟨v, inv, stage, there, rooted⟩
      have apart : v ≠ mainThread := by
        rintro rfl
        rw [stands] at there
        cases there
      refine ⟨v, inv, stage, ?_, rooted⟩
      show (s.threads.set mainThread _)[v]? = _
      rw [List.getElem?_set_ne (Ne.symm apart)]
      exact there

omit [DecidableEq Task] in
theorem served_unknown (name : Name) (rest : List Name) (served : Served app names s)
    (stands : s.threads[mainThread]? = some .idle) (queued : s.todo = name :: rest) (unknown : app.lookup name none = none)
    (readied : Readied app ({ s with todo := rest }.setThread mainThread .exited)) :
    Served app names ({ s with todo := rest }.setThread mainThread .exited) := by
  have moved : Served app names (s.setThread mainThread .exited) :=
    served_move _ mainThread _ .exited served
      ⟨served.readied.flags, served.readied.arrays, served.readied.queued, readied.popped⟩ stands rfl rfl rfl rfl rfl rfl
      (List.Subset.refl _) subset_rfl (by simp) (by simp)
  refine { moved with readied := readied, todo := fun other member => ?_, served := fun other listed => ?_ }
  · exact served.todo (queued ▸ List.mem_cons_of_mem name member)
  · rcases moved.served other listed with later | waits
    · rw [show (s.setThread mainThread .exited).todo = name :: rest from queued] at later
      rcases List.mem_cons.mp later with rfl | later
      · refine .inr fun root found => ?_
        rw [unknown] at found
        cases found
      · exact .inl later
    · exact .inr waits

theorem served_step [Fintype Task] (after : Operator Task Name) (label : OperatorLabel Task) (served : Served app names s)
    (books : Books app s) (roles : Roles s) (solitary : Solitary s) (noNested : NoNested label)
    (effect : Effect app s label after) : Served app names after := by
  have calm : Calm app s label := by
    rintro w needed inv rfl stands task - prereq - started
    exact (trace_in_flight books roles solitary w inv stands).2.1 prereq started
  have readied := readied_step s after label served.readied calm effect
  have move : ∀ (w : Nat) (old pc : ThreadPc Task), s.threads[w]? = some old → after.threads = s.threads.set w pc →
      after.todo = s.todo → after.fetched = s.fetched → after.invoked = s.invoked → after.calls = s.calls →
      after.batch = s.batch → s.ended ⊆ after.ended → s.skipped ⊆ after.skipped →
      (∀ inv stage, old = .invoking inv stage → ∃ next, pc = .invoking inv next) →
      (∀ inv stage, pc = .invoking inv stage → ∃ earlier, old = .invoking inv earlier) → Served app names after :=
    fun w old pc stands => served_move after w old pc served readied stands
  have onward : ∀ (w : Nat) (inv : Invocation Task) (stage next : InvokePc), s.threads[w]? = some (.invoking inv stage) →
      after.threads = s.threads.set w (.invoking inv next) → after.todo = s.todo → after.fetched = s.fetched →
      after.invoked = s.invoked → after.calls = s.calls → after.batch = s.batch → s.ended ⊆ after.ended →
      s.skipped ⊆ after.skipped → Served app names after := by
    intro w inv stage next stands threads todo fetched invoked calls batch ended skipped
    refine move w _ _ stands threads todo fetched invoked calls batch ended skipped ?_ ?_
    · rintro other place ⟨⟩
      exact ⟨next, rfl⟩
    · rintro other place ⟨⟩
      exact ⟨stage, rfl⟩
  have nested : ∀ (w : Nat) (inv : Invocation Task) (stage : InvokePc) (pair : Task × Nat),
      s.threads[w]? = some (.invoking inv stage) → inv.nested ≠ some pair := by
    intro w inv stage pair stands nested
    rw [solitary.alone w inv stage stands] at nested
    cases nested
  have settled := trace_in_flight books roles solitary
  cases effect with
  | popRetired w n wake stands =>
      exact move w _ .exited stands rfl rfl rfl rfl rfl rfl (List.Subset.refl _) subset_rfl (by simp) (by simp)
  | popClosed w n wake cv stands =>
      exact move w _ .exited stands rfl rfl rfl rfl rfl rfl (List.Subset.refl _) subset_rfl (by simp) (by simp)
  | popWait w n wake stands =>
      exact move w _ (.popping n) stands rfl rfl rfl rfl rfl rfl (List.Subset.refl _) subset_rfl (by simp) (by simp)
  | popTask w n wake cv task rest stands =>
      exact move w _ (.popped task) stands rfl rfl rfl rfl rfl rfl (List.Subset.refl _) subset_rfl (by simp) (by simp)
  | start w task stands => exact served_start w task served readied stands
  | call w root task stands => exact absurd noNested (no_nested_call w root)
  | taskEnd w task stands =>
      exact move w _ (.executed task) stands rfl rfl rfl rfl rfl rfl (List.subset_append_left _ _) subset_rfl (by simp) (by simp)
  | complete w i task content stands =>
      exact move w _ (.popping 0) stands rfl rfl rfl rfl rfl rfl (List.Subset.refl _) subset_rfl (by simp) (by simp)
  | reset w inv stands =>
      exact onward w inv _ .trace stands rfl rfl rfl rfl rfl (funext (batch_append s)) (List.Subset.refl _) subset_rfl
  | traceBatch w needed inv status tracerState stands result =>
      obtain ⟨clean, fresh⟩ := solitary.scratch w inv stands
      exact served_batch w needed inv status tracerState served books fresh clean (settled w inv stands).1
        (settled w inv stands).2.2 stands result readied
  | traceNil w needed inv tracerState stands result =>
      exact served_nil w needed inv tracerState served (settled w inv stands).2.2 (solitary.alone w inv _ stands) stands result
        readied
  | traceError w needed inv error tracerState stands result =>
      exact absurd result (available_task_no_error app needed inv.root s.tracer _ (books.shape.roots w inv .trace stands) error)
  | assign w a inv stands =>
      exact onward w inv _ (.push a) stands rfl rfl rfl rfl rfl rfl (List.Subset.refl _) subset_rfl
  | push w a inv wake cv stands =>
      exact onward w inv _ (.collect a 0) stands rfl rfl rfl rfl rfl rfl (List.Subset.refl _) subset_rfl
  | collect w a taken inv b rest stands =>
      exact onward w inv _ (.collect a (taken + 1)) stands rfl rfl rfl rfl rfl rfl (List.Subset.refl _) subset_rfl
  | stray w a taken inv b rest stands =>
      exact onward w inv _ .raised stands rfl rfl rfl rfl rfl rfl (List.Subset.refl _) subset_rfl
  | again w a taken inv stands => exact onward w inv _ .reset stands rfl rfl rfl rfl rfl rfl (List.Subset.refl _) subset_rfl
  | threadEnd w thread inv task stands pair => exact absurd pair (nested w inv _ _ stands)
  | join w thread own inv task stands pair => exact absurd pair (nested w inv _ _ stands)
  | invokeTask name rest root stands queued known => exact served_invoke name rest root served stands queued known readied
  | invokeUnknown name rest stands queued unknown => exact served_unknown name rest served stands queued unknown readied
  | finish wake cv stands =>
      exact move mainThread _ .joinWorkers stands rfl rfl rfl rfl rfl rfl (List.Subset.refl _) subset_rfl (by simp) (by simp)
  | joinWorkers stands =>
      exact move mainThread _ .idle stands rfl rfl rfl rfl rfl rfl (List.Subset.refl _) subset_rfl (by simp) (by simp)

end Serving

structure Single (app : Application Task Name Scope) (names : List Name) (s : Operator Task Name) : Prop where
  crewed : Crewed app s
  solitary : Solitary s
  served : Served app names s

section Runs

variable [Fintype Task] {app : Application Task Name Scope} {names : List Name}

theorem single_orderly (s after : Operator Task Name) (label : OperatorLabel Task) (crewed : Crewed app s)
    (solitary : Solitary s) (noNested : NoNested label) (effect : Effect app s label after) : Orderly app s label := by
  have vacant := standins_unregistered crewed.standins solitary.alone
  refine ⟨⟨?_, ?_⟩, ?_⟩
  · cases effect with
    | traceBatch w needed inv status tracerState stands => exact fun _ => (solitary.scratch w inv stands).2
    | traceNil w needed inv tracerState stands => exact fun _ => (solitary.scratch w inv stands).2
    | traceError w needed inv error tracerState stands => exact fun _ => (solitary.scratch w inv stands).2
    | _ => exact fun traces => by cases traces
  · rintro w root rfl
    exact absurd noNested (no_nested_call w root)
  · cases label with
    | pop w wake =>
        intro member
        rw [vacant] at member
        cases member
    | _ => trivial

theorem single_step (s after : Operator Task Name) (label : OperatorLabel Task) (single : Single app names s)
    (noNested : NoNested label) (effect : Effect app s label after) : Single app names after where
  crewed := crewed_step s after label single.crewed
    (single_orderly s after label single.crewed single.solitary noNested effect) effect
  solitary := solitary_step after label single.solitary single.crewed.roles single.crewed.books.shape noNested effect
  served := served_step after label single.served single.crewed.books single.crewed.roles single.solitary noNested effect

omit [Fintype Task] in
theorem single_new (n : Nat) (buildable : BuildableNames app names) : Single app names (new n names : Operator Task Name) where
  crewed := crewed_new n names buildable
  solitary := ⟨fun w inv stage read => absurd read (new_nobody n names w inv stage),
    fun w inv read => absurd read (new_nobody n names w inv _)⟩
  served := ⟨readied_new n names, List.Subset.refl _, fun w inv stage read => absurd read (new_nobody n names w inv stage),
    fun name listed => .inl listed, by simp [new], by simp [new], by simp [new]⟩

theorem single_run (n : Nat) (buildable : BuildableNames app names)
    (guard : Operator Task Name → OperatorLabel Task → Prop) (noNested : ∀ s label, guard s label → NoNested label)
    (s : Operator Task Name) (run : Machine.Run (step app) guard (new n names) s) : Single app names s :=
  Machine.run_invariant (Single app names) (new n names) (single_new n buildable)
    (fun before after label _ single allowed taken =>
      single_step before after label single (noNested before label allowed) (step_effect app before after label taken))
    s run

end Runs

-- One call of Operator#invoke: what every state on the way satisfies, and what
-- is true once the while loop has been left.
structure InvokesOnce (app : Application Task Name Scope) [Fintype Task] (root : Task) (s : Operator Task Name) : Prop where
  once : s.started.Nodup
  ready : StartsReady app s
  nonempty : ∀ call ∈ s.calls, s.batch call.array ≠ []
  counted : ∀ (w : Nat) inv a taken, s.threads[w]? = some (.invoking inv (.collect a taken)) →
    taken = (s.collected.filter (· ∈ s.batch a)).length ∧ taken ≤ (s.batch a).length
  closed : ∀ call ∈ s.calls, (∃ inv stage, s.threads[mainThread]? = some (.invoking inv stage) ∧ stage.array = some call.array) ∨
    ∀ task ∈ s.batch call.array, task ∈ s.collected
  included : ∀ (w : Nat) inv, s.threads[w]? ≠ some (.invoking inv .raised)
  rounds : s.calls.length ≤ { task | Reach app root task }.ncard
  finished : s.todo = [] → (∀ inv stage, s.threads[mainThread]? ≠ some (.invoking inv stage)) →
    root ∈ s.invoked ∧ ∀ task, Reach app root task →
      (s.ended.count task = 1 ∧ task ∉ s.skipped) ∨ (task ∈ s.skipped ∧ task ∉ s.started)

section Invoke

variable {app : Application Task Name Scope} {s : Operator Task Name} {names : List Name}

omit [DecidableEq Task] in
theorem rounds_returned (calls : List BatchCall) (batch : Nat → List Task)
    (nonempty : ∀ call ∈ calls, batch call.array ≠ []) :
    calls.length ≤ (calls.flatMap fun call => batch call.array).length := by
  induction calls with
  | nil => simp
  | cons call rest ih =>
      have some := List.length_pos_iff.mpr (nonempty call List.mem_cons_self)
      have others := ih fun other listed => nonempty other (List.mem_cons_of_mem call listed)
      rw [List.flatMap_cons, List.length_append, List.length_cons]
      omega

omit [DecidableEq Task] in
theorem done_invoked (ledger : Ledger s) (task : Task) (done : Done s task) : task ∈ s.invoked := by
  rcases done with ended | skipped
  · exact (ledger.invoked task).mpr (.inl ((ledger_members ledger task).1 ended))
  · exact (ledger.invoked task).mpr (.inr skipped)

-- The flags close downwards, so a root that is done has everything below done.
theorem done_below (single : Single app names s) (root task : Task) (done : Done s root) (below : Reach app root task) :
    Done s task := by
  induction below with
  | refl => exact done
  | tail _ edge ih => exact single.served.closed _ (done_invoked single.crewed.books.ledger _ ih) _ edge

theorem done_exactly (ledger : Ledger s) (task : Task) (done : Done s task) :
    (s.ended.count task = 1 ∧ task ∉ s.skipped) ∨ (task ∈ s.skipped ∧ task ∉ s.started) := by
  rcases done with ended | skipped
  · refine .inl ⟨List.count_eq_one_of_mem (ended_nodup ledger) ended, fun skipped => ?_⟩
    exact ledger.skipped task skipped (ended_returned ledger task ended)
  · exact .inr ⟨skipped, fun started => ledger.skipped task skipped (started_returned ledger task started)⟩

theorem single_root_done (single : Single app names s) (name : Name) (listed : name ∈ names) (root : Task)
    (found : app.lookup name none = some root) (none : s.todo = [])
    (left : ∀ inv stage, s.threads[mainThread]? ≠ some (.invoking inv stage)) : Done s root := by
  rcases single.served.served name listed with later | waits
  · rw [none] at later
    cases later
  · rcases waits root found with done | ⟨w, inv, stage, there, -⟩
    · exact done
    · have main := solitary_main single.crewed.roles single.solitary w inv stage there
      exact absurd (main ▸ there) (left inv stage)

theorem single_invokes_once [Fintype Task] (name : Name) (root : Task) (found : app.lookup name none = some root)
    (single : Single app [name] s) : InvokesOnce app root s := by
  have books := single.crewed.books
  have reached : ∀ task ∈ s.returned, Reach app root task := by
    intro task member
    obtain ⟨other, listed, target, resolved, below⟩ :=
      single.served.reached task ((books.ledger.fetched task).mpr (.inl member))
    rw [List.mem_singleton.mp listed, found] at resolved
    cases resolved
    exact below
  refine ⟨started_nodup books.ledger, readied_starts s single.served.readied, single.served.nonempty, ?_, ?_,
    books.routing.sound, ?_, fun none left => ?_⟩
  · intro w inv a taken stands
    have counted := books.routing.counted w inv a taken stands
    refine ⟨counted.symm, ?_⟩
    have distinct : (s.collected.filter (· ∈ s.batch a)).Nodup := (collected_nodup books.ledger).filter _
    have inside : s.collected.filter (· ∈ s.batch a) ⊆ s.batch a :=
      fun task member => by simpa using (List.mem_filter.mp member).2
    exact counted ▸ (List.subperm_of_subset distinct inside).length_le
  · intro call listed
    refine (books.routing.closed call listed).imp_left ?_
    rintro ⟨w, inv, stage, stands, holds⟩
    have main := solitary_main single.crewed.roles single.solitary w inv stage stands
    exact ⟨inv, stage, main ▸ stands, holds⟩
  · calc s.calls.length ≤ s.returned.length := rounds_returned s.calls s.batch single.served.nonempty
      _ = s.returned.toFinset.card := (List.toFinset_card_of_nodup books.ledger.distinct).symm
      _ = (s.returned.toFinset : Set Task).ncard := (Set.ncard_coe_finset _).symm
      _ ≤ { task | Reach app root task }.ncard :=
          Set.ncard_le_ncard (fun task member => reached task (by simpa using member)) (Set.toFinite _)
  · have done := single_root_done single name List.mem_cons_self root found none left
    exact ⟨done_invoked books.ledger root done,
      fun task below => done_exactly books.ledger task (done_below single root task done below)⟩

end Invoke

omit [DecidableEq Task] in
theorem name_buildable (app : Application Task Name Scope) (name : Name) (root : Task) (found : app.lookup name none = some root)
    (buildable : Buildable app root) : BuildableNames app [name] := by
  intro other listed target resolved
  rw [List.mem_singleton.mp listed, found] at resolved
  cases resolved
  exact buildable

-- A run in which no action calls Task#invoke, with any answers of needed?, any
-- number of workers and any interleaving.
theorem invoke_runs_each_task_once [Fintype Task] (app : Application Task Name Scope) (name : Name) (root : Task)
    (found : app.lookup name none = some root) (buildable : Buildable app root) (n : Nat) (s : Operator Task Name)
    (run : Machine.Run (step app) (fun _ label => NoNested label) (new n [name]) s) : InvokesOnce app root s :=
  single_invokes_once name root found
    (single_run n (name_buildable app name root found buildable) _ (fun _ _ allowed => allowed) s run)

theorem invoke_runs_each_task_once_two_leaves :
    ∃ s : Operator (Fin 5) (Fin 5), s.threads[mainThread]? = some .finishing ∧ s.ended = [1, 2, 0] ∧
      InvokesOnce (graph twoLeaves) 0 s := by
  obtain ⟨s, run, stands, ended⟩ := Machine.run_of_exec (step (graph twoLeaves)) (fun _ label => NoNested label)
    (fun s => s.threads[mainThread]? = some .finishing ∧ s.ended = [1, 2, 0])
    [.invokeTask, .reset 0, .trace 0 allNeeded, .assign 0, .push 0 none, .pop 1 none, .start 1, .taskEnd 1, .complete 1,
      .pop 1 none, .start 1, .taskEnd 1, .complete 1, .pop 1 none, .collect 0, .collect 0, .again 0, .reset 0,
      .trace 0 allNeeded, .assign 0, .push 0 (some 1), .pop 1 none, .start 1, .taskEnd 1, .complete 1, .pop 1 none,
      .collect 0, .again 0, .reset 0, .trace 0 allNeeded] (new 1 [0]) (by decide)
  exact ⟨s, stands, ended,
    invoke_runs_each_task_once (graph twoLeaves) 0 0 rfl (two_leaves_buildable 0) 1 s run⟩

end Operator

end Pwrake
