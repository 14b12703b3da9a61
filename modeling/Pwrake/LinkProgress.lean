import Mathlib.Data.Prod.Lex
import Pwrake.LinkRuns

set_option autoImplicit false

namespace Pwrake

open Shell

namespace Link

variable {Env : Type*} {term : Terminator} {remote : Remote Env term} {start : Env} {s : Link Env}

section Alone

-- A call begins when nobody else is in one.
def Alone (remote : Remote Env term) (s : Link Env) (label : LinkLabel) : Prop :=
  Called remote s label ∧ ∀ t call, label = .call t call → ∀ (v : Nat) (caller : Caller), s.callers[v]? = some caller → caller = .idle

-- One thread at a time is in a call, so @status is still that of its exchange
-- when it looks at it.
structure Lone (s : Link Env) : Prop where
  one : ∀ (v w : Nat) (a b : Caller), s.callers[v]? = some a → s.callers[w]? = some b → a ≠ .idle → b ≠ .idle → v = w
  mine : ∀ (t : Nat) (e : Entry), s.callers[t]? = some (.returning (some e)) → s.shell.status = some e.status
  told : ∀ (t : Nat) (e : Entry) (res : Bool), .system t (some e) res ∈ s.outcomes → res = (e.status == 0)

theorem one_set (lone : Lone s) (t : Nat) (old fresh : Caller) (stands : s.callers[t]? = some old)
    (busy : old ≠ .idle ∨ ∀ (v : Nat) (caller : Caller), s.callers[v]? = some caller → caller = .idle) :
    ∀ (v w : Nat) (a b : Caller), (s.callers.set t fresh)[v]? = some a → (s.callers.set t fresh)[w]? = some b →
      a ≠ .idle → b ≠ .idle → v = w := by
  have elsewhere : ∀ (v : Nat) (a : Caller), v ≠ t → s.callers[v]? = some a → a ≠ .idle → False := by
    intro v a other there moves
    rcases busy with busy | idle
    · exact other (lone.one v t a old there stands moves busy)
    · exact moves (idle v a there)
  intro v w a b first second moves too
  rcases Slots.lookup_set_cases s.callers t v fresh a first with ⟨rfl, -⟩ | ⟨other, there⟩
  · rcases Slots.lookup_set_cases s.callers v w fresh b second with ⟨rfl, -⟩ | ⟨other, there⟩
    · rfl
    · exact (elsewhere w b other there too).elim
  · exact (elsewhere v a other there moves).elim

-- Where the thread that moves was in a call, no other is about to return.
theorem lone_set (lone : Lone s) (next : Link Env) (t : Nat) (old fresh : Caller) (more : List CallOutcome)
    (stands : s.callers[t]? = some old) (callers : next.callers = s.callers.set t fresh)
    (outcomes : next.outcomes = s.outcomes ++ more) (busy : old ≠ .idle)
    (mine : ∀ e, fresh = .returning (some e) → next.shell.status = some e.status)
    (told : ∀ v e res, .system v (some e) res ∈ more → res = (e.status == 0)) : Lone next := by
  refine ⟨by rw [callers]; exact one_set lone t old fresh stands (.inl busy), fun v e there => ?_, fun v e res member => ?_⟩
  · rw [callers] at there
    rcases Slots.lookup_set_cases s.callers t v fresh _ there with ⟨-, same⟩ | ⟨other, earlier⟩
    · exact mine e same.symm
    · exact absurd (lone.one v t _ old earlier stands Caller.noConfusion busy) other
  · rw [outcomes] at member
    rcases List.mem_append.mp member with earlier | now
    · exact lone.told v e res earlier
    · exact told v e res now

theorem lone_settle (lone : Lone s) (base : Link Env) (t : Nat) (call : Call) (old : Caller) (lines : List Bytes) (own : Option Entry)
    (stands : s.callers[t]? = some old) (busy : old ≠ .idle) (callers : base.callers = s.callers) (outcomes : base.outcomes = s.outcomes)
    (mine : ∀ e ∈ own, base.shell.status = some e.status) : Lone (base.settle t call lines own) := by
  have quiet : ∀ (o : CallOutcome), (∀ v e res, o ≠ .system v e res) →
      ∀ v e res, .system v (some e) res ∈ [o] → res = (e.status == 0) :=
    fun o other v e res member => absurd (List.mem_singleton.mp member).symm (other v (some e) res)
  cases call with
  | openPath path =>
      exact lone_set lone _ t old .idle [.opened t own] stands (by rw [← callers]; rfl) (congrArg (· ++ _) outcomes) busy
        (fun _ => Caller.noConfusion) (quiet _ fun _ _ _ => CallOutcome.noConfusion)
  | system command =>
      refine lone_set lone _ t old (.returning own) [] stands (by rw [← callers]; rfl) (outcomes.trans (List.append_nil _).symm) busy ?_
        fun v e res member => nomatch member
      rintro e ⟨⟩
      exact mine e rfl
  | backquote command =>
      exact lone_set lone _ t old .idle [.backquote t own lines.flatten] stands (by rw [← callers]; rfl)
        (congrArg (· ++ _) outcomes) busy (fun _ => Caller.noConfusion) (quiet _ fun _ _ _ => CallOutcome.noConfusion)

theorem lone_step (lone : Lone s) (label : LinkLabel) (next : Link Env) (alone : Alone remote s label)
    (effect : Effect remote s label next) : Lone next := by
  have move : ∀ (next : Link Env) (t : Nat) (old fresh : Caller), s.callers[t]? = some old → next.callers = s.callers.set t fresh →
      next.outcomes = s.outcomes → old ≠ .idle → (∀ own, fresh ≠ .returning own) → Lone next := by
    intro next t old fresh stands callers outcomes busy other
    exact lone_set lone next t old fresh [] stands callers (outcomes.trans (List.append_nil _).symm) busy
      (fun e same => absurd same (other _)) fun v e res member => nomatch member
  have raise : ∀ (shell : Shell) (t : Nat) (call : Call) (old : Caller) (error : ShellError), s.callers[t]? = some old →
      old ≠ .idle → Lone ({ s with shell := shell }.raise t call error) := by
    intro shell t call old error stands busy
    refine lone_set lone _ t old .idle [.raised t call error] stands rfl rfl busy (fun _ => Caller.noConfusion) ?_
    intro v e res member
    cases List.mem_singleton.mp member
  have pipes : ∀ next : Link Env, next.callers = s.callers → next.outcomes = s.outcomes → next.shell.status = s.shell.status →
      Lone next := by
    intro next callers outcomes status
    refine ⟨?_, ?_, ?_⟩
    · rw [callers]
      exact lone.one
    · rw [callers, status]
      exact lone.mine
    · rw [outcomes]
      exact lone.told
  cases effect with
  | call t call stands =>
      have idle := alone.2 t call rfl
      refine ⟨one_set lone t .idle (.waiting call) stands (.inr idle), fun v e there => ?_, lone.told⟩
      rcases Slots.lookup_set_cases s.callers t v (.waiting call) _ there with ⟨-, same⟩ | ⟨-, earlier⟩
      · cases same
      · cases idle v _ earlier
  | lock t call stands free => exact move _ t _ (.sending call) stands rfl rfl Caller.noConfusion fun _ => Caller.noConfusion
  | sendRaised t call stands gone => exact raise s.shell t call _ .brokenPipe stands Caller.noConfusion
  | send t call stands there => exact move _ t _ (.asking call) stands rfl rfl Caller.noConfusion fun _ => Caller.noConfusion
  | askRaised t call stands gone => exact raise s.shell t call _ .brokenPipe stands Caller.noConfusion
  | ask t call stands there => exact move _ t _ (.reading call []) stands rfl rfl Caller.noConfusion fun _ => Caller.noConfusion
  | ended t call lines ending shell stands read =>
      cases ending with
      | terminated =>
          obtain ⟨k, reported⟩ := (look_ended s.shell shell _ read).2.2 rfl
          let e : Entry := ⟨t, call, lines, shell.status.getD 0⟩
          refine lone_settle lone { s with shell := shell, exchanges := s.exchanges ++ [e] } t call _ lines (some e) stands
            Caller.noConfusion rfl rfl ?_
          rintro other ⟨⟩
          change shell.status = some (shell.status.getD 0)
          rw [reported]
          rfl
      | eof =>
          exact lone_settle lone { s with shell := shell } t call _ lines none stands Caller.noConfusion rfl rfl
            fun e inside => nomatch inside
      | blocked => exact absurd rfl (look_ended s.shell shell _ read).2.1
      | raised error => exact raise shell t call _ error stands Caller.noConfusion
  | skip t call lines x shell stands read =>
      exact move _ t _ (.reading call (lines ++ [x])) stands rfl rfl Caller.noConfusion fun _ => Caller.noConfusion
  | finish t own stands =>
      refine lone_set lone _ t _ .idle [.system t own (s.shell.status == some 0)] stands rfl rfl Caller.noConfusion
        (fun _ => Caller.noConfusion) ?_
      intro v e res member
      cases List.mem_singleton.mp member
      rw [lone.mine t e stands]
      rfl
  | serve => exact pipes _ rfl rfl rfl
  | emit => exact pipes _ rfl rfl rfl
  | die => exact pipes _ rfl rfl rfl

end Alone

theorem lone_link_reports (remote : Remote Env term) (start : Env) (n : Nat) (s : Link Env)
    (run : Machine.Run (step remote) (Alone remote) (new term start n) s) :
    Served remote start s ∧ ∀ t e res, .system t (some e) res ∈ s.outcomes → e ∈ s.exchanges ∧ e.caller = t ∧ res = (e.status == 0) := by
  have called : Machine.Run (step remote) (Called remote) (new term start n) s :=
    Machine.run_mono (Called remote) _ s (fun _ _ alone => alone.1) run
  have lone : Lone s := by
    refine Machine.run_invariant Lone (new term start n) ⟨?_, ?_, fun t e res member => (nomatch member)⟩ ?_ s run
    · intro v w a b first _ moves
      exact absurd (Slots.lookup_replicate n v _ a first) moves
    · intro t e stands
      cases Slots.lookup_replicate n t _ _ stands
    · intro before after label _ holds alone taken
      exact lone_step holds label after alone (step_effect remote before after label taken)
  have served := served_run n s called
  refine ⟨served, fun t e res member => ?_⟩
  obtain ⟨listed, mine⟩ := served.told _ member
  exact ⟨listed, mine, lone.told t e res member⟩

def RehearsedAlone (s : Link Nat) : LinkLabel → Prop
  | .call _ call => (call = falseCall ∨ call = trueCall) ∧ ∀ caller ∈ s.callers, caller = .idle
  | _ => True

instance (s : Link Nat) (label : LinkLabel) : Decidable (RehearsedAlone s label) :=
  match label with
  | .call _ call => @instDecidableAnd (call = falseCall ∨ call = trueCall) _ inferInstance
      (List.decidableBAll (fun caller => caller = Caller.idle) s.callers)
  | .lock _ | .send _ | .ask _ | .read _ | .finish _ | .serve | .emit _ | .die => instDecidableTrue

-- Thread 1 uses the Shell after thread 0.
theorem lone_link_reports_two :
    ∃ s : Link Nat, s.exchanges = [⟨0, falseCall, [ascii "false"], 1⟩, ⟨1, trueCall, [ascii "true"], 0⟩] ∧ Served parrot 0 s ∧
      ∀ t e res, .system t (some e) res ∈ s.outcomes → e ∈ s.exchanges ∧ e.caller = t ∧ res = (e.status == 0) := by
  obtain ⟨s, run, exchanges⟩ := Machine.run_of_exec (step parrot) RehearsedAlone
    (fun s => s.exchanges = [⟨0, falseCall, [ascii "false"], 1⟩, ⟨1, trueCall, [ascii "true"], 0⟩])
    ([.call 0 falseCall, .lock 0, .send 0, .ask 0, .serve, .emit 6, .serve, .serve, .emit 67, .read 0, .read 0, .finish 0] ++
      [.call 1 trueCall, .lock 1, .send 1, .ask 1, .serve, .emit 5, .serve, .serve, .emit 67, .read 1, .read 1])
    (new sampleTerminator 0 2) (by decide +kernel)
  refine ⟨s, exchanges, lone_link_reports parrot 0 2 s (Machine.run_mono (Alone parrot) _ s (fun state label alone => ?_) run)⟩
  cases label with
  | call t call =>
      refine ⟨rehearsed_tame call alone.1, fun t other same v caller stands => ?_⟩
      exact alone.2 caller (List.mem_of_getElem? stands)
  | _ => exact ⟨trivial, fun t other same => nomatch same⟩

-- Two threads on one Shell: @lock keeps the exchanges apart, but @status is
-- read behind it, and the failure of one call passes for a success.
theorem shared_status_mixes :
    ∃ s : Link Nat, Machine.Run (step parrot) (Called parrot) (new sampleTerminator 0 2) s ∧
      .system 0 (some ⟨0, falseCall, [ascii "false"], 1⟩) true ∈ s.outcomes := by
  obtain ⟨s, run, mixed⟩ := Machine.run_of_exec (step parrot) Rehearsed
    (fun s => .system 0 (some ⟨0, falseCall, [ascii "false"], 1⟩) true ∈ s.outcomes)
    ([.call 0 falseCall, .lock 0, .send 0, .ask 0, .serve, .emit 6, .serve, .serve, .emit 67, .read 0, .read 0] ++
      [.call 1 trueCall, .lock 1, .send 1, .ask 1, .serve, .emit 5, .serve, .serve, .emit 67, .read 1, .read 1, .finish 0])
    (new sampleTerminator 0 2) (by decide +kernel)
  exact ⟨s, rehearsed_run 2 s run, mixed⟩

section Progress

def place : Caller → Nat
  | .idle => 0
  | .returning _ => 1
  | .reading _ _ => 2
  | .asking _ => 3
  | .sending _ => 4
  | .waiting _ => 5

-- The steps left to the callers, then what the other process has yet to read,
-- to print, and what has yet to be read of it.
def measure (s : Link Env) : Nat ×ₗ Nat ×ₗ Nat ×ₗ Nat :=
  toLex ((s.callers.map place).sum + (if s.shell.io.closed then 0 else 1),
    toLex (s.input.length, toLex (s.emitting.length, s.shell.io.bytes.length)))

theorem place_set (next : Link Env) (t : Nat) (old fresh : Caller) (stands : s.callers[t]? = some old)
    (callers : next.callers = s.callers.set t fresh) (less : place fresh < place old) :
    (next.callers.map place).sum < (s.callers.map place).sum := by
  have moved := Slots.sum_set place s.callers t old fresh stands
  rw [callers]
  omega

end Progress

end Link

end Pwrake
