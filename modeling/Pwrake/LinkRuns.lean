import Pwrake.LinkOrder

set_option autoImplicit false

namespace Pwrake

open Shell

namespace Link

variable {Env : Type*} {term : Terminator} {remote : Remote Env term} {start : Env} {s : Link Env}

-- The exchange that a caller took for its own: one of the finished ones, or
-- none because the pipe had ended.
def Owned (s : Link Env) (t : Nat) : Option Entry → Prop
  | none => s.shell.io.closed = true
  | some e => e ∈ s.exchanges ∧ e.caller = t

def Told (s : Link Env) : CallOutcome → Prop
  | .opened t own => s.Owned t own
  | .system t own _ => s.Owned t own
  | .backquote t own res => s.Owned t own ∧ ∀ e ∈ own, res = e.lines.flatten
  | .raised _ _ _ => s.shell.io.closed = true

structure Reported (s : Link Env) : Prop where
  outcomes : ∀ o ∈ s.outcomes, s.Told o
  returning : ∀ (t : Nat) (own : Option Entry), s.callers[t]? = some (.returning own) → s.Owned t own

section Steps

theorem look_closed (order : InOrder remote start s) (t : Nat) (call : Call) (lines : List Bytes) (ending : Ending) (shell : Shell)
    (stands : s.callers[t]? = some (.reading call lines)) (read : s.shell.look = .ended ending shell) :
    ending ≠ .terminated → s.shell.io.closed = true := by
  obtain ⟨mid, -, standing⟩ := standing_of_holder t _ order stands rfl
  cases standing with
  | remnant _ _ gone =>
      have look : s.shell.look = .ended .eof s.shell := by
        have nothing : s.shell.io.gets = .nothing := by rw [gone]; rfl
        rw [Shell.look, nothing]
      cases read.symm.trans look
      exact fun _ => by rw [gone]
  | reading _ _ out lost ordinary whole kept bytes flow =>
      have found := look_found s.shell out (remote.last (remote.after mid call)) lost (order.terminator ▸ ordinary) whole
        (by rw [order.terminator]; exact bytes)
      rw [read] at found
      cases found with
      | eof gone => exact fun _ => gone
      | raised error _ gone closed same => exact fun _ => closed
      | terminated _ k reported success all same closed exact => exact fun other => absurd rfl other

theorem owned_later (next : Link Env) (t : Nat) (own : Option Entry) (closed : s.shell.io.closed = true → next.shell.io.closed = true)
    (exchanges : s.exchanges ⊆ next.exchanges) (owned : s.Owned t own) : next.Owned t own := by
  cases own with
  | none => exact closed owned
  | some e => exact ⟨exchanges owned.1, owned.2⟩

theorem told_later (next : Link Env) (o : CallOutcome) (closed : s.shell.io.closed = true → next.shell.io.closed = true)
    (exchanges : s.exchanges ⊆ next.exchanges) (told : s.Told o) : next.Told o := by
  cases o with
  | opened t own => exact owned_later next t own closed exchanges told
  | system t own res => exact owned_later next t own closed exchanges told
  | backquote t own res => exact ⟨owned_later next t own closed exchanges told.1, told.2⟩
  | raised t call error => exact closed told

-- A thread changes its place and at most one outcome is added.
theorem reported_set (reported : Reported s) (next : Link Env) (t : Nat) (fresh : Caller) (more : List CallOutcome)
    (closed : s.shell.io.closed = true → next.shell.io.closed = true) (exchanges : s.exchanges ⊆ next.exchanges)
    (callers : next.callers = s.callers.set t fresh) (outcomes : next.outcomes = s.outcomes ++ more)
    (told : ∀ o ∈ more, next.Told o) (owned : ∀ own, fresh = .returning own → next.Owned t own) : Reported next := by
  constructor
  · intro o member
    rw [outcomes] at member
    rcases List.mem_append.mp member with earlier | now
    · exact told_later next o closed exchanges (reported.outcomes o earlier)
    · exact told o now
  · intro v own stands
    rw [callers] at stands
    rcases Slots.lookup_set_cases s.callers t v fresh _ stands with ⟨rfl, same⟩ | ⟨-, earlier⟩
    · exact owned own same.symm
    · exact owned_later next v own closed exchanges (reported.returning v own earlier)

theorem reported_settle (reported : Reported s) (base : Link Env) (t : Nat) (call : Call) (lines : List Bytes) (own : Option Entry)
    (callers : base.callers = s.callers) (outcomes : base.outcomes = s.outcomes)
    (closed : s.shell.io.closed = true → base.shell.io.closed = true) (exchanges : s.exchanges ⊆ base.exchanges)
    (owned : base.Owned t own) (lined : ∀ e ∈ own, e.lines = lines) : Reported (base.settle t call lines own) := by
  cases call with
  | openPath path =>
      refine reported_set reported _ t .idle [.opened t own] closed exchanges (by rw [← callers]; rfl) (congrArg (· ++ _) outcomes) ?_
        fun _ => Caller.noConfusion
      rintro o member
      obtain rfl := List.mem_singleton.mp member
      exact owned
  | system command =>
      refine reported_set reported _ t (.returning own) [] closed exchanges (by rw [← callers]; rfl)
        (outcomes.trans (List.append_nil _).symm) (fun o member => (nomatch member)) ?_
      rintro other ⟨⟩
      exact owned
  | backquote command =>
      refine reported_set reported _ t .idle [.backquote t own lines.flatten] closed exchanges (by rw [← callers]; rfl)
        (congrArg (· ++ _) outcomes) ?_ fun _ => Caller.noConfusion
      rintro o member
      obtain rfl := List.mem_singleton.mp member
      exact ⟨owned, fun e inside => by rw [lined e inside]⟩

theorem reported_step (order : InOrder remote start s) (reported : Reported s) (label : LinkLabel) (next : Link Env)
    (effect : Effect remote s label next) : Reported next := by
  have raise : ∀ (shell : Shell) (t : Nat) (call : Call) (error : ShellError), shell.io.closed = true →
      Reported ({ s with shell := shell }.raise t call error) := by
    intro shell t call error gone
    refine reported_set reported _ t .idle [.raised t call error] (fun _ => gone) (List.Subset.refl _) rfl rfl ?_
      fun _ => Caller.noConfusion
    rintro o member
    obtain rfl := List.mem_singleton.mp member
    exact gone
  have move : ∀ (next : Link Env) (t : Nat) (fresh : Caller), next.callers = s.callers.set t fresh → next.outcomes = s.outcomes →
      next.exchanges = s.exchanges → (s.shell.io.closed = true → next.shell.io.closed = true) → (∀ own, fresh ≠ .returning own) →
      Reported next := by
    intro next t fresh callers outcomes exchanges closed other
    exact reported_set reported next t fresh [] closed (exchanges ▸ List.Subset.refl _) callers
      (outcomes.trans (List.append_nil _).symm) (fun o member => (nomatch member)) fun own same => absurd same (other own)
  have pipes : ∀ next : Link Env, next.callers = s.callers → next.outcomes = s.outcomes → next.exchanges = s.exchanges →
      (s.shell.io.closed = true → next.shell.io.closed = true) → Reported next := by
    intro next callers outcomes exchanges closed
    constructor
    · rw [outcomes]
      exact fun o member => told_later next o closed (exchanges ▸ List.Subset.refl _) (reported.outcomes o member)
    · rw [callers]
      exact fun t own stands => owned_later next t own closed (exchanges ▸ List.Subset.refl _) (reported.returning t own stands)
  cases effect with
  | call t call stands => exact move _ t (.waiting call) rfl rfl rfl id fun _ => Caller.noConfusion
  | lock t call stands free => exact move _ t (.sending call) rfl rfl rfl id fun _ => Caller.noConfusion
  | sendRaised t call stands gone => exact raise s.shell t call .brokenPipe gone
  | send t call stands there => exact move _ t (.asking call) rfl rfl rfl id fun _ => Caller.noConfusion
  | askRaised t call stands gone => exact raise s.shell t call .brokenPipe gone
  | ask t call stands there => exact move _ t (.reading call []) rfl rfl rfl id fun _ => Caller.noConfusion
  | ended t call lines ending shell stands read =>
      have cut := look_closed order t call lines ending shell stands read
      have still : s.shell.io.closed = true → shell.io.closed = true := fun gone => (look_ended s.shell shell ending read).1.trans gone
      cases ending with
      | terminated =>
          let e : Entry := ⟨t, call, lines, shell.status.getD 0⟩
          refine reported_settle reported { s with shell := shell, exchanges := s.exchanges ++ [e] } t call lines (some e) rfl rfl still
            (List.subset_append_left _ _) ⟨List.mem_append_right _ (List.mem_singleton_self e), rfl⟩ ?_
          rintro other ⟨⟩
          rfl
      | eof =>
          exact reported_settle reported { s with shell := shell } t call lines none rfl rfl still (List.Subset.refl _)
            (still (cut Ending.noConfusion)) fun e inside => nomatch inside
      | blocked => exact absurd rfl (look_ended s.shell shell _ read).2.1
      | raised error => exact raise shell t call error (still (cut Ending.noConfusion))
  | skip t call lines x shell stands read =>
      have still : s.shell.io.closed = true → shell.io.closed = true := fun gone => (look_skip s.shell shell x read).1.trans gone
      exact move _ t (.reading call (lines ++ [x])) rfl rfl rfl still fun _ => Caller.noConfusion
  | finish t own stands =>
      refine reported_set reported _ t .idle [.system t own (s.shell.status == some 0)] id (List.Subset.refl _) rfl rfl ?_
        fun _ => Caller.noConfusion
      rintro o member
      obtain rfl := List.mem_singleton.mp member
      exact reported.returning t own stands
  | serve => exact pipes _ rfl rfl rfl id
  | emit => exact pipes _ rfl rfl rfl id
  | die => exact pipes _ rfl rfl rfl fun _ => rfl

end Steps

-- What the callers of one Shell may rely on, however their calls interleave and
-- whenever the other process goes away: the exchanges are those of the commands
-- one after the other in the order of @lock, with nothing of one left for the
-- next, and what a call gives is its own exchange or the end of the pipe.
structure Served (remote : Remote Env term) (start : Env) (s : Link Env) : Prop where
  serial : ∃ env, remote.Serial (s.shell.io.closed = false) start s.exchanges env ∧
    (s.lock = none → s.shell.io.closed = false → s.Quiet env)
  told : ∀ o ∈ s.outcomes, s.Told o

theorem reported_run (n : Nat) (s : Link Env) (run : Machine.Run (step remote) (Called remote) (new term start n) s) :
    Reported s := by
  refine Machine.run_invariant Reported (new term start n) ⟨fun o member => (nomatch member), fun t own stands => ?_⟩ ?_ s run
  · cases Slots.lookup_replicate n t _ _ stands
  · intro before after label earlier reported _ taken
    exact reported_step (in_order_run n before earlier) reported label after (step_effect remote before after label taken)

theorem served_run (n : Nat) (s : Link Env) (run : Machine.Run (step remote) (Called remote) (new term start n) s) :
    Served remote start s := by
  obtain ⟨mid, done, rest⟩ := (in_order_run n s run).serial
  refine ⟨⟨mid, done, fun free there => ?_⟩, (reported_run n s run).outcomes⟩
  rw [free] at rest
  exact rest there

theorem link_serves (remote : Remote Env term) (start : Env) (n : Nat) (s : Link Env)
    (run : Machine.Run (step remote) (Called remote) (new term start n) s) : Served remote start s := served_run n s run

-- A shell for the examples: false fails, and every command prints itself.
def parrot : Remote Nat sampleTerminator where
  run env line :=
    if line = [LF] then (env, [])
    else if line = echoLine sampleTerminator then (0, terminatorLine sampleTerminator env)
    else (if line = ascii "false\n" then 1 else 0, line)
  last env := env
  blank := fun _ => rfl
  echo := fun env => by
    have other : echoLine sampleTerminator ≠ [LF] := by decide
    rw [if_neg other, if_pos rfl]

def falseCall : Call := .system [ascii "false"]

def trueCall : Call := .backquote [ascii "true"]

def Rehearsed (_ : Link Nat) : LinkLabel → Prop
  | .call _ call => call = falseCall ∨ call = trueCall
  | _ => True

instance (s : Link Nat) (label : LinkLabel) : Decidable (Rehearsed s label) := by
  cases label <;> unfold Rehearsed <;> infer_instance

theorem rehearsed_tame (call : Call) (listed : call = falseCall ∨ call = trueCall) : parrot.Tame call := by
  intro env
  have lines : ∀ text : Bytes, text = ascii "false\n" ∨ text = ascii "true\n" →
      Ordinary sampleTerminator text ∧ WholeLines text := by
    rintro text (rfl | rfl)
    · exact ⟨by unfold Ordinary; decide, .inr (by decide)⟩
    · exact ⟨by unfold Ordinary; decide, .inr (by decide)⟩
  rcases listed with rfl | rfl
  · exact lines _ (.inl rfl)
  · exact lines _ (.inr rfl)

theorem rehearsed_run (n : Nat) (s : Link Nat) (run : Machine.Run (step parrot) Rehearsed (new sampleTerminator 0 n) s) :
    Machine.Run (step parrot) (Called parrot) (new sampleTerminator 0 n) s := by
  refine Machine.run_mono (Called parrot) _ s (fun state label rehearsed => ?_) run
  cases label with
  | call t call => exact rehearsed_tame call rehearsed
  | _ => trivial

-- Thread 1 calls while thread 0 is inside its exchange; its own is cut off.
theorem link_serves_two :
    ∃ s : Link Nat, s.exchanges = [⟨0, falseCall, [ascii "false"], 1⟩] ∧
      s.outcomes = [.system 0 (some ⟨0, falseCall, [ascii "false"], 1⟩) false, .backquote 1 none (ascii "true")] ∧
      Served parrot 0 s := by
  obtain ⟨s, run, exchanges, outcomes⟩ := Machine.run_of_exec (step parrot) Rehearsed
    (fun s => s.exchanges = [⟨0, falseCall, [ascii "false"], 1⟩] ∧
      s.outcomes = [.system 0 (some ⟨0, falseCall, [ascii "false"], 1⟩) false, .backquote 1 none (ascii "true")])
    [.call 0 falseCall, .call 1 trueCall, .lock 0, .send 0, .serve, .emit 2, .ask 0, .emit 4, .read 0, .serve, .serve, .emit 67,
      .read 0, .finish 0, .lock 1, .send 1, .serve, .emit 5, .ask 1, .read 1, .die, .read 1]
    (new sampleTerminator 0 2) (by decide +kernel)
  exact ⟨s, exchanges, outcomes, link_serves parrot 0 2 s (rehearsed_run 2 s run)⟩

end Link

end Pwrake
