import Pwrake.LinkFlow

set_option autoImplicit false

namespace Pwrake

open Shell

namespace Link

variable {Env : Type*} {term : Terminator} {remote : Remote Env term} {start : Env} {s : Link Env}

@[simp] theorem settle_shell (t : Nat) (call : Call) (lines : List Bytes) (own : Option Entry) :
    (s.settle t call lines own).shell = s.shell := by cases call <;> rfl

@[simp] theorem settle_lock (t : Nat) (call : Call) (lines : List Bytes) (own : Option Entry) :
    (s.settle t call lines own).lock = none := by cases call <;> rfl

@[simp] theorem settle_exchanges (t : Nat) (call : Call) (lines : List Bytes) (own : Option Entry) :
    (s.settle t call lines own).exchanges = s.exchanges := by cases call <;> rfl

theorem settle_quiet (t : Nat) (call : Call) (lines : List Bytes) (own : Option Entry) (mid : Env) (quiet : s.Quiet mid) :
    (s.settle t call lines own).Quiet mid := by
  cases call <;> exact ⟨quiet.bytes, quiet.input, quiet.emitting, quiet.env⟩

theorem settle_callers (t : Nat) (call : Call) (lines : List Bytes) (own : Option Entry) :
    ∃ fresh, (s.settle t call lines own).callers = s.callers.set t fresh ∧ holds fresh = false ∧ ∀ call, fresh ≠ .waiting call := by
  cases call with
  | openPath | backquote => exact ⟨.idle, rfl, rfl, fun _ => Caller.noConfusion⟩
  | system => exact ⟨.returning own, rfl, rfl, fun _ => Caller.noConfusion⟩

theorem in_order_raise (order : InOrder remote start s) (shell : Shell) (t : Nat) (call : Call) (old : Caller) (error : ShellError)
    (stands : s.callers[t]? = some old) (held : holds old = true) (terminator : shell.terminator = s.shell.terminator)
    (gone : shell.io.closed = true) :
    InOrder remote start ({ s with shell := shell }.raise t call error) := by
  obtain ⟨mid, done, -⟩ := standing_of_holder t old order stands held
  refine in_order_leave _ t old .idle order stands held rfl rfl (fun _ => Caller.noConfusion) rfl
    (terminator.trans order.terminator) ⟨mid, ?_, fun there => nomatch gone.symm.trans there⟩
  exact done.relax fun there => nomatch gone.symm.trans there

theorem in_order_ended (order : InOrder remote start s) (t : Nat) (call : Call) (lines : List Bytes) (ending : Ending) (shell : Shell)
    (stands : s.callers[t]? = some (.reading call lines)) (read : s.shell.look = .ended ending shell) :
    InOrder remote start ({ s with shell := shell }.ended t call lines ending) := by
  obtain ⟨mid, done, standing⟩ := standing_of_holder t _ order stands rfl
  -- the stream has ended before the terminator line
  have cut : s.shell.io.closed = true → InOrder remote start ({ s with shell := s.shell }.settle t call lines none) := by
    intro gone
    obtain ⟨fresh, callers, loose, fresh_call⟩ := settle_callers (s := s) t call lines none
    refine in_order_leave _ t _ fresh order stands rfl callers loose fresh_call (settle_lock ..)
      ((congrArg Shell.terminator (settle_shell ..)).trans order.terminator) ⟨mid, ?_, ?_⟩
    · rw [settle_shell, settle_exchanges]
      exact done
    · rw [settle_shell]
      exact fun there => nomatch gone.symm.trans there
  cases standing with
  | remnant _ _ gone =>
      have closed : s.shell.io.closed = true := by rw [gone]
      have look : s.shell.look = .ended .eof s.shell := by
        have nothing : s.shell.io.gets = .nothing := by rw [gone]; rfl
        rw [Shell.look, nothing]
      cases read.symm.trans look
      exact cut closed
  | reading _ _ out lost ordinary whole kept bytes flow =>
      have found := look_found s.shell out (remote.last (remote.after mid call)) lost (order.terminator ▸ ordinary) whole
        (by rw [order.terminator]; exact bytes)
      rw [read] at found
      cases found with
      | eof gone => exact cut gone
      | raised error _ gone closed same => exact in_order_raise order shell t call _ error stands rfl same gone
      | terminated _ k reported success all same closed exact =>
          have entry : shell.status.getD 0 = k := by rw [reported]; rfl
          subst all
          rw [Lines.lines, List.map_nil, List.append_nil] at kept
          let e : Entry := ⟨t, call, lines, shell.status.getD 0⟩
          change InOrder remote start ({ s with shell := shell, exchanges := s.exchanges ++ [e] }.settle t call lines (some e))
          obtain ⟨fresh, callers, loose, fresh_call⟩ :=
            settle_callers (s := { s with shell := shell, exchanges := s.exchanges ++ [e] }) t call lines (some e)
          refine in_order_leave _ t _ fresh order stands rfl callers loose fresh_call (settle_lock ..)
            ((congrArg Shell.terminator (settle_shell ..)).trans (same.trans order.terminator)) ⟨remote.left mid call, ?_, ?_⟩
          · rw [settle_shell, settle_exchanges]
            refine .snoc s.exchanges mid e (done.relax fun there => closed ▸ there) kept (by rw [← success, ← entry]) fun there => ?_
            change shell.status.getD 0 = _
            rw [entry, (exact (closed ▸ there)).1]
          · rw [settle_shell]
            intro there
            obtain ⟨-, drained, arrived⟩ := exact (closed ▸ there)
            obtain ⟨all, env, asked⟩ := flow (closed ▸ there)
            obtain ⟨silent, printed⟩ := List.append_eq_nil_iff.mp (all.symm.trans arrived)
            -- a terminator line still to be printed would not have arrived
            have nothing : s.input = [] := by
              refine asked.resolve_right ?_
              rintro ⟨front, ended, shape⟩
              rw [shape, remote.serve_append _ front _ ended, remote.serve_echo] at printed
              simp [terminatorLine] at printed
            refine settle_quiet t call lines _ _ ⟨drained, nothing, silent, ?_⟩
            rw [nothing] at env
            exact env

theorem in_order_skip (order : InOrder remote start s) (t : Nat) (call : Call) (lines : List Bytes) (x : Bytes) (shell : Shell)
    (stands : s.callers[t]? = some (.reading call lines)) (read : s.shell.look = .skip x shell) :
    InOrder remote start ({ s with shell := shell }.setCaller t (.reading call (lines ++ [x]))) := by
  obtain ⟨mid, done, standing⟩ := standing_of_holder t _ order stands rfl
  cases standing with
  | remnant _ _ gone =>
      have nothing : s.shell.io.gets = .nothing := by rw [gone]; rfl
      simp [Shell.look, nothing] at read
  | reading _ _ out lost ordinary whole kept bytes flow =>
      have found := look_found s.shell out (remote.last (remote.after mid call)) lost (order.terminator ▸ ordinary) whole
        (by rw [order.terminator]; exact bytes)
      rw [read] at found
      cases found with
      | skip line tail _ first split left shape same closed =>
          refine in_order_move _ t _ (.reading call (lines ++ [chomp line])) order stands rfl rfl (fun _ => Caller.noConfusion) rfl
            (same.trans order.terminator) ⟨mid, done.relax fun there => closed ▸ there, ?_⟩
          refine .reading call _ tail lost ?_ left ?_ (order.terminator ▸ shape) fun there => flow (closed ▸ there)
          · exact fun other member => ordinary other (by rw [first]; exact List.mem_cons_of_mem _ member)
          · rw [← kept, first]
            simp
      | remnant _ _ gone closed same =>
          refine in_order_move _ t _ (.reading call (lines ++ [x])) order stands rfl rfl (fun _ => Caller.noConfusion) rfl
            (same.trans order.terminator) ⟨mid, done.relax fun there => ?_, .remnant call _ gone⟩
          change shell.io.closed = false at there
          rw [gone] at there
          cases there

theorem standing_serve (mid : Env) (caller : Caller) (line rest : Bytes) (there : s.shell.io.closed = false) (silent : s.emitting = [])
    (split : Lines.splitLine LF s.input = some (line, rest)) (standing : Standing remote s mid caller) :
    Standing remote { s with input := rest, env := (remote.run s.env line).1, emitting := (remote.run s.env line).2 } mid caller := by
  have served := remote.serve_split s.env s.input line rest split
  obtain ⟨body, inside, shape, whole⟩ := Lines.split_line_some LF s.input line rest split
  cases standing with
  | sending call tame quiet =>
      rw [(quiet there).input] at split
      cases split
  | asking call tame flow =>
      obtain ⟨ended, bytes, env⟩ := flow there
      rw [served] at bytes env
      refine .asking call tame fun _ => ⟨?_, ?_, env⟩
      · rw [whole, shape, List.append_assoc, List.singleton_append] at ended
        exact (Lines.ended_marked LF body rest).mp (ended.resolve_left (by simp))
      · rw [silent, List.append_nil] at bytes
        simpa only [List.append_assoc] using bytes
  | reading call lines out lost ordinary ended kept bytes flow =>
      obtain ⟨all, env, asked⟩ := flow there
      rw [served] at all env
      refine .reading call lines out lost ordinary ended kept bytes fun _ => ⟨?_, env, ?_⟩
      · rw [all, silent]
        rfl
      · rcases asked with nothing | ⟨front, closing, same⟩
        · rw [nothing] at split
          cases split
        · rcases whole_cases front closing with rfl | ⟨other, tail, clean, rfl, left⟩
          · obtain ⟨word, plain, echo⟩ := echo_line_clean term
            rw [same, List.nil_append, echo, Lines.split_line_append LF word [] plain, Option.some.injEq, Prod.mk.injEq] at split
            exact .inl split.2.symm
          · rw [same, List.append_assoc, List.cons_append, Lines.split_line_append LF other _ clean, Option.some.injEq,
              Prod.mk.injEq] at split
            exact .inr ⟨tail, left, split.2.symm⟩
  | remnant call lines gone => exact .remnant call lines gone

theorem standing_emit (mid : Env) (caller : Caller) (n : Nat) (there : s.shell.io.closed = false) (some_byte : 0 < n)
    (within : n ≤ s.emitting.length) (standing : Standing remote s mid caller) :
    Standing remote { s with shell := s.shell.answered (s.emitting.take n), emitting := s.emitting.drop n } mid caller := by
  have onward : s.shell.io.bytes ++ s.emitting.take n ++ s.emitting.drop n = s.shell.io.bytes ++ s.emitting := by
    rw [List.append_assoc, List.take_append_drop]
  cases standing with
  | sending call tame quiet =>
      rw [(quiet there).emitting, List.length_nil] at within
      omega
  | asking call tame flow =>
      obtain ⟨ended, bytes, env⟩ := flow there
      refine .asking call tame fun _ => ⟨ended, ?_, env⟩
      rw [← bytes, ← onward]
      rfl
  | reading call lines out lost ordinary ended kept bytes flow =>
      obtain ⟨all, env, asked⟩ := flow there
      refine .reading call lines out (s.emitting.drop n ++ (remote.serve s.env s.input).2) ordinary ended kept ?_ fun _ => ⟨rfl, env, asked⟩
      rw [← bytes, all, ← List.append_assoc, ← List.append_assoc, ← onward]
      rfl
  | remnant call lines gone => simp [gone] at there

theorem standing_die (mid : Env) (caller : Caller) (standing : Standing remote s mid caller) :
    Standing remote { s with shell := { s.shell with io := { s.shell.io with closed := true } }, input := [], emitting := [] }
      mid caller := by
  cases standing with
  | sending call tame quiet => exact .sending call tame Bool.noConfusion
  | asking call tame flow => exact .asking call tame Bool.noConfusion
  | reading call lines out lost ordinary ended kept bytes flow =>
      exact .reading call lines out lost ordinary ended kept bytes Bool.noConfusion
  | remnant call lines gone => exact .remnant call lines (by simp [gone])

-- Only commands that print whole lines are called.
def Called (remote : Remote Env term) (_ : Link Env) : LinkLabel → Prop
  | .call _ call => remote.Tame call
  | _ => True

theorem in_order_step (order : InOrder remote start s) (label : LinkLabel) (next : Link Env) (called : Called remote s label)
    (effect : Effect remote s label next) : InOrder remote start next := by
  cases effect with
  | call t call stands =>
      refine in_order_beside _ t .idle (.waiting call) order stands rfl rfl rfl ?_ rfl rfl rfl rfl rfl rfl
      rintro other ⟨⟩
      exact called
  | lock t call stands free =>
      obtain ⟨mid, done, rest⟩ := order.serial
      rw [free] at rest
      refine ⟨order.terminator, holder_set _ t (.sending call) order rfl (fun _ => rfl) fun v _ theirs => (nomatch free.symm.trans theirs),
        tame_set _ t (.sending call) order rfl fun _ => Caller.noConfusion, mid, done, .sending call, ?_, ?_⟩
      · exact (Slots.lookup_set s.callers t t _ _ stands).trans (if_pos rfl)
      · exact .sending call (order.tame t call stands) fun there =>
          ⟨(rest there).bytes, (rest there).input, (rest there).emitting, (rest there).env⟩
  | sendRaised t call stands gone => exact in_order_raise order s.shell t call _ .brokenPipe stands rfl rfl gone
  | send t call stands there =>
      obtain ⟨mid, done, standing⟩ := standing_of_holder t _ order stands rfl
      cases standing with
      | sending _ tame quiet =>
          obtain ⟨bytes, input, silent, env⟩ := quiet there
          refine in_order_move _ t _ (.asking call) order stands rfl rfl (fun _ => Caller.noConfusion) rfl order.terminator
            ⟨mid, done, .asking call tame fun _ => ?_⟩
          change WholeLines (s.input ++ record call.text) ∧
            s.shell.io.bytes ++ s.emitting ++ (remote.serve s.env (s.input ++ record call.text)).2 = _ ∧
            (remote.serve s.env (s.input ++ record call.text)).1 = _
          rw [bytes, input, silent, env]
          exact ⟨record_whole call.text, rfl, rfl⟩
  | askRaised t call stands gone => exact in_order_raise order s.shell t call _ .brokenPipe stands rfl rfl gone
  | ask t call stands there =>
      obtain ⟨mid, done, standing⟩ := standing_of_holder t _ order stands rfl
      cases standing with
      | asking _ tame flow =>
          obtain ⟨ended, bytes, env⟩ := flow there
          have blank : WholeLines (s.input ++ [LF]) := .inr (by simp)
          have text : s.input ++ record s.shell.echoTerminator = (s.input ++ [LF]) ++ echoLine term := by
            rw [record_echo, order.terminator]
            simp
          have served : remote.serve s.env (s.input ++ record s.shell.echoTerminator) =
              (remote.left mid call, (remote.serve s.env s.input).2 ++ terminatorLine term (remote.last (remote.after mid call))) := by
            rw [text, remote.serve_append _ _ _ blank, remote.serve_append _ _ _ ended, remote.serve_blank, remote.serve_echo, env,
              List.append_nil, Remote.left]
          refine in_order_move _ t _ (.reading call []) order stands rfl rfl (fun _ => Caller.noConfusion) rfl order.terminator
            ⟨mid, done, ?_⟩
          refine .reading call [] (remote.printed mid call)
            (s.emitting ++ (remote.serve s.env (s.input ++ record s.shell.echoTerminator)).2)
            (tame mid).1 (tame mid).2 rfl ?_ fun _ => ⟨rfl, ?_, .inr ⟨_, blank, text⟩⟩
          · change s.shell.io.bytes ++ _ = _
            rw [served, ← bytes]
            simp only [List.append_assoc]
          · change (remote.serve s.env (s.input ++ record s.shell.echoTerminator)).1 = _
            rw [served]
  | ended t call lines ending shell stands read => exact in_order_ended order t call lines ending shell stands read
  | skip t call lines x shell stands read => exact in_order_skip order t call lines x shell stands read
  | finish t own stands =>
      exact in_order_beside _ t (.returning own) .idle order stands rfl rfl rfl (fun _ => Caller.noConfusion) rfl rfl rfl rfl rfl rfl
  | serve line rest there silent split =>
      refine in_order_pipes _ order rfl rfl rfl rfl id ?_ fun mid caller => standing_serve mid caller line rest there silent split
      intro mid quiet _
      rw [(quiet there).input] at split
      cases split
  | emit n there some_byte within =>
      refine in_order_pipes _ order rfl rfl rfl rfl id ?_ fun mid caller => standing_emit mid caller n there some_byte within
      intro mid quiet _
      rw [(quiet there).emitting, List.length_nil] at within
      omega
  | die there =>
      exact in_order_pipes _ order rfl rfl rfl rfl Bool.noConfusion (fun _ _ => Bool.noConfusion) standing_die

theorem in_order_run (n : Nat) (s : Link Env) (run : Machine.Run (step remote) (Called remote) (new term start n) s) :
    InOrder remote start s := by
  refine Machine.run_invariant (InOrder remote start) (new term start n) (in_order_new n) ?_ s run
  intro before after label _ order called taken
  exact in_order_step order label after called (step_effect remote before after label taken)

end Link

end Pwrake
