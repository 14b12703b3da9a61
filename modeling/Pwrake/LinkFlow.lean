import Pwrake.LinkReader

set_option autoImplicit false

namespace Pwrake

open Shell

namespace Shell

theorem record_whole (text : Bytes) : WholeLines (record text) := by
  unfold record
  split
  · rename_i ends
    exact .inr ends
  · exact .inr (by simp)

theorem echo_line_clean (term : Terminator) : ∃ body, LF ∉ body ∧ echoLine term = body ++ [LF] := by
  refine ⟨ascii "echo '" ++ term.bytes ++ ascii "':$? ", fun member => ?_, rfl⟩
  have before : LF ∉ ascii "echo '" := by decide
  have behind : LF ∉ ascii "':$? " := by decide
  rcases List.mem_append.mp member with front | back
  · rcases List.mem_append.mp front with word | inTerm
    · exact before word
    · exact (terminator_clean term LF inTerm).1 rfl
  · exact behind back

theorem record_echo (sh : Shell) : record sh.echoTerminator = LF :: echoLine sh.terminator := by
  have blank : ascii "\necho '" = LF :: ascii "echo '" := by decide
  have last : sh.echoTerminator.getLast? ≠ some LF := by
    have space : (ascii "':$? ").getLast? = some 32 := by decide
    rw [echoTerminator, List.getLast?_append, space]
    simp [LF]
  rw [record, if_neg last, echoTerminator, blank]
  simp [echoLine]

end Shell

namespace Remote

variable {Env : Type*} {term : Terminator} (remote : Remote Env term)

theorem serve_split (env : Env) (text line rest : Bytes) (split : Lines.splitLine LF text = some (line, rest)) :
    remote.serve env text = ((remote.serve (remote.run env line).1 rest).1,
      (remote.run env line).2 ++ (remote.serve (remote.run env line).1 rest).2) := by
  rw [serve, Lines.lines_split LF text line rest split]
  rfl

theorem serve_lines_append (env : Env) (first second : List Bytes) :
    remote.serveLines env (first ++ second) = ((remote.serveLines (remote.serveLines env first).1 second).1,
      (remote.serveLines env first).2 ++ (remote.serveLines (remote.serveLines env first).1 second).2) := by
  induction first generalizing env with
  | nil => rfl
  | cons line rest ih => simp only [List.cons_append, serveLines, ih, List.append_assoc]

theorem serve_append (env : Env) (front back : Bytes) (whole : WholeLines front) :
    remote.serve env (front ++ back) = ((remote.serve (remote.serve env front).1 back).1,
      (remote.serve env front).2 ++ (remote.serve (remote.serve env front).1 back).2) := by
  unfold serve
  rw [Lines.lines_append LF front back whole, serve_lines_append]

theorem serve_line (env : Env) (body : Bytes) (inside : LF ∉ body) : remote.serve env (body ++ [LF]) = remote.run env (body ++ [LF]) := by
  rw [remote.serve_split env _ _ [] (Lines.split_line_append LF body [] inside)]
  simp [serve, Lines.lines, serveLines]

theorem serve_echo (env : Env) :
    remote.serve env (echoLine term) = ((remote.run env (echoLine term)).1, terminatorLine term (remote.last env)) := by
  obtain ⟨body, inside, shape⟩ := echo_line_clean term
  rw [shape, remote.serve_line env body inside, ← shape, ← remote.echo]

theorem serve_blank (env : Env) : remote.serve env [LF] = (env, []) :=
  (remote.serve_line env [] List.not_mem_nil).trans (remote.blank env)

-- The environment a call leaves, what it prints, and the environment after
-- the echo behind it.
def after (env : Env) (call : Call) : Env := (remote.serve env (record call.text)).1

def printed (env : Env) (call : Call) : Bytes := (remote.serve env (record call.text)).2

def left (env : Env) (call : Call) : Env := (remote.run (remote.after env call) (echoLine term)).1

-- A command that prints whole lines, none of which starts like the terminator.
def Tame (call : Call) : Prop := ∀ env, Ordinary term (remote.printed env call) ∧ WholeLines (remote.printed env call)

-- The exchanges one after the other, from one environment to another. precise
-- asks for the very status and not only for success.
inductive Serial (precise : Prop) (start : Env) : List Entry → Env → Prop where
  | nil : Serial precise start [] start
  | snoc (entries : List Entry) (mid : Env) (e : Entry) (before : Serial precise start entries mid)
      (lines : e.lines = (Lines.lines LF (remote.printed mid e.call)).map chomp)
      (success : e.status = 0 ↔ remote.last (remote.after mid e.call) = 0)
      (exact : precise → e.status = remote.last (remote.after mid e.call)) :
      Serial precise start (entries ++ [e]) (remote.left mid e.call)

theorem Serial.relax {remote : Remote Env term} {precise weaker : Prop} {start mid : Env} {entries : List Entry}
    (serial : Serial remote precise start entries mid) (implies : weaker → precise) : Serial remote weaker start entries mid := by
  induction serial with
  | nil => exact .nil
  | snoc entries mid e _ lines success exact ih => exact .snoc entries mid e ih lines success fun holds => exact (implies holds)

end Remote

namespace Link

variable {Env : Type*} {term : Terminator}

def holds : Caller → Bool
  | .sending _ | .asking _ | .reading _ _ => true
  | _ => false

-- Nothing is under way between the two processes.
structure Quiet (s : Link Env) (env : Env) : Prop where
  bytes : s.shell.io.bytes = []
  input : s.input = []
  emitting : s.emitting = []
  env : s.env = env

-- The bytes of an exchange are in the caller's lines, in the pipe, with the
-- other process, or still in the commands that it has not read.
inductive Standing (remote : Remote Env term) (s : Link Env) (mid : Env) : Caller → Prop where
  | sending (call : Call) (tame : remote.Tame call) (quiet : s.shell.io.closed = false → s.Quiet mid) :
      Standing remote s mid (.sending call)
  | asking (call : Call) (tame : remote.Tame call)
      (flow : s.shell.io.closed = false → WholeLines s.input ∧
        s.shell.io.bytes ++ s.emitting ++ (remote.serve s.env s.input).2 = remote.printed mid call ∧
        (remote.serve s.env s.input).1 = remote.after mid call) :
      Standing remote s mid (.asking call)
  | reading (call : Call) (lines : List Bytes) (out lost : Bytes) (ordinary : Ordinary term out) (whole : WholeLines out)
      (kept : lines ++ (Lines.lines LF out).map chomp = (Lines.lines LF (remote.printed mid call)).map chomp)
      (bytes : s.shell.io.bytes ++ lost = out ++ terminatorLine term (remote.last (remote.after mid call)))
      (flow : s.shell.io.closed = false → lost = s.emitting ++ (remote.serve s.env s.input).2 ∧
        (remote.serve s.env s.input).1 = remote.left mid call ∧
        (s.input = [] ∨ ∃ front, WholeLines front ∧ s.input = front ++ echoLine term)) :
      Standing remote s mid (.reading call lines)
  | remnant (call : Call) (lines : List Bytes) (gone : s.shell.io = ⟨[], true⟩) : Standing remote s mid (.reading call lines)

-- While nobody holds @lock the pipes are empty; its holder is inside one
-- exchange, and all exchanges before it are over.
structure InOrder (remote : Remote Env term) (start : Env) (s : Link Env) : Prop where
  terminator : s.shell.terminator = term
  holder : ∀ (t : Nat) (caller : Caller), s.callers[t]? = some caller → holds caller = true → s.lock = some t
  tame : ∀ (t : Nat) (call : Call), s.callers[t]? = some (.waiting call) → remote.Tame call
  serial : ∃ mid, remote.Serial (s.shell.io.closed = false) start s.exchanges mid ∧
    match s.lock with
    | none => s.shell.io.closed = false → s.Quiet mid
    | some t => ∃ caller, s.callers[t]? = some caller ∧ Standing remote s mid caller

variable {remote : Remote Env term} {start : Env} {s : Link Env}

theorem in_order_new (n : Nat) : InOrder remote start (new term start n) where
  terminator := rfl
  holder := by
    intro t caller stands holding
    rw [Slots.lookup_replicate n t _ caller stands] at holding
    cases holding
  tame := by
    intro t call stands
    cases Slots.lookup_replicate n t _ _ stands
  serial := ⟨start, .nil, fun _ => ⟨rfl, rfl, rfl, rfl⟩⟩

section Places

variable (next : Link Env) (t : Nat) (old fresh : Caller)

-- A thread changes its place and the pipes stay as they are.
theorem holder_set (order : InOrder remote start s) (callers : next.callers = s.callers.set t fresh)
    (lock : holds fresh = true → next.lock = some t) (others : ∀ v, v ≠ t → s.lock = some v → next.lock = some v) :
    ∀ (v : Nat) (caller : Caller), next.callers[v]? = some caller → holds caller = true → next.lock = some v := by
  intro v caller stands holding
  rw [callers] at stands
  rcases Slots.lookup_set_cases s.callers t v fresh caller stands with ⟨rfl, rfl⟩ | ⟨other, earlier⟩
  · exact lock holding
  · exact others v other (order.holder v caller earlier holding)

theorem tame_set (order : InOrder remote start s) (callers : next.callers = s.callers.set t fresh)
    (tame : ∀ call, fresh = .waiting call → remote.Tame call) :
    ∀ (v : Nat) (call : Call), next.callers[v]? = some (.waiting call) → remote.Tame call := by
  intro v call stands
  rw [callers] at stands
  rcases Slots.lookup_set_cases s.callers t v fresh _ stands with ⟨-, same⟩ | ⟨-, earlier⟩
  · exact tame call same.symm
  · exact order.tame v call earlier

-- The holder of @lock leaves its block.
theorem in_order_leave (order : InOrder remote start s) (stands : s.callers[t]? = some old) (held : holds old = true)
    (callers : next.callers = s.callers.set t fresh) (loose : holds fresh = false) (fresh_call : ∀ call, fresh ≠ .waiting call)
    (lock : next.lock = none) (terminator : next.shell.terminator = term)
    (serial : ∃ mid, remote.Serial (next.shell.io.closed = false) start next.exchanges mid ∧
      (next.shell.io.closed = false → next.Quiet mid)) : InOrder remote start next := by
  have mine := order.holder t old stands held
  refine ⟨terminator, holder_set next t fresh order callers (fun holding => nomatch loose.symm.trans holding) ?_,
    tame_set next t fresh order callers fun call same => absurd same (fresh_call call), by rw [lock]; exact serial⟩
  intro v other theirs
  exact absurd (Option.some.inj (theirs.symm.trans mine)) other

-- The holder moves on inside its block.
theorem in_order_move (order : InOrder remote start s) (stands : s.callers[t]? = some old) (held : holds old = true)
    (callers : next.callers = s.callers.set t fresh) (fresh_call : ∀ call, fresh ≠ .waiting call) (lock : next.lock = s.lock)
    (terminator : next.shell.terminator = term)
    (serial : ∃ mid, remote.Serial (next.shell.io.closed = false) start next.exchanges mid ∧ Standing remote next mid fresh) :
    InOrder remote start next := by
  have mine := order.holder t old stands held
  obtain ⟨mid, done, standing⟩ := serial
  refine ⟨terminator, holder_set next t fresh order callers (fun _ => lock.trans mine) (fun v _ theirs => lock.trans theirs),
    tame_set next t fresh order callers fun call same => absurd same (fresh_call call), mid, done, ?_⟩
  rw [lock, mine]
  exact ⟨fresh, by rw [callers, Slots.lookup_set s.callers t t old fresh stands, if_pos rfl], standing⟩

-- Where the holder of @lock stands, and what is over.
theorem standing_of_holder (order : InOrder remote start s) (stands : s.callers[t]? = some old) (held : holds old = true) :
    ∃ mid, remote.Serial (s.shell.io.closed = false) start s.exchanges mid ∧ Standing remote s mid old := by
  obtain ⟨mid, done, rest⟩ := order.serial
  rw [order.holder t old stands held] at rest
  obtain ⟨caller, there, standing⟩ := rest
  exact ⟨mid, done, Option.some.inj (there.symm.trans stands) ▸ standing⟩

-- What a place says of the pipes stays true while they stay as they are.
theorem standing_same (next : Link Env) (mid : Env) (caller : Caller) (standing : Standing remote s mid caller)
    (shell : next.shell = s.shell) (input : next.input = s.input) (env : next.env = s.env) (emitting : next.emitting = s.emitting) :
    Standing remote next mid caller := by
  cases standing with
  | sending call tame quiet =>
      refine .sending call tame fun there => ?_
      obtain ⟨bytes, nothing, silent, here⟩ := quiet (shell ▸ there)
      exact ⟨shell ▸ bytes, input.trans nothing, emitting.trans silent, env.trans here⟩
  | asking call tame flow =>
      refine .asking call tame ?_
      rw [shell, input, env, emitting]
      exact flow
  | reading call lines out lost ordinary whole kept bytes flow =>
      refine .reading call lines out lost ordinary whole kept (shell ▸ bytes) ?_
      rw [shell, input, env, emitting]
      exact flow
  | remnant call lines gone => exact .remnant call lines (shell ▸ gone)

-- A thread outside the blocks moves.
theorem in_order_beside (order : InOrder remote start s) (stands : s.callers[t]? = some old) (outside : holds old = false)
    (callers : next.callers = s.callers.set t fresh) (loose : holds fresh = false)
    (tame : ∀ call, fresh = .waiting call → remote.Tame call) (lock : next.lock = s.lock) (shell : next.shell = s.shell)
    (input : next.input = s.input) (env : next.env = s.env) (emitting : next.emitting = s.emitting)
    (exchanges : next.exchanges = s.exchanges) : InOrder remote start next := by
  obtain ⟨mid, done, rest⟩ := order.serial
  refine ⟨shell ▸ order.terminator, holder_set next t fresh order callers (fun holding => nomatch loose.symm.trans holding)
    (fun v _ theirs => lock.trans theirs), tame_set next t fresh order callers tame, mid, by rw [shell, exchanges]; exact done, ?_⟩
  rw [lock]
  cases held : s.lock with
  | none =>
      rw [held] at rest
      intro there
      obtain ⟨bytes, nothing, silent, here⟩ := rest (shell ▸ there)
      exact ⟨shell ▸ bytes, input.trans nothing, emitting.trans silent, env.trans here⟩
  | some v =>
      rw [held] at rest
      obtain ⟨caller, there, standing⟩ := rest
      refine ⟨caller, ?_, standing_same next mid caller standing shell input env emitting⟩
      have other : v ≠ t := by
        rintro rfl
        have same := Option.some.inj (there.symm.trans stands)
        subst same
        cases standing <;> cases outside
      rw [callers, Slots.lookup_set s.callers t v old fresh stands, if_neg other]
      exact there

-- The other process moves.
theorem in_order_pipes (order : InOrder remote start s) (callers : next.callers = s.callers) (lock : next.lock = s.lock)
    (exchanges : next.exchanges = s.exchanges) (terminator : next.shell.terminator = s.shell.terminator)
    (there : next.shell.io.closed = false → s.shell.io.closed = false)
    (quiet : ∀ mid, (s.shell.io.closed = false → s.Quiet mid) → next.shell.io.closed = false → next.Quiet mid)
    (standing : ∀ mid caller, Standing remote s mid caller → Standing remote next mid caller) : InOrder remote start next := by
  obtain ⟨mid, done, rest⟩ := order.serial
  refine ⟨terminator.trans order.terminator, ?_, ?_, mid, exchanges ▸ done.relax there, ?_⟩
  · rw [callers, lock]
    exact order.holder
  · rw [callers]
    exact order.tame
  · rw [callers, lock]
    cases held : s.lock with
    | none =>
        rw [held] at rest
        exact quiet mid rest
    | some v =>
        rw [held] at rest
        obtain ⟨caller, stands, place⟩ := rest
        exact ⟨caller, stands, standing mid caller place⟩

end Places

end Link

end Pwrake
