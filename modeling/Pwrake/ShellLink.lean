import Pwrake.Lib.Machine
import Pwrake.Lib.Slots
import Pwrake.ShellFraming

set_option autoImplicit false

namespace Pwrake

namespace Shell

-- What puts adds to the pipe.
def record (text : Bytes) : Bytes := if text.getLast? = some LF then text else text ++ [LF]

-- What a call hands to the first puts of its block.
def Call.text : Call → Bytes
  | .openPath path => join [ascii "export PATH='" ++ path ++ ascii "'"]
  | .system command | .backquote command => join command

-- The second line that _get sends, after an empty one.
def echoLine (term : Terminator) : Bytes := ascii "echo '" ++ term.bytes ++ ascii "':$? " ++ [LF]

-- One turn of the loop of _get and _get_output.
inductive Look where
  | blocked
  | ended (ending : Ending) (shell : Shell)
  | skip (x : Bytes) (shell : Shell)

def look (sh : Shell) : Look :=
  match sh.io.gets with
  | .nothing => .ended .eof sh
  | .blocked => .blocked
  | .line x rest =>
      if (chomp x).take TLEN = sh.terminator.bytes then
        match terminatorStatus (chomp x) with
        | .ok n => .ended .terminated { sh with io := rest, status := some n }
        | .error error => .ended (.raised error) { sh with io := rest }
      else .skip (chomp x) { sh with io := rest }

-- Turn after turn is the whole loop.
theorem read_answer_look (sh : Shell) : sh.readAnswer = match sh.look with
    | .blocked => ⟨.blocked, sh, []⟩
    | .ended ending after => ⟨ending, after, []⟩
    | .skip x after => after.readAnswer.skip x := by
  rw [readAnswer]
  unfold look
  split
  · rename_i read
    rw [read]
  · rename_i read
    rw [read]
  · rename_i x rest read
    rw [read]
    dsimp only
    split
    · cases terminatorStatus (chomp x) <;> rfl
    · rfl

end Shell

-- The process at the other end of the pipes, as far as Shell relies on it: it
-- takes its input line by line, an empty line is no command, and echo prints
-- the terminator and the status of the command before.
structure Remote (Env : Type*) (term : Terminator) where
  run : Env → Bytes → Env × Bytes
  last : Env → Nat
  blank : ∀ env, run env [LF] = (env, [])
  echo : ∀ env, (run env (Shell.echoLine term)).2 = Shell.terminatorLine term (last env)

namespace Remote

variable {Env : Type*} {term : Terminator}

def serveLines (remote : Remote Env term) : Env → List Bytes → Env × Bytes
  | env, [] => (env, [])
  | env, line :: rest =>
      ((remote.serveLines (remote.run env line).1 rest).1,
        (remote.run env line).2 ++ (remote.serveLines (remote.run env line).1 rest).2)

-- All of a text, as a shell that is given no other would serve it.
def serve (remote : Remote Env term) (env : Env) (text : Bytes) : Env × Bytes := remote.serveLines env (Lines.lines LF text)

end Remote

-- A finished exchange: the lines before the terminator line, and its status.
structure Entry where
  caller : Nat
  call : Shell.Call
  lines : List Bytes
  status : Int
deriving DecidableEq, Repr

-- What a call gave to its caller. own is the exchange that it waited for, and
-- is none where the pipe ended first.
inductive CallOutcome where
  | opened (caller : Nat) (own : Option Entry)
  | system (caller : Nat) (own : Option Entry) (res : Bool)
  | backquote (caller : Nat) (own : Option Entry) (res : Bytes)
  | raised (caller : Nat) (call : Shell.Call) (error : ShellError)
deriving DecidableEq, Repr

-- Where a thread stands in a call. From sending to reading it holds @lock; in
-- returning it has let go of it and has yet to evaluate @status==0.
inductive Caller where
  | idle
  | waiting (call : Shell.Call)
  | sending (call : Shell.Call)
  | asking (call : Shell.Call)
  | reading (call : Shell.Call) (lines : List Bytes)
  | returning (own : Option Entry)
deriving DecidableEq, Repr

-- One Shell with the threads that call it, the pipe to the other process, and
-- what that process has yet to print. The last two fields are history.
structure Link (Env : Type*) where
  shell : Shell
  lock : Option Nat
  callers : List Caller
  input : Bytes
  env : Env
  emitting : Bytes
  exchanges : List Entry
  outcomes : List CallOutcome

inductive LinkLabel where
  | call (t : Nat) (call : Shell.Call)
  | lock (t : Nat)
  | send (t : Nat)
  | ask (t : Nat)
  | read (t : Nat)
  | finish (t : Nat)
  | serve
  | emit (n : Nat)
  | die
deriving DecidableEq, Repr

namespace Link

variable {Env : Type*} {term : Terminator}

def new (term : Terminator) (env : Env) (n : Nat) : Link Env where
  shell := .new term ⟨[], false⟩
  lock := none
  callers := List.replicate n .idle
  input := []
  env := env
  emitting := []
  exchanges := []
  outcomes := []

def setCaller (s : Link Env) (t : Nat) (caller : Caller) : Link Env := { s with callers := s.callers.set t caller }

def puts (s : Link Env) (text : Bytes) : Link Env :=
  { s with shell := s.shell.puts text, input := s.input ++ Shell.record text }

-- The caller leaves the synchronized block after its loop.
def settle (s : Link Env) (t : Nat) (call : Shell.Call) (lines : List Bytes) (own : Option Entry) : Link Env :=
  match call with
  | .openPath _ => { s with lock := none, outcomes := s.outcomes ++ [CallOutcome.opened t own] }.setCaller t .idle
  | .system _ => { s with lock := none }.setCaller t (.returning own)
  | .backquote _ => { s with lock := none, outcomes := s.outcomes ++ [CallOutcome.backquote t own lines.flatten] }.setCaller t .idle

-- An exception passes through the block, which lets go of @lock.
def raise (s : Link Env) (t : Nat) (call : Shell.Call) (error : ShellError) : Link Env :=
  { s with lock := none, outcomes := s.outcomes ++ [CallOutcome.raised t call error] }.setCaller t .idle

def ended (s : Link Env) (t : Nat) (call : Shell.Call) (lines : List Bytes) : Ending → Link Env
  | .terminated =>
      let entry := ⟨t, call, lines, s.shell.status.getD 0⟩
      { s with exchanges := s.exchanges ++ [entry] }.settle t call lines (some entry)
  | .eof => s.settle t call lines none
  | .blocked => s
  | .raised error => s.raise t call error

-- The other process may go away at any time; what it had not printed is lost,
-- and to write to it raises from then on.
def step (remote : Remote Env term) (s : Link Env) : LinkLabel → Option (Link Env)
  | .call t call =>
      match s.callers[t]? with
      | some .idle => some (s.setCaller t (.waiting call))
      | _ => none
  | .lock t =>
      match s.callers[t]? with
      | some (.waiting call) => if s.lock = none then some ({ s with lock := some t }.setCaller t (.sending call)) else none
      | _ => none
  | .send t =>
      match s.callers[t]? with
      | some (.sending call) =>
          if s.shell.io.closed then some (s.raise t call .brokenPipe) else some ((s.puts call.text).setCaller t (.asking call))
      | _ => none
  | .ask t =>
      match s.callers[t]? with
      | some (.asking call) =>
          if s.shell.io.closed then some (s.raise t call .brokenPipe)
          else some ((s.puts s.shell.echoTerminator).setCaller t (.reading call []))
      | _ => none
  | .read t =>
      match s.callers[t]? with
      | some (.reading call lines) =>
          match s.shell.look with
          | .blocked => none
          | .ended ending shell => some ({ s with shell := shell }.ended t call lines ending)
          | .skip x shell => some ({ s with shell := shell }.setCaller t (.reading call (lines ++ [x])))
      | _ => none
  | .finish t =>
      match s.callers[t]? with
      | some (.returning own) =>
          some ({ s with outcomes := s.outcomes ++ [CallOutcome.system t own (s.shell.status == some 0)] }.setCaller t .idle)
      | _ => none
  | .serve =>
      if s.shell.io.closed = false ∧ s.emitting = [] then
        (Lines.splitLine LF s.input).map fun (line, rest) =>
          { s with input := rest, env := (remote.run s.env line).1, emitting := (remote.run s.env line).2 }
      else none
  | .emit n =>
      if s.shell.io.closed = false ∧ 0 < n ∧ n ≤ s.emitting.length then
        some { s with
          shell := s.shell.answered (s.emitting.take n)
          emitting := s.emitting.drop n }
      else none
  | .die =>
      if s.shell.io.closed then none
      else some { s with shell := { s.shell with io := { s.shell.io with closed := true } }, input := [], emitting := [] }

-- What one step reads and writes. Proofs about runs go through this relation
-- and never unfold step.
inductive Effect (remote : Remote Env term) (s : Link Env) : LinkLabel → Link Env → Prop where
  | call (t : Nat) (call : Shell.Call) (stands : s.callers[t]? = some .idle) :
      Effect remote s (.call t call) (s.setCaller t (.waiting call))
  | lock (t : Nat) (call : Shell.Call) (stands : s.callers[t]? = some (.waiting call)) (free : s.lock = none) :
      Effect remote s (.lock t) ({ s with lock := some t }.setCaller t (.sending call))
  | sendRaised (t : Nat) (call : Shell.Call) (stands : s.callers[t]? = some (.sending call)) (gone : s.shell.io.closed = true) :
      Effect remote s (.send t) (s.raise t call .brokenPipe)
  | send (t : Nat) (call : Shell.Call) (stands : s.callers[t]? = some (.sending call)) (there : s.shell.io.closed = false) :
      Effect remote s (.send t) ((s.puts call.text).setCaller t (.asking call))
  | askRaised (t : Nat) (call : Shell.Call) (stands : s.callers[t]? = some (.asking call)) (gone : s.shell.io.closed = true) :
      Effect remote s (.ask t) (s.raise t call .brokenPipe)
  | ask (t : Nat) (call : Shell.Call) (stands : s.callers[t]? = some (.asking call)) (there : s.shell.io.closed = false) :
      Effect remote s (.ask t) ((s.puts s.shell.echoTerminator).setCaller t (.reading call []))
  | ended (t : Nat) (call : Shell.Call) (lines : List Bytes) (ending : Ending) (shell : Shell)
      (stands : s.callers[t]? = some (.reading call lines)) (read : s.shell.look = .ended ending shell) :
      Effect remote s (.read t) ({ s with shell := shell }.ended t call lines ending)
  | skip (t : Nat) (call : Shell.Call) (lines : List Bytes) (x : Bytes) (shell : Shell)
      (stands : s.callers[t]? = some (.reading call lines)) (read : s.shell.look = .skip x shell) :
      Effect remote s (.read t) ({ s with shell := shell }.setCaller t (.reading call (lines ++ [x])))
  | finish (t : Nat) (own : Option Entry) (stands : s.callers[t]? = some (.returning own)) :
      Effect remote s (.finish t)
        ({ s with outcomes := s.outcomes ++ [CallOutcome.system t own (s.shell.status == some 0)] }.setCaller t .idle)
  | serve (line rest : Bytes) (there : s.shell.io.closed = false) (quiet : s.emitting = [])
      (split : Lines.splitLine LF s.input = some (line, rest)) :
      Effect remote s .serve
        { s with input := rest, env := (remote.run s.env line).1, emitting := (remote.run s.env line).2 }
  | emit (n : Nat) (there : s.shell.io.closed = false) (some_byte : 0 < n) (within : n ≤ s.emitting.length) :
      Effect remote s (.emit n)
        { s with shell := s.shell.answered (s.emitting.take n), emitting := s.emitting.drop n }
  | die (there : s.shell.io.closed = false) :
      Effect remote s .die
        { s with shell := { s.shell with io := { s.shell.io with closed := true } }, input := [], emitting := [] }

theorem step_effect (remote : Remote Env term) (s next : Link Env) (label : LinkLabel)
    (taken : step remote s label = some next) : Effect remote s label next := by
  cases label with
  | call t call =>
      simp only [step] at taken
      split at taken
      · rename_i stands
        cases taken
        exact .call t call stands
      · cases taken
  | lock t =>
      simp only [step] at taken
      split at taken
      · rename_i call stands
        split at taken
        · rename_i free
          cases taken
          exact .lock t call stands free
        · cases taken
      · cases taken
  | send t =>
      simp only [step] at taken
      split at taken
      · rename_i call stands
        split at taken
        · rename_i gone
          cases taken
          exact .sendRaised t call stands gone
        · rename_i there
          cases taken
          exact .send t call stands (by simpa using there)
      · cases taken
  | ask t =>
      simp only [step] at taken
      split at taken
      · rename_i call stands
        split at taken
        · rename_i gone
          cases taken
          exact .askRaised t call stands gone
        · rename_i there
          cases taken
          exact .ask t call stands (by simpa using there)
      · cases taken
  | read t =>
      simp only [step] at taken
      split at taken
      · rename_i call lines stands
        split at taken
        · cases taken
        · rename_i ending shell read
          cases taken
          exact .ended t call lines ending shell stands read
        · rename_i x shell read
          cases taken
          exact .skip t call lines x shell stands read
      · cases taken
  | finish t =>
      simp only [step] at taken
      split at taken
      · rename_i own stands
        cases taken
        exact .finish t own stands
      · cases taken
  | serve =>
      simp only [step] at taken
      split at taken
      · rename_i ready
        simp only [Option.map_eq_some_iff, Prod.exists] at taken
        obtain ⟨line, rest, split, rfl⟩ := taken
        exact .serve line rest ready.1 ready.2 split
      · cases taken
  | emit n =>
      simp only [step] at taken
      split at taken
      · rename_i ready
        cases taken
        exact .emit n ready.1 ready.2.1 ready.2.2
      · cases taken
  | die =>
      simp only [step] at taken
      split at taken
      · cases taken
      · rename_i there
        cases taken
        exact .die (by simpa using there)

end Link

end Pwrake
