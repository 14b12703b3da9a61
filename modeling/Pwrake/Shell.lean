import Pwrake.Lib.Lines
import Pwrake.Lib.KernelInteger

set_option autoImplicit false

namespace Pwrake

-- Strings are byte strings, as IO#gets hands them over in a single-byte locale.
abbrev Bytes := List UInt8

def ascii (text : String) : Bytes := text.toList.map fun c => UInt8.ofNat c.toNat

def LF : UInt8 := 10
def CR : UInt8 := 13

def CHARS : Bytes :=
  ascii "0123456789ABCDEFGHIJKLMNOPQRSTUVWXYZabcdefghijklmnopqrstuvwxyz!\"#=~\x7b*\x7d?_-^@[],./"

def TLEN : Nat := 64

-- initialize draws TLEN characters of CHARS; nothing else is promised of them.
structure Terminator where
  bytes : Bytes
  size : bytes.length = TLEN
  drawn : ∀ b ∈ bytes, b ∈ CHARS

-- The answers still to be read. A closed stream ends after its bytes; an open
-- one makes the reader wait there.
structure Stream where
  bytes : Bytes
  closed : Bool
deriving DecidableEq, Repr

inductive Gets where
  | line (x : Bytes) (rest : Stream)
  | nothing
  | blocked
deriving DecidableEq, Repr

def Stream.gets (io : Stream) : Gets :=
  match Lines.splitLine LF io.bytes with
  | some (x, rest) => .line x { io with bytes := rest }
  | none => if io.closed then (if io.bytes = [] then .nothing else .line io.bytes { io with bytes := [] }) else .blocked

def chomp (x : Bytes) : Bytes :=
  if x.getLast? = some LF then
    if x.dropLast.getLast? = some CR then x.dropLast.dropLast else x.dropLast
  else if x.getLast? = some CR then x.dropLast else x

inductive ShellError where
  | argumentError
  | typeError
  | brokenPipe
deriving DecidableEq, Repr

-- Integer(x[TLEN+1..-1]); the slice is nil when x ends before that index.
def terminatorStatus (x : Bytes) : Except ShellError Int :=
  if x.length < TLEN + 1 then .error .typeError
  else match KernelInteger.integer (x.drop (TLEN + 1)) with
    | some n => .ok n
    | none => .error .argumentError

structure Shell where
  terminator : Terminator
  status : Option Int
  io : Stream
  sent : Bytes

inductive Ending where
  | terminated
  | eof
  | blocked
  | raised (error : ShellError)
deriving DecidableEq, Repr

-- lines are the chomped lines before the terminator line: _get prints them,
-- _get_output concatenates them.
structure Answer where
  ending : Ending
  shell : Shell
  lines : List Bytes

inductive Reply (Value : Type*) where
  | returns (value : Value)
  | blocked
  | raised (error : ShellError)
deriving DecidableEq, Repr

def Answer.skip (x : Bytes) (answer : Answer) : Answer := { answer with lines := x :: answer.lines }

def Answer.reply {Value : Type*} (answer : Answer) (value : Value) : Reply Value :=
  match answer.ending with
  | .terminated => .returns value
  | .eof => .returns value
  | .blocked => .blocked
  | .raised error => .raised error

theorem gets_shorter (io rest : Stream) (x : Bytes) (read : io.gets = .line x rest) :
    rest.bytes.length < io.bytes.length := by
  unfold Stream.gets at read
  split at read
  · rename_i line tail split
    cases read
    exact Lines.split_line_shorter LF io.bytes _ _ split
  · split at read
    · split at read
      · cases read
      · rename_i content
        cases read
        exact List.length_pos_of_ne_nil content
    · cases read

namespace Shell

def new (terminator : Terminator) (io : Stream) : Shell := ⟨terminator, none, io, []⟩

def puts (sh : Shell) (text : Bytes) : Shell :=
  { sh with sent := sh.sent ++ (if text.getLast? = some LF then text else text ++ [LF]) }

def echoTerminator (sh : Shell) : Bytes := ascii "\necho '" ++ sh.terminator.bytes ++ ascii "':$? "

-- The loop that _get and _get_output share.
def readAnswer (sh : Shell) : Answer :=
  match _seen : sh.io.gets with
  | .nothing => ⟨.eof, sh, []⟩
  | .blocked => ⟨.blocked, sh, []⟩
  | .line x rest =>
      if (chomp x).take TLEN = sh.terminator.bytes then
        match terminatorStatus (chomp x) with
        | .ok n => ⟨.terminated, { sh with io := rest, status := some n }, []⟩
        | .error error => ⟨.raised error, { sh with io := rest }, []⟩
      else (readAnswer { sh with io := rest }).skip (chomp x)
termination_by sh.io.bytes.length
decreasing_by exact gets_shorter sh.io rest x _seen

def get (sh : Shell) : Answer := (sh.puts sh.echoTerminator).readAnswer

def join (command : List Bytes) : Bytes := [32].intercalate command

-- The command line goes out, then the answer is read up to its terminator.
def ask (sh : Shell) (command : List Bytes) : Answer := (sh.puts (join command)).get

-- epipe: the shell process is gone and writing to it raises Errno::EPIPE.
def system (sh : Shell) (command : List Bytes) (epipe : Bool) : Reply Bool × Shell :=
  if epipe then (.raised .brokenPipe, sh)
  else ((sh.ask command).reply ((sh.ask command).shell.status == some 0), (sh.ask command).shell)

def backquote (sh : Shell) (command : List Bytes) (epipe : Bool) : Reply Bytes × Shell :=
  if epipe then (.raised .brokenPipe, sh)
  else ((sh.ask command).reply (sh.ask command).lines.flatten, (sh.ask command).shell)

def openPath (sh : Shell) (path : Bytes) (epipe : Bool) : Reply Bool × Shell :=
  sh.system [ascii "export PATH='" ++ path ++ ascii "'"] epipe

inductive Call where
  | openPath (path : Bytes)
  | system (command : List Bytes)
  | backquote (command : List Bytes)
deriving DecidableEq, Repr

def perform (sh : Shell) (epipe : Bool) : Call → Option Shell
  | .openPath path => match sh.openPath path epipe with
      | (.blocked, _) => none
      | (_, next) => some next
  | .system command => match sh.system command epipe with
      | (.blocked, _) => none
      | (_, next) => some next
  | .backquote command => match sh.backquote command epipe with
      | (.blocked, _) => none
      | (_, next) => some next

-- A later call needs @lock, so nothing follows a call that never returns.
def session (sh : Shell) : List (Call × Bool) → Option Shell
  | [] => some sh
  | (call, epipe) :: rest => match sh.perform epipe call with
      | none => none
      | some next => next.session rest

end Shell

namespace FileUtils

inductive ShFailure where
  | shell (error : ShellError)
  | failed (message : Bytes)
deriving DecidableEq, Repr

inductive ShResult where
  | returns
  | blocked
  | raised (failure : ShFailure)
deriving DecidableEq, Repr

-- pwrake_system on a thread that has a connection. The status is what
-- Rake::PseudoStatus.new(conn.status) reports as its exitstatus.
def pwrakeSystem (conn : Shell) (cmd : List Bytes) (epipe : Bool) : Reply (Bool × Option Int) × Shell :=
  match conn.system cmd epipe with
  | (.returns res, conn) => (.returns (res, conn.status), conn)
  | (.blocked, conn) => (.blocked, conn)
  | (.raised error, conn) => (.raised error, conn)

def showStatus : Option Int → Bytes
  | none => []
  | some (.ofNat n) => KernelInteger.decimal n
  | some (.negSucc n) => 45 :: KernelInteger.decimal (n + 1)

def showCommand (cmd : List Bytes) : Bytes := (Shell.join cmd).take 42 ++ ascii "..."

def defaultBlock (cmd : List Bytes) (ok : Bool) (status : Option Int) : Except Bytes Unit :=
  if ok then .ok ()
  else .error (ascii "Command failed with status (" ++ showStatus status ++ ascii "): [" ++ showCommand cmd ++ ascii "]")

def sh (conn : Shell) (cmd : List Bytes) (noop : Bool) (block : Option (Bool → Option Int → Except Bytes Unit))
    (epipe : Bool) : ShResult × Shell :=
  if noop then (.returns, conn)
  else match pwrakeSystem conn cmd epipe with
    | (.blocked, conn) => (.blocked, conn)
    | (.raised error, conn) => (.raised (.shell error), conn)
    | (.returns (res, status), conn) => match (block.getD (defaultBlock cmd)) res status with
        | .ok () => (.returns, conn)
        | .error message => (.raised (.failed message), conn)

end FileUtils

end Pwrake
