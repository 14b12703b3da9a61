import Pwrake.ShellReader

set_option autoImplicit false

namespace Pwrake.Shell

-- One command and what the remote shell answers: its output, then the line that
-- echo prints for its exit status.
structure Exchange where
  command : List Bytes
  output : Bytes
  status : Nat
deriving DecidableEq, Repr

def Exchange.answer (term : Terminator) (e : Exchange) : Bytes := e.output ++ terminatorLine term e.status

def Ordinary (term : Terminator) (o : Bytes) : Prop := ∀ line ∈ Lines.lines LF o, ¬ term.bytes <+: line

def WholeLines (o : Bytes) : Prop := o = [] ∨ o.getLast? = some LF

-- The answer reaches the pipe because the command was sent, so the bytes of the
-- next answer are not there yet while this one is read.
def answered (sh : Shell) (bytes : Bytes) : Shell := { sh with io := { sh.io with bytes := sh.io.bytes ++ bytes } }

def exchange (sh : Shell) (e : Exchange) : Answer := (sh.answered (e.answer sh.terminator)).ask e.command

-- The call stopped behind its own terminator line with the right status, and
-- what it read before that line is the command's output.
structure FramedCall (sh : Shell) (e : Exchange) : Prop where
  ending : (sh.exchange e).ending = .terminated
  status : (sh.exchange e).shell.status = some (Int.ofNat e.status)
  stream : (sh.exchange e).shell.io = sh.io
  output : (sh.exchange e).lines = (Lines.lines LF e.output).map chomp
  system : ((sh.answered (e.answer sh.terminator)).system e.command false) =
    (.returns (e.status == 0), (sh.exchange e).shell)
  backquote : ((sh.answered (e.answer sh.terminator)).backquote e.command false) =
    (.returns ((Lines.lines LF e.output).map chomp).flatten, (sh.exchange e).shell)

def InStep : Shell → List Exchange → Prop
  | _, [] => True
  | sh, e :: rest => FramedCall sh e ∧ InStep (sh.exchange e).shell rest

theorem framed_of_whole (sh : Shell) (e : Exchange) (idle : sh.io.bytes = []) (ordinary : Ordinary sh.terminator e.output)
    (whole : WholeLines e.output) : FramedCall sh e ∧ (sh.exchange e).shell.terminator = sh.terminator := by
  obtain ⟨ending, status, io, lines, terminator⟩ := ask_framed (sh.answered (e.answer sh.terminator)) e.command e.output
    e.status [] ordinary whole (by simp [answered, idle, Exchange.answer])
  refine ⟨⟨ending, status, io.trans ?_, lines, ?_, ?_⟩, terminator⟩
  · rw [← idle]
    rfl
  · have success : (some (Int.ofNat e.status) == some 0) = (e.status == 0) := by
      rw [Bool.eq_iff_iff]
      simp
    simp only [system, Bool.false_eq_true, if_false, exchange, Answer.reply, ending, status, success]
  · simp [backquote, exchange, Answer.reply, ending, lines]

-- The colon behind the terminator stays in what is given to Integer, so a line
-- that only overlaps the terminator raises.
theorem shifted_status (term : Terminator) (u : Bytes) (s : Nat) (content : u ≠ []) :
    terminatorStatus (u ++ (term.bytes ++ 58 :: KernelInteger.decimal s)) = .error .argumentError := by
  have size := term.size
  have long : ¬ (u ++ (term.bytes ++ 58 :: KernelInteger.decimal s)).length < TLEN + 1 := by
    simp only [List.length_append, List.length_cons]
    omega
  have positive : 0 < u.length := List.length_pos_of_ne_nil content
  have colon : 58 ∈ (u ++ (term.bytes ++ 58 :: KernelInteger.decimal s)).drop (TLEN + 1) := by
    have split : u ++ (term.bytes ++ 58 :: KernelInteger.decimal s) = (u ++ term.bytes) ++ 58 :: KernelInteger.decimal s := by
      simp
    rw [split, List.drop_append_of_le_length (by simp only [List.length_append]; omega)]
    exact List.mem_append_right _ List.mem_cons_self
  rw [terminatorStatus, if_neg long]
  cases parsed : KernelInteger.integer ((u ++ (term.bytes ++ 58 :: KernelInteger.decimal s)).drop (TLEN + 1)) with
  | none => rfl
  | some n => exact absurd colon (KernelInteger.integer_no_colon _ n parsed)

theorem read_nothing_more (sh : Shell) (opened : sh.io = ⟨[], false⟩) : sh.readAnswer.ending = .blocked := by
  have read : sh.io.gets = .blocked := by rw [opened]; rfl
  rw [read_blocked sh read]

-- Output that does not end its last line swallows the terminator: the call then
-- waits for a line that never comes, or raises.
theorem read_answer_unframed (sh : Shell) (o : Bytes) (s : Nat) (opened : sh.io.closed = false)
    (ordinary : Ordinary sh.terminator o) (ragged : ¬ WholeLines o)
    (shape : sh.io.bytes = o ++ terminatorLine sh.terminator s) : sh.readAnswer.ending ≠ .terminated := by
  obtain ⟨content, unended⟩ := not_or.mp ragged
  induction o using Lines.text_induction LF generalizing sh with
  | empty => exact absurd rfl content
  | unfinished o _ unmarked =>
      have marked : LF ∉ o ++ (sh.terminator.bytes ++ 58 :: KernelInteger.decimal s) := fun member =>
        (List.mem_append.mp member).elim unmarked (terminator_line_body sh.terminator s)
      have read := gets_marked sh.io _ [] marked (by rw [shape, terminatorLine]; simp)
      have chomped : chomp (o ++ (sh.terminator.bytes ++ 58 :: KernelInteger.decimal s) ++ [LF]) =
          o ++ (sh.terminator.bytes ++ 58 :: KernelInteger.decimal s) := by
        have whole : o ++ (sh.terminator.bytes ++ 58 :: KernelInteger.decimal s) ++ [LF] = o ++ terminatorLine sh.terminator s := by
          simp [terminatorLine]
        rw [whole, chomp_terminator_line]
      rcases read_cases sh _ _ read with ⟨-, skipped⟩ | ⟨-, ⟨n, parsed, -⟩ | ⟨error, -, raised⟩⟩
      · rw [skipped, Answer.skip, read_nothing_more _ (congrArg (Stream.mk []) opened)]
        exact Ending.noConfusion
      · rw [chomped, shifted_status sh.terminator o s content] at parsed
        cases parsed
      · rw [raised]
        exact Ending.noConfusion
  | line body tail inside ih =>
      have later : Ordinary sh.terminator tail := fun line member =>
        ordinary line (by rw [Lines.lines_marked LF body tail inside]; exact List.mem_cons_of_mem _ member)
      have raggedTail : ¬ WholeLines tail := fun ended => unended ((Lines.ended_marked LF body tail).mpr ended)
      obtain ⟨contentTail, unendedTail⟩ := not_or.mp raggedTail
      rw [read_ordinary sh body (tail ++ terminatorLine sh.terminator s) inside (by rw [shape]; simp)
        (ordinary _ (by rw [Lines.lines_marked LF body tail inside]; exact List.mem_cons_self))]
      exact ih { sh with io := { sh.io with bytes := tail ++ terminatorLine sh.terminator s } } opened later raggedTail
        rfl contentTail unendedTail

theorem framed_iff_whole (sh : Shell) (e : Exchange) (idle : sh.io = ⟨[], false⟩)
    (ordinary : Ordinary sh.terminator e.output) : FramedCall sh e ↔ WholeLines e.output := by
  refine ⟨fun framed => ?_, fun whole => (framed_of_whole sh e (by rw [idle]) ordinary whole).1⟩
  by_contra ragged
  let listening := (sh.answered (e.answer sh.terminator)).puts (join e.command)
  refine read_answer_unframed (listening.puts listening.echoTerminator) e.output e.status (congrArg Stream.closed idle)
    ordinary ragged ?_ framed.ending
  change sh.io.bytes ++ e.answer sh.terminator = _
  rw [idle, List.nil_append]
  rfl

theorem session_in_step_iff (sh : Shell) (idle : sh.io = ⟨[], false⟩) (session : List Exchange)
    (ordinary : ∀ e ∈ session, Ordinary sh.terminator e.output) :
    InStep sh session ↔ ∀ e ∈ session, WholeLines e.output := by
  induction session generalizing sh with
  | nil => simp [InStep]
  | cons e rest ih =>
      have head := framed_iff_whole sh e idle (ordinary e List.mem_cons_self)
      by_cases whole : WholeLines e.output
      · obtain ⟨framed, terminator⟩ := framed_of_whole sh e (by rw [idle]) (ordinary e List.mem_cons_self) whole
        have later := ih (sh.exchange e).shell (framed.stream.trans idle)
          (fun other member => by rw [terminator]; exact ordinary other (List.mem_cons_of_mem e member))
        simp only [InStep, List.forall_mem_cons, later, framed, whole, true_and]
      · simp only [InStep, List.forall_mem_cons, head, whole, false_and]

theorem session_in_step_two :
    InStep (new sampleTerminator ⟨[], false⟩) [⟨[ascii "true"], [], 0⟩, ⟨[ascii "ls"], ascii "x\n\n", 3⟩] ↔
      ∀ e ∈ [⟨[ascii "true"], [], 0⟩, ⟨[ascii "ls"], ascii "x\n\n", 3⟩], WholeLines (Exchange.output e) :=
  session_in_step_iff (new sampleTerminator ⟨[], false⟩) rfl _ (by
    intro e member
    rcases List.mem_cons.mp member with rfl | member
    · intro line inside
      cases inside
    · rw [List.mem_singleton.mp member]
      show ∀ line ∈ Lines.lines LF (ascii "x\n\n"), ¬ sampleTerminator.bytes <+: line
      decide)

theorem unfinished_line_swallows_terminator :
    ¬ ∀ (sh : Shell) (session : List Exchange), sh.io = ⟨[], false⟩ →
      (∀ e ∈ session, Ordinary sh.terminator e.output) → InStep sh session := by
  intro always
  let sh := new sampleTerminator ⟨[], false⟩
  let printed : Exchange := ⟨[ascii "printf", ascii "x"], ascii "x", 0⟩
  have ordinary : Ordinary sh.terminator printed.output := by
    show ∀ line ∈ Lines.lines LF (ascii "x"), ¬ sampleTerminator.bytes <+: line
    decide
  have framed := (always sh [printed] rfl (fun e member => by rw [List.mem_singleton.mp member]; exact ordinary)).1
  have whole : ascii "x" = [] ∨ (ascii "x").getLast? = some LF := (framed_iff_whole sh printed rfl ordinary).mp framed
  exact absurd whole (by decide)

end Pwrake.Shell
