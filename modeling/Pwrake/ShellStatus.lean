import Pwrake.ShellReader

set_option autoImplicit false

namespace Pwrake

-- No line that can still be read starts with the terminator, and no more bytes
-- will come.
def Lost (sh : Shell) : Prop :=
  sh.io.closed = true ∧ ∀ line ∈ Lines.lines LF sh.io.bytes, ¬ sh.terminator.bytes <+: line

namespace Shell

-- The exit status in a line that echo '<terminator>':$? prints, whole or cut off
-- before its end of line. Other lines that start with the terminator have none,
-- also where Integer accepts what follows it.
def exitStatus (term : Terminator) (line : Bytes) : Option Nat :=
  match terminatorStatus (chomp line) with
  | .ok (.ofNat s) => if chomp line = term.bytes ++ 58 :: KernelInteger.decimal s then some s else none
  | _ => none

def isTerminatorLine (term : Terminator) (line : Bytes) : Bool := (exitStatus term line).isSome

-- Each call that reaches the shell process sends one command, and the process
-- answers the commands in turn.
def commandsSent (history : List (Call × Bool)) : Nat := history.countP fun call => !call.2

-- Between the two states the terminator line was read, with status 0, that comes
-- after those of the first number commands.
def ReadZero (io : Stream) (number : Nat) (before after : Shell) : Prop :=
  ∃ past skipped line, Lines.lines LF io.bytes = past ++ Lines.lines LF before.io.bytes ∧
    Lines.lines LF before.io.bytes = skipped ++ line :: Lines.lines LF after.io.bytes ∧
    exitStatus before.terminator line = some 0 ∧ (past ++ skipped).countP (isTerminatorLine before.terminator) = number

-- What a caller of a connection relies on, for the command that comes after the
-- first number commands. A status kept from an earlier command does not count,
-- nor does the line of an earlier command that was left in the pipe.
structure Honest (io : Stream) (number : Nat) (sh : Shell) (command : List Bytes) : Prop where
  system : ∀ epipe, (sh.system command epipe).1 = .returns true → ReadZero io number sh (sh.system command epipe).2
  status : ∀ epipe res, (FileUtils.pwrakeSystem sh command epipe).1 = .returns (res, some 0) →
    ReadZero io number sh (FileUtils.pwrakeSystem sh command epipe).2
  lost : Lost sh → (sh.system command false).1 = .returns false ∧
    ∃ message, (FileUtils.sh sh command false none false).1 = .raised (.failed message)

-- The line at which the loop of the next call stops.
def Next (sh : Shell) (skipped : List Bytes) (line : Bytes) (rest : List Bytes) : Prop :=
  Lines.lines LF sh.io.bytes = skipped ++ line :: rest ∧ (∀ x ∈ skipped, ¬ sh.terminator.bytes <+: x) ∧
    sh.terminator.bytes <+: line ∧ (sh.io.closed = true ∨ LF ∈ line)

-- As many terminator lines were read as commands were sent.
def Aligned (io : Stream) (number : Nat) (sh : Shell) : Prop :=
  ∃ past, Lines.lines LF io.bytes = past ++ Lines.lines LF sh.io.bytes ∧
    past.countP (isTerminatorLine sh.terminator) = number

-- The next line that starts with the terminator reads as 0 but is not the line
-- of the next command.
def Strayed (io : Stream) (number : Nat) (sh : Shell) : Prop :=
  ∃ skipped line rest, Next sh skipped line rest ∧ terminatorStatus (chomp line) = .ok 0 ∧
    ¬ (exitStatus sh.terminator line = some 0 ∧ Aligned io number sh)

theorem exit_status_some (term : Terminator) (line : Bytes) (s : Nat) (carried : exitStatus term line = some s) :
    term.bytes <+: line ∧ terminatorStatus (chomp line) = .ok (Int.ofNat s) := by
  unfold exitStatus at carried
  split at carried
  · rename_i n parsed
    split at carried
    · rename_i shape
      cases carried
      refine ⟨(starts_chomp term line).mp ?_, parsed⟩
      rw [shape, ← term.size, List.take_left]
    · cases carried
  · cases carried

theorem exit_status_line (term : Terminator) (s : Nat) : exitStatus term (terminatorLine term s) = some s := by
  have shape := chomp_terminator_line term [] s
  rw [List.nil_append, List.nil_append] at shape
  rw [exitStatus, terminator_line_status]
  exact if_pos shape

theorem unmarked_none (term : Terminator) (skipped : List Bytes) (unmarked : ∀ x ∈ skipped, ¬ term.bytes <+: x) :
    skipped.countP (isTerminatorLine term) = 0 := by
  refine List.countP_eq_zero.mpr fun x member carried => ?_
  obtain ⟨s, some⟩ := Option.isSome_iff_exists.mp carried
  exact unmarked x member (exit_status_some term x s some).1

theorem read_answer_eof (sh : Shell) (lost : Lost sh) :
    sh.readAnswer.ending = .eof ∧ sh.readAnswer.shell.status = sh.status ∧ Lost sh.readAnswer.shell := by
  cases read : sh.io.gets with
  | nothing => simp [read_eof sh read, lost]
  | blocked => exact absurd lost.1 (by simp [gets_blocked sh.io read])
  | line x rest =>
      obtain ⟨-, closed, lines⟩ := gets_line sh.io rest x read
      have later : Lost { sh with io := rest } :=
        ⟨closed.trans lost.1, fun line member => lost.2 line (by rw [lines]; exact List.mem_cons_of_mem x member)⟩
      rcases read_cases sh x rest read with ⟨-, skipped⟩ | ⟨starts, -⟩
      · rw [skipped]
        exact read_answer_eof { sh with io := rest } later
      · exact absurd starts (lost.2 x (by rw [lines]; exact List.mem_cons_self))
termination_by sh.io.bytes.length
decreasing_by exact gets_shorter sh.io _ _ (by assumption)

theorem blocked_short (io : Stream) (read : io.gets = .blocked) (skipped : List Bytes) (line : Bytes) (rest : List Bytes)
    (whole : io.closed = true ∨ LF ∈ line) : Lines.lines LF io.bytes ≠ skipped ++ line :: rest := by
  intro shape
  have unmarked := gets_blocked_unmarked io read
  have marked : LF ∈ line := whole.resolve_left (by simp [gets_blocked io read])
  by_cases content : io.bytes = []
  · simp [content, Lines.lines] at shape
  · have member : line ∈ [io.bytes] := by
      rw [← Lines.lines_unmarked LF io.bytes unmarked content, shape]
      exact List.mem_append_right skipped List.mem_cons_self
    exact unmarked (List.mem_singleton.mp member ▸ marked)

theorem read_answer_terminator (sh : Shell) : sh.readAnswer.shell.terminator = sh.terminator := by
  cases read : sh.io.gets with
  | nothing => simp [read_eof sh read]
  | blocked => simp [read_blocked sh read]
  | line x rest =>
      rcases read_cases sh x rest read with ⟨-, again⟩ | ⟨-, ⟨n, -, ended⟩ | ⟨error, -, raised⟩⟩
      · rw [again]
        exact read_answer_terminator { sh with io := rest }
      · simp [ended]
      · simp [raised]
termination_by sh.io.bytes.length
decreasing_by exact gets_shorter sh.io _ _ (by assumption)

-- If the stream is not lost the loop ends at the next line that starts with the
-- terminator, or waits for more input.
theorem read_answer_kept (sh : Shell) (kept : ¬ Lost sh) :
    sh.readAnswer.ending = .blocked ∨
      ∃ skipped line, Next sh skipped line (Lines.lines LF sh.readAnswer.shell.io.bytes) ∧
        ((∃ n, terminatorStatus (chomp line) = .ok n ∧ sh.readAnswer.ending = .terminated ∧ sh.readAnswer.shell.status = some n) ∨
          ∃ error, terminatorStatus (chomp line) = .error error ∧ sh.readAnswer.ending = .raised error) := by
  cases read : sh.io.gets with
  | nothing =>
      obtain ⟨closed, vacant⟩ := gets_nothing sh.io read
      exact absurd ⟨closed, by simp [vacant, Lines.lines]⟩ kept
  | blocked => exact .inl (by simp [read_blocked sh read])
  | line x rest =>
      obtain ⟨-, closed, lines⟩ := gets_line sh.io rest x read
      rcases read_cases sh x rest read with ⟨ordinary, again⟩ | ⟨starts, stopped⟩
      · have later : ¬ Lost { sh with io := rest } := by
          rintro ⟨ended, others⟩
          refine kept ⟨closed.symm.trans ended, fun line member => ?_⟩
          rw [lines] at member
          rcases List.mem_cons.mp member with same | further
          · exact same ▸ ordinary
          · exact others line further
        rw [again]
        rcases read_answer_kept { sh with io := rest } later with blocked | ⟨skipped, line, ⟨shape, unlike, starts, whole⟩, found⟩
        · exact .inl blocked
        · refine .inr ⟨x :: skipped, line,
            ⟨?_, List.forall_mem_cons.mpr ⟨ordinary, unlike⟩, starts, whole.imp_left closed.symm.trans⟩, found⟩
          rw [lines, shape]
          rfl
      · have whole : sh.io.closed = true ∨ LF ∈ x := by
          rcases gets_cases sh.io rest x read with ⟨body, -, marked, -⟩ | ⟨gone, -⟩
          · exact .inr (by simp [marked])
          · exact .inl gone
        rcases stopped with ⟨n, parsed, ended⟩ | ⟨error, parsed, raised⟩
        · exact .inr ⟨[], x, ⟨by rw [ended]; exact lines, by simp, starts, whole⟩, .inl ⟨n, parsed, by simp [ended]⟩⟩
        · exact .inr ⟨[], x, ⟨by rw [raised]; exact lines, by simp, starts, whole⟩, .inr ⟨error, parsed, by simp [raised]⟩⟩
termination_by sh.io.bytes.length
decreasing_by exact gets_shorter sh.io _ _ (by assumption)

theorem next_kept (sh : Shell) (skipped : List Bytes) (line : Bytes) (rest : List Bytes) (next : Next sh skipped line rest) :
    ¬ Lost sh := fun lost =>
  lost.2 line (by rw [next.1]; exact List.mem_append_right skipped List.mem_cons_self) next.2.2.1

-- The first line that starts with the terminator is the first.
theorem next_unique (sh : Shell) (skipped skipped' : List Bytes) (line line' : Bytes) (rest rest' : List Bytes)
    (next : Next sh skipped line rest) (next' : Next sh skipped' line' rest') :
    skipped = skipped' ∧ line = line' ∧ rest = rest' := by
  obtain ⟨shape, unlike, starts, -⟩ := next
  obtain ⟨shape', unlike', starts', -⟩ := next'
  have same := shape.symm.trans shape'
  clear shape shape'
  induction skipped generalizing skipped' with
  | nil =>
      cases skipped' with
      | nil => exact ⟨rfl, (List.cons.injEq _ _ _ _).mp same⟩
      | cons x others =>
          cases same
          exact absurd starts (unlike' line List.mem_cons_self)
  | cons x others ih =>
      cases skipped' with
      | nil =>
          cases same
          exact absurd starts' (unlike line' List.mem_cons_self)
      | cons y others' =>
          obtain ⟨rfl, tails⟩ := List.cons.inj same
          obtain ⟨rfl, found⟩ := ih others' (fun z member => unlike z (List.mem_cons_of_mem _ member))
            (fun z member => unlike' z (List.mem_cons_of_mem _ member)) tails
          exact ⟨rfl, found⟩

theorem next_answered (sh : Shell) (skipped : List Bytes) (line : Bytes) (rest : List Bytes) (next : Next sh skipped line rest) :
    sh.readAnswer.ending ≠ .blocked := by
  induction skipped generalizing sh with
  | nil =>
      obtain ⟨shape, -, starts, whole⟩ := next
      cases read : sh.io.gets with
      | nothing => simp [read_eof sh read]
      | blocked => exact absurd shape (blocked_short sh.io read [] line rest whole)
      | line x others =>
          obtain ⟨-, -, lines⟩ := gets_line sh.io others x read
          have same : x = line := (List.cons.inj (lines.symm.trans shape)).1
          rcases read_cases sh x others read with ⟨ordinary, -⟩ | ⟨-, ⟨n, -, ended⟩ | ⟨error, -, raised⟩⟩
          · exact absurd (same ▸ starts) ordinary
          · simp [ended]
          · simp [raised]
  | cons y skipped ih =>
      obtain ⟨shape, unlike, starts, whole⟩ := next
      cases read : sh.io.gets with
      | nothing => simp [read_eof sh read]
      | blocked => exact absurd shape (blocked_short sh.io read (y :: skipped) line rest whole)
      | line x others =>
          obtain ⟨-, closed, lines⟩ := gets_line sh.io others x read
          obtain ⟨rfl, tails⟩ := List.cons.inj (lines.symm.trans shape)
          rcases read_cases sh x others read with ⟨-, again⟩ | ⟨begins, -⟩
          · rw [again]
            exact ih { sh with io := others }
              ⟨tails, fun z member => unlike z (List.mem_cons_of_mem x member), starts, whole.imp_left closed.trans⟩
          · exact absurd begins (unlike x List.mem_cons_self)

theorem ask_lost (sh : Shell) (command : List Bytes) (lost : Lost sh) :
    (sh.ask command).ending = .eof ∧ (sh.ask command).shell.status = sh.status ∧ Lost (sh.ask command).shell :=
  read_answer_eof ((sh.puts (join command)).puts (sh.puts (join command)).echoTerminator) lost

theorem ask_kept (sh : Shell) (command : List Bytes) (kept : ¬ Lost sh) :
    (sh.ask command).ending = .blocked ∨
      ∃ skipped line, Next sh skipped line (Lines.lines LF (sh.ask command).shell.io.bytes) ∧
        ((∃ n, terminatorStatus (chomp line) = .ok n ∧ (sh.ask command).ending = .terminated ∧
            (sh.ask command).shell.status = some n) ∨
          ∃ error, terminatorStatus (chomp line) = .error error ∧ (sh.ask command).ending = .raised error) :=
  read_answer_kept ((sh.puts (join command)).puts (sh.puts (join command)).echoTerminator) kept

-- The next line that starts with the terminator decides the call.
theorem ask_next (sh : Shell) (command : List Bytes) (skipped : List Bytes) (line : Bytes) (rest : List Bytes)
    (next : Next sh skipped line rest) :
    Lines.lines LF (sh.ask command).shell.io.bytes = rest ∧
      ((∃ n, terminatorStatus (chomp line) = .ok n ∧ (sh.ask command).ending = .terminated ∧
          (sh.ask command).shell.status = some n) ∨
        ∃ error, terminatorStatus (chomp line) = .error error ∧ (sh.ask command).ending = .raised error) := by
  have answered : (sh.ask command).ending ≠ .blocked :=
    next_answered ((sh.puts (join command)).puts (sh.puts (join command)).echoTerminator) skipped line rest next
  rcases ask_kept sh command (next_kept sh skipped line rest next) with blocked | ⟨skipped', line', next', found⟩
  · exact absurd blocked answered
  · obtain ⟨-, rfl, rfl⟩ := next_unique sh skipped skipped' line line' rest _ next next'
    exact ⟨rfl, found⟩

theorem system_returns (sh : Shell) (command : List Bytes) (epipe res : Bool)
    (returned : (sh.system command epipe).1 = .returns res) :
    epipe = false ∧ ((sh.ask command).ending = .terminated ∨ (sh.ask command).ending = .eof) ∧
      res = ((sh.ask command).shell.status == some 0) := by
  cases epipe with
  | true => cases returned
  | false =>
      simp only [system, Bool.false_eq_true, if_false, Answer.reply] at returned
      cases ending : (sh.ask command).ending with
      | terminated => simp only [ending, Reply.returns.injEq] at returned; exact ⟨rfl, .inl rfl, returned.symm⟩
      | eof => simp only [ending, Reply.returns.injEq] at returned; exact ⟨rfl, .inr rfl, returned.symm⟩
      | blocked => simp [ending] at returned
      | raised error => simp [ending] at returned

theorem pwrake_system_eq (sh : Shell) (command : List Bytes) (epipe : Bool) :
    (FileUtils.pwrakeSystem sh command epipe).2 = (sh.system command epipe).2 ∧
    ∀ res status, (FileUtils.pwrakeSystem sh command epipe).1 = .returns (res, status) →
      (sh.system command epipe).1 = .returns res ∧ (sh.system command epipe).2.status = status := by
  unfold FileUtils.pwrakeSystem
  rcases shape : sh.system command epipe with ⟨reply, next⟩
  cases reply <;> simp

theorem system_lost (sh : Shell) (command : List Bytes) (lost : Lost sh) :
    (sh.system command false).1 = .returns (sh.status == some 0) := by
  obtain ⟨ending, status, -⟩ := ask_lost sh command lost
  simp [system, Answer.reply, ending, status]

theorem sh_lost (sh : Shell) (command : List Bytes) (lost : Lost sh) (failed : sh.status ≠ some 0) :
    ∃ message, (FileUtils.sh sh command false none false).1 = .raised (.failed message) := by
  have returned := system_lost sh command lost
  have unsuccessful : (sh.status == some 0) = false := by simpa using failed
  rw [unsuccessful] at returned
  rcases shape : sh.system command false with ⟨reply, next⟩
  rw [shape] at returned
  cases returned
  exact ⟨_, by simp [FileUtils.sh, FileUtils.pwrakeSystem, shape, FileUtils.defaultBlock]; rfl⟩

-- The first number commands were answered, or nothing strays: then the line that
-- a call takes for 0 is the one of its command.
theorem read_zero_next (io : Stream) (number : Nat) (sh after : Shell) (skipped : List Bytes) (line : Bytes)
    (next : Next sh skipped line (Lines.lines LF after.io.bytes)) :
    ReadZero io number sh after ↔ exitStatus sh.terminator line = some 0 ∧ Aligned io number sh := by
  constructor
  · rintro ⟨past, skipped', line', stream, shape, carried, count⟩
    have same : skipped' ++ [line'] = skipped ++ [line] := by
      have whole := shape.symm.trans next.1
      rw [← List.append_left_inj (Lines.lines LF after.io.bytes)]
      simpa using whole
    obtain ⟨rfl, last⟩ := List.append_inj' same rfl
    obtain rfl : line' = line := List.singleton_inj.mp last
    rw [List.countP_append, unmarked_none sh.terminator skipped' next.2.1, Nat.add_zero] at count
    exact ⟨carried, past, stream, count⟩
  · rintro ⟨carried, past, stream, count⟩
    refine ⟨past, skipped, line, stream, next.1, carried, ?_⟩
    rw [List.countP_append, unmarked_none sh.terminator skipped next.2.1, Nat.add_zero, count]

theorem honest_iff (io : Stream) (number : Nat) (sh : Shell) (command : List Bytes) :
    Honest io number sh command ↔ ¬ (Lost sh ∧ sh.status = some 0) ∧ ¬ Strayed io number sh := by
  constructor
  · intro honest
    refine ⟨?_, ?_⟩
    · rintro ⟨lost, zero⟩
      have reported := system_lost sh command lost
      rw [(honest.lost lost).1, zero] at reported
      cases reported
    · rintro ⟨skipped, line, rest, next, zero, strayed⟩
      obtain ⟨left, ⟨n, parsed, ended, status⟩ | ⟨error, failed, -⟩⟩ := ask_next sh command skipped line rest next
      · cases zero.symm.trans parsed
        have returned : (sh.system command false).1 = .returns true := by simp [system, Answer.reply, ended, status]
        exact strayed ((read_zero_next io number sh (sh.ask command).shell skipped line (left ▸ next)).mp
          (honest.system false returned))
      · cases zero.symm.trans failed
  · rintro ⟨sound, straight⟩
    have read : ∀ epipe, (sh.system command epipe).1 = .returns true → ReadZero io number sh (sh.system command epipe).2 := by
      intro epipe returned
      obtain ⟨writable, ending, zero⟩ := system_returns sh command epipe true returned
      have status : (sh.ask command).shell.status = some 0 := by simpa using zero.symm
      subst writable
      by_cases lost : Lost sh
      · exact absurd ⟨lost, (ask_lost sh command lost).2.1.symm.trans status⟩ sound
      · rcases ask_kept sh command lost with blocked | ⟨skipped, line, next, ⟨n, parsed, -, found⟩ | ⟨error, -, raised⟩⟩
        · simp [blocked] at ending
        · cases found.symm.trans status
          refine (read_zero_next io number sh (sh.ask command).shell skipped line next).mpr
            (Classical.byContradiction fun other => ?_)
          exact straight ⟨skipped, line, _, next, parsed, other⟩
        · simp [raised] at ending
    refine ⟨read, fun epipe res returned => ?_, fun lost => ?_⟩
    · obtain ⟨same, both⟩ := pwrake_system_eq sh command epipe
      obtain ⟨reply, zero⟩ := both res (some 0) returned
      obtain ⟨writable, -, value⟩ := system_returns sh command epipe res reply
      subst writable
      have success : res = true := by
        rw [value]
        simpa [system] using zero
      rw [same]
      exact read false (success ▸ reply)
    · have failed : sh.status ≠ some 0 := fun zero => sound ⟨lost, zero⟩
      refine ⟨?_, sh_lost sh command lost failed⟩
      rw [system_lost sh command lost]
      simpa using failed

def Call.command : Call → List Bytes
  | .openPath path => [ascii "export PATH='" ++ path ++ ascii "'"]
  | .system command => command
  | .backquote command => command

theorem reply_blocked {Value : Type*} (answer : Answer) (value : Value) :
    answer.reply value = .blocked ↔ answer.ending = .blocked := by
  unfold Answer.reply
  split <;> simp [*]

theorem perform_ask (sh : Shell) (call : Call) :
    sh.perform false call = if (sh.ask call.command).ending = .blocked then none else some (sh.ask call.command).shell := by
  have system (command : List Bytes) :
      sh.perform false (.system command) = if (sh.ask command).ending = .blocked then none else some (sh.ask command).shell := by
    have blocked := reply_blocked (sh.ask command) ((sh.ask command).shell.status == some 0)
    simp only [perform, Shell.system, Bool.false_eq_true, if_false, ← blocked]
    cases (sh.ask command).reply ((sh.ask command).shell.status == some 0) <;> simp
  cases call with
  | openPath path => exact system [ascii "export PATH='" ++ path ++ ascii "'"]
  | system command => exact system command
  | backquote command =>
      have blocked := reply_blocked (sh.ask command) (sh.ask command).lines.flatten
      simp only [perform, backquote, Bool.false_eq_true, if_false, Call.command, ← blocked]
      cases (sh.ask command).reply (sh.ask command).lines.flatten <;> simp

theorem session_single (sh : Shell) (call : Call) (answered : (sh.ask call.command).ending ≠ .blocked) :
    sh.session [(call, false)] = some (sh.ask call.command).shell := by
  rw [session, perform_ask, if_neg answered]
  rfl

theorem system_success_was_read (terminator : Terminator) (io : Stream) (history : List (Call × Bool)) :
    ∀ sh, (Shell.new terminator io).session history = some sh → ∀ command, Honest io (commandsSent history) sh command ↔
      ¬ (Lost sh ∧ sh.status = some 0) ∧ ¬ Strayed io (commandsSent history) sh :=
  fun sh _ command => honest_iff io (commandsSent history) sh command

def answeredTwice : Stream :=
  ⟨terminatorLine sampleTerminator 0 ++ (ascii "cc -o pi pi.c\n" ++ terminatorLine sampleTerminator 0), true⟩

theorem make_success_was_read :
    ∃ sh, (new sampleTerminator answeredTwice).session [(.openPath (ascii "/bin"), false)] = some sh ∧
      Honest answeredTwice 1 sh [ascii "make"] ∧ (sh.system [ascii "make"] false).1 = .returns true := by
  obtain ⟨ending, -, io, -, same⟩ := ask_framed (new sampleTerminator answeredTwice)
    [ascii "export PATH='" ++ ascii "/bin" ++ ascii "'"] [] 0 (ascii "cc -o pi pi.c\n" ++ terminatorLine sampleTerminator 0)
    (by simp [Lines.lines]) (.inl rfl) rfl
  have reached := session_single (new sampleTerminator answeredTwice) (.openPath (ascii "/bin"))
    (by rw [Call.command, ending]; exact Ending.noConfusion)
  rw [Call.command] at reached
  replace same : ((new sampleTerminator answeredTwice).ask [ascii "export PATH='" ++ ascii "/bin" ++ ascii "'"]).shell.terminator =
    sampleTerminator := same
  generalize ((new sampleTerminator answeredTwice).ask [ascii "export PATH='" ++ ascii "/bin" ++ ascii "'"]).shell = sh at *
  have ordinary : ∀ line ∈ Lines.lines LF (ascii "cc -o pi pi.c\n"), ¬ sh.terminator.bytes <+: line := by
    rw [same]
    decide +kernel
  have next : Next sh [ascii "cc -o pi pi.c\n"] (terminatorLine sampleTerminator 0) [] := by
    refine ⟨by rw [io]; decide +kernel, by rw [same]; decide +kernel, ?_, .inr (by decide +kernel)⟩
    rw [same]
    exact (exit_status_some _ _ 0 (exit_status_line sampleTerminator 0)).1
  have aligned : Aligned answeredTwice 1 sh := by
    refine ⟨[terminatorLine sampleTerminator 0], by rw [io]; decide +kernel, ?_⟩
    simp [same, isTerminatorLine, exit_status_line]
  refine ⟨sh, reached, (system_success_was_read sampleTerminator answeredTwice _ sh reached [ascii "make"]).mpr
    ⟨fun gone => next_kept sh _ _ _ next gone.1, ?_⟩, ?_⟩
  · rintro ⟨skipped, line, rest, other, -, strayed⟩
    obtain ⟨-, rfl, -⟩ := next_unique sh _ _ _ _ _ _ next other
    exact strayed ⟨same ▸ exit_status_line sampleTerminator 0, aligned⟩
  · obtain ⟨ended, status, -⟩ := ask_framed sh [ascii "make"] (ascii "cc -o pi pi.c\n") 0 [] ordinary (.inr (by decide +kernel))
      (by rw [io, same]; simp)
    simp [system, Answer.reply, ended, status]

-- The connection answers the command that open sends and then goes away.
def brokenConnection : Stream := ⟨terminatorLine sampleTerminator 0, true⟩

theorem broken_connection_opened :
    ∃ sh, (new sampleTerminator brokenConnection).session [(.openPath (ascii "/bin"), false)] = some sh ∧
      Lost sh ∧ sh.status = some 0 := by
  obtain ⟨ending, status, io, -, -⟩ := ask_framed (new sampleTerminator brokenConnection)
    [ascii "export PATH='" ++ ascii "/bin" ++ ascii "'"] [] 0 [] (by simp [Lines.lines]) (.inl rfl)
    (by simp [brokenConnection, new])
  refine ⟨_, session_single _ (.openPath (ascii "/bin")) (by rw [Call.command, ending]; exact Ending.noConfusion),
    ⟨?_, ?_⟩, status⟩
  · rw [Call.command, io]
    rfl
  · rw [Call.command, io]
    simp [Lines.lines]

theorem lost_shell_reports_success :
    ¬ ∀ (terminator : Terminator) (io : Stream) (history : List (Call × Bool)) (sh : Shell),
      (new terminator io).session history = some sh → ∀ command, Honest io (commandsSent history) sh command := by
  intro sound
  obtain ⟨sh, reached, lost, zero⟩ := broken_connection_opened
  have honest := sound sampleTerminator brokenConnection _ sh reached [ascii "make"]
  exact ((honest_iff brokenConnection _ sh [ascii "make"]).mp honest).1 ⟨lost, zero⟩

-- What one command takes off the stream.
theorem ask_aligned (io : Stream) (number : Nat) (sh : Shell) (command : List Bytes) (skipped : List Bytes) (line : Bytes)
    (aligned : Aligned io number sh) (next : Next sh skipped line (Lines.lines LF (sh.ask command).shell.io.bytes)) :
    Aligned io (number + if isTerminatorLine sh.terminator line then 1 else 0) (sh.ask command).shell := by
  obtain ⟨past, stream, count⟩ := aligned
  have same : (sh.ask command).shell.terminator = sh.terminator :=
    read_answer_terminator ((sh.puts (join command)).puts (sh.puts (join command)).echoTerminator)
  refine ⟨past ++ (skipped ++ [line]), by rw [stream, next.1]; simp, ?_⟩
  rw [same, List.countP_append, List.countP_append, unmarked_none sh.terminator skipped next.2.1, count, List.countP_singleton,
    Nat.zero_add]

theorem aligned_unique (io : Stream) (n m : Nat) (sh : Shell) (first : Aligned io n sh) (second : Aligned io m sh) : n = m := by
  obtain ⟨past, stream, rfl⟩ := first
  obtain ⟨past', stream', rfl⟩ := second
  rw [List.append_cancel_right (stream.symm.trans stream')]

-- A call that raised at a line that starts with the terminator and is no
-- terminator line leaves the terminator line of its command to the next one.
theorem raised_strays (io : Stream) (number : Nat) (sh : Shell) (command : List Bytes) (error : ShellError)
    (aligned : Aligned io number sh) (raised : (sh.ask command).ending = .raised error) (skipped : List Bytes) (line : Bytes)
    (rest : List Bytes) (next : Next (sh.ask command).shell skipped line rest) (zero : terminatorStatus (chomp line) = .ok 0) :
    Strayed io (number + 1) (sh.ask command).shell := by
  have kept : ¬ Lost sh := fun lost => by simp [(ask_lost sh command lost).1] at raised
  rcases ask_kept sh command kept with blocked | ⟨taken, stop, found, ⟨n, -, ended, -⟩ | ⟨other, failed, -⟩⟩
  · simp [blocked] at raised
  · simp [ended] at raised
  · have plain : isTerminatorLine sh.terminator stop = false := by simp [isTerminatorLine, exitStatus, failed]
    have behind := ask_aligned io number sh command taken stop aligned found
    rw [plain] at behind
    refine ⟨skipped, line, rest, next, zero, fun both => ?_⟩
    exact absurd (aligned_unique io _ _ _ behind both.2) (by simp)

-- The first command prints the bare terminator, and the second one fails.
def bareTerminator : Stream :=
  ⟨sampleTerminator.bytes ++ LF :: (terminatorLine sampleTerminator 0 ++ terminatorLine sampleTerminator 1), false⟩

theorem bare_terminator_raises (command : List Bytes) :
    ((new sampleTerminator bareTerminator).ask command).ending = .raised .typeError ∧
      ((new sampleTerminator bareTerminator).ask command).shell.io =
        ⟨terminatorLine sampleTerminator 0 ++ terminatorLine sampleTerminator 1, false⟩ := by
  have clean : LF ∉ sampleTerminator.bytes := fun member => (terminator_clean sampleTerminator LF member).1 rfl
  have short : terminatorStatus (chomp (sampleTerminator.bytes ++ [LF])) = .error .typeError := rfl
  have read := gets_marked bareTerminator sampleTerminator.bytes _ clean rfl
  rcases read_cases (((new sampleTerminator bareTerminator).puts (join command)).puts
      ((new sampleTerminator bareTerminator).puts (join command)).echoTerminator) _ _ read with
    ⟨ordinary, -⟩ | ⟨-, ⟨n, parsed, -⟩ | ⟨error, failed, raised⟩⟩
  · exact absurd (List.prefix_append sampleTerminator.bytes [LF]) ordinary
  · cases short.symm.trans parsed
  · cases short.symm.trans failed
    rw [ask, get, raised]
    exact ⟨rfl, rfl⟩

theorem bare_terminator_reports_success :
    ∃ sh, (new sampleTerminator bareTerminator).session [(.system [ascii "./first"], false)] = some sh ∧
      (sh.system [ascii "./second"] false).1 = .returns true ∧ ¬ Honest bareTerminator 1 sh [ascii "./second"] := by
  obtain ⟨raised, io⟩ := bare_terminator_raises [ascii "./first"]
  have same : ((new sampleTerminator bareTerminator).ask [ascii "./first"]).shell.terminator = sampleTerminator :=
    read_answer_terminator _
  have reached := session_single (new sampleTerminator bareTerminator) (.system [ascii "./first"])
    (by rw [Call.command, raised]; exact Ending.noConfusion)
  rw [Call.command] at reached
  have next : Next ((new sampleTerminator bareTerminator).ask [ascii "./first"]).shell [] (terminatorLine sampleTerminator 0)
      [terminatorLine sampleTerminator 1] := by
    refine ⟨by rw [io]; decide +kernel, by simp, ?_, .inr (by decide +kernel)⟩
    rw [same]
    exact (exit_status_some _ _ 0 (exit_status_line sampleTerminator 0)).1
  have strays := raised_strays bareTerminator 0 (new sampleTerminator bareTerminator) [ascii "./first"] .typeError ⟨[], rfl, rfl⟩
    raised [] _ _ next (exit_status_some _ _ 0 (exit_status_line sampleTerminator 0)).2
  refine ⟨_, reached, ?_, fun honest => ((honest_iff _ _ _ _).mp honest).2 strays⟩
  obtain ⟨ended, status, -⟩ := ask_framed ((new sampleTerminator bareTerminator).ask [ascii "./first"]).shell [ascii "./second"]
    [] 0 (terminatorLine sampleTerminator 1) (by simp [Lines.lines]) (.inl rfl) (by rw [io, same]; rfl)
  simp [system, Answer.reply, ended, status]

-- Where no command prints the terminator, the only way to go wrong is the end
-- of the stream.
def Genuine (terminator : Terminator) (io : Stream) : Prop :=
  ∀ line ∈ Lines.lines LF io.bytes, terminator.bytes <+: line → isTerminatorLine terminator line = true

theorem genuine_next (io : Stream) (number : Nat) (sh : Shell) (genuine : Genuine sh.terminator io)
    (aligned : Aligned io number sh)
    (skipped : List Bytes) (line : Bytes) (rest : List Bytes) (next : Next sh skipped line rest) :
    ∃ s, exitStatus sh.terminator line = some s := by
  obtain ⟨past, stream, -⟩ := aligned
  have member : line ∈ Lines.lines LF io.bytes := by simp [stream, next.1]
  exact Option.isSome_iff_exists.mp (genuine line member next.2.2.1)

theorem genuine_ask (io : Stream) (number : Nat) (sh : Shell) (command : List Bytes) (genuine : Genuine sh.terminator io)
    (before : Aligned io number sh ∨ Lost sh) (answered : (sh.ask command).ending ≠ .blocked) :
    Aligned io (number + 1) (sh.ask command).shell ∨ Lost (sh.ask command).shell := by
  by_cases lost : Lost sh
  · exact .inr (ask_lost sh command lost).2.2
  · have aligned := before.resolve_right lost
    obtain ⟨skipped, line, next, -⟩ := (ask_kept sh command lost).resolve_left answered
    obtain ⟨s, carried⟩ := genuine_next io number sh genuine aligned skipped line _ next
    have moved := ask_aligned io number sh command skipped line aligned next
    rw [isTerminatorLine, carried] at moved
    exact .inl moved

theorem session_aligned (io : Stream) (history : List (Call × Bool)) (number : Nat) (start sh : Shell)
    (genuine : Genuine start.terminator io) (before : Aligned io number start ∨ Lost start)
    (reached : start.session history = some sh) :
    sh.terminator = start.terminator ∧ (Aligned io (number + commandsSent history) sh ∨ Lost sh) := by
  induction history generalizing number start with
  | nil =>
      cases reached
      exact ⟨rfl, before⟩
  | cons entry rest ih =>
      obtain ⟨call, epipe⟩ := entry
      rw [session] at reached
      cases epipe with
      | true =>
          have same : start.perform true call = some start := by cases call <;> rfl
          rw [same] at reached
          simpa [commandsSent] using ih number start genuine before reached
      | false =>
          rw [perform_ask] at reached
          by_cases blocked : (start.ask call.command).ending = .blocked
          · simp [blocked] at reached
          · rw [if_neg blocked] at reached
            have same : (start.ask call.command).shell.terminator = start.terminator :=
              read_answer_terminator ((start.puts (join call.command)).puts (start.puts (join call.command)).echoTerminator)
            obtain ⟨kept, later⟩ := ih (number + 1) (start.ask call.command).shell (same ▸ genuine)
              (genuine_ask io number start call.command genuine before blocked) reached
            refine ⟨kept.trans same, ?_⟩
            have count : commandsSent ((call, false) :: rest) = commandsSent rest + 1 := by simp [commandsSent]
            rwa [count, ← Nat.add_assoc, Nat.add_right_comm]

theorem genuine_honest_iff (terminator : Terminator) (io : Stream) (history : List (Call × Bool)) (sh : Shell)
    (genuine : Genuine terminator io) (reached : (new terminator io).session history = some sh) (command : List Bytes) :
    Honest io (commandsSent history) sh command ↔ ¬ (Lost sh ∧ sh.status = some 0) := by
  rw [honest_iff, and_iff_left]
  rintro ⟨skipped, line, rest, next, zero, strayed⟩
  obtain ⟨same, place⟩ := session_aligned io history 0 (new terminator io) sh genuine (.inl ⟨[], rfl, rfl⟩) reached
  have aligned := place.resolve_right (next_kept sh skipped line rest next)
  rw [Nat.zero_add] at aligned
  obtain ⟨s, carried⟩ := genuine_next io _ sh (same ▸ genuine) aligned skipped line rest next
  have value : s = 0 := by simpa using (exit_status_some sh.terminator line s carried).2.symm.trans zero
  exact strayed ⟨value ▸ carried, aligned⟩

end Shell

end Pwrake
