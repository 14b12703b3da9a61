import Pwrake.ShellFraming

set_option autoImplicit false

namespace Pwrake

namespace PwrakeFileUtils

open Shell

-- The overridden ` on a thread with this connection. What the command prints is
-- the answer on the connection's pipe, and what Kernel.backquote returns.
def backquote (connection : Option Shell) (e : Exchange) : Reply Bytes × Option Shell :=
  match connection with
  | some conn => match (conn.answered (e.answer conn.terminator)).backquote e.command false with
      | (res, conn) => (res, some conn)
  | none => (.returns e.output, none)

theorem chomp_no_newline (body : Bytes) (inside : LF ∉ body) : LF ∉ chomp (body ++ [LF]) := by
  have front : (body ++ [LF]).dropLast = body := List.dropLast_concat
  rw [chomp, if_pos (by simp), front]
  split
  · exact fun member => inside (List.dropLast_subset body member)
  · exact inside

-- The reader chomps every line and adds nothing back between them.
theorem chomped_no_newline (text : Bytes) (whole : WholeLines text) :
    LF ∉ ((Lines.lines LF text).map chomp).flatten := by
  induction text using Lines.text_induction LF with
  | empty => simp [Lines.lines]
  | unfinished text content unmarked =>
      rcases whole with vacant | ends
      · exact absurd vacant content
      · exact absurd (List.mem_of_getLast? ends) unmarked
  | line body tail inside ih =>
      rw [Lines.lines_marked LF body tail inside, List.map_cons, List.flatten_cons, List.mem_append, not_or]
      have wholeTail : WholeLines tail := (Lines.ended_marked LF body tail).mp (whole.resolve_left (by simp))
      exact ⟨chomp_no_newline body inside, ih wholeTail⟩

theorem connection_reply (conn : Shell) (e : Exchange) (idle : conn.io.bytes = [])
    (ordinary : Ordinary conn.terminator e.output) (whole : WholeLines e.output) :
    (backquote (some conn) e).1 = .returns ((Lines.lines LF e.output).map chomp).flatten := by
  have framed := (framed_of_whole conn e idle ordinary whole).1
  rw [backquote, framed.backquote]

theorem reply_differs (conn : Shell) (e : Exchange) (idle : conn.io.bytes = [])
    (ordinary : Ordinary conn.terminator e.output) (whole : WholeLines e.output) (printed : e.output ≠ []) :
    (backquote (some conn) e).1 ≠ (backquote none e).1 := by
  rw [connection_reply conn e idle ordinary whole]
  intro same
  have text : ((Lines.lines LF e.output).map chomp).flatten = e.output := by simpa [backquote] using same
  have ends : e.output.getLast? = some LF := whole.resolve_left printed
  apply chomped_no_newline e.output whole
  rw [text]
  exact List.mem_of_getLast? ends

theorem backquote_agrees_iff (conn : Shell) (e : Exchange) (idle : conn.io.bytes = [])
    (ordinary : Ordinary conn.terminator e.output) (whole : WholeLines e.output) :
    (backquote (some conn) e).1 = (backquote none e).1 ↔ e.output = [] := by
  constructor
  · intro same
    by_contra printed
    exact reply_differs conn e idle ordinary whole printed same
  · intro silent
    rw [connection_reply conn e idle ordinary whole, silent]
    simp [backquote, silent, Lines.lines]

theorem listing_agrees_iff :
    ((backquote (some (Shell.new sampleTerminator ⟨[], false⟩)) ⟨[ascii "ls"], ascii "x\n\n", 0⟩).1 =
        (backquote none ⟨[ascii "ls"], ascii "x\n\n", 0⟩).1 ↔ ascii "x\n\n" = []) ∧
      (backquote (some (Shell.new sampleTerminator ⟨[], false⟩)) ⟨[ascii "true"], [], 0⟩).1 =
        (backquote none ⟨[ascii "true"], [], 0⟩).1 := by
  constructor
  · have ordinary : ∀ line ∈ Lines.lines LF (ascii "x\n\n"), ¬ sampleTerminator.bytes <+: line := by decide
    exact backquote_agrees_iff (Shell.new sampleTerminator ⟨[], false⟩) ⟨[ascii "ls"], ascii "x\n\n", 0⟩ rfl ordinary
      (.inr (by decide))
  · have ordinary : ∀ line ∈ Lines.lines LF [], ¬ sampleTerminator.bytes <+: line := by simp [Lines.lines]
    exact (backquote_agrees_iff (Shell.new sampleTerminator ⟨[], false⟩) ⟨[ascii "true"], [], 0⟩ rfl ordinary (.inl rfl)).mpr
      rfl

theorem newlines_lost :
    ¬ ∀ (conn : Shell) (e : Exchange), conn.io.bytes = [] → Ordinary conn.terminator e.output → WholeLines e.output →
      (backquote (some conn) e).1 = (backquote none e).1 := by
  intro agree
  let conn := Shell.new sampleTerminator ⟨[], false⟩
  let echo : Exchange := ⟨[ascii "echo", ascii "x"], ascii "x\n", 0⟩
  have ordinary : Ordinary conn.terminator echo.output := by
    show ∀ line ∈ Lines.lines LF (ascii "x\n"), ¬ sampleTerminator.bytes <+: line
    decide
  have whole : WholeLines echo.output := .inr (by decide)
  exact reply_differs conn echo rfl ordinary whole (by decide) (agree conn echo rfl ordinary whole)

end PwrakeFileUtils

end Pwrake
