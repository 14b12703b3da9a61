import Pwrake.Shell

set_option autoImplicit false

namespace Pwrake

theorem terminator_clean (term : Terminator) : ∀ b ∈ term.bytes, b ≠ LF ∧ b ≠ CR ∧ b ≠ 58 := by
  have chars : ∀ b ∈ CHARS, b ≠ LF ∧ b ≠ CR ∧ b ≠ 58 := by decide +kernel
  exact fun b member => chars b (term.drawn b member)

theorem chomp_dropped (x : Bytes) : ∃ dropped, x = chomp x ++ dropped ∧ ∀ b ∈ dropped, b = LF ∨ b = CR := by
  have last : ∀ (y : Bytes) (b : UInt8), y.getLast? = some b → y = y.dropLast ++ [b] := by
    intro y b tail
    exact (List.dropLast_append_getLast? b tail).symm
  unfold chomp
  by_cases lf : x.getLast? = some LF
  · rw [if_pos lf]
    by_cases cr : x.dropLast.getLast? = some CR
    · refine ⟨[CR, LF], ?_, by simp⟩
      rw [if_pos cr]
      conv_lhs => rw [last x LF lf, last x.dropLast CR cr]
      simp
    · exact ⟨[LF], by rw [if_neg cr]; exact last x LF lf, by simp⟩
  · rw [if_neg lf]
    by_cases cr : x.getLast? = some CR
    · exact ⟨[CR], by rw [if_pos cr]; exact last x CR cr, by simp⟩
    · exact ⟨[], by simp [cr], by simp⟩

-- Removing the end of line never hides or completes a terminator.
theorem starts_chomp (term : Terminator) (x : Bytes) :
    (chomp x).take TLEN = term.bytes ↔ term.bytes <+: x := by
  rw [← term.size, eq_comm, ← List.prefix_iff_eq_take]
  obtain ⟨dropped, whole, ends⟩ := chomp_dropped x
  constructor
  · intro starts
    rw [whole]
    exact starts.trans (List.prefix_append _ _)
  · intro starts
    rw [whole] at starts
    rcases List.prefix_or_prefix_of_prefix starts (List.prefix_append (chomp x) dropped) with inside | ⟨extra, longer⟩
    · exact inside
    · have rest : extra <+: dropped := by
        rw [← longer] at starts
        exact (List.prefix_append_right_inj _).mp starts
      have none : extra = [] := by
        rw [List.eq_nil_iff_forall_not_mem]
        intro b member
        have clean := terminator_clean term b (by rw [← longer]; exact List.mem_append_right _ member)
        rcases ends b (rest.subset member) with lf | cr
        · exact clean.1 lf
        · exact clean.2.1 cr
      have whole : term.bytes = chomp x := by rw [← longer, none, List.append_nil]
      exact whole ▸ List.prefix_rfl

-- What one gets takes off the stream, seen as the list of its lines.
theorem gets_line (io rest : Stream) (x : Bytes) (read : io.gets = .line x rest) :
    io.bytes = x ++ rest.bytes ∧ rest.closed = io.closed ∧
      Lines.lines LF io.bytes = x :: Lines.lines LF rest.bytes := by
  unfold Stream.gets at read
  split at read
  · rename_i line tail split
    cases read
    obtain ⟨body, -, -, whole⟩ := Lines.split_line_some LF io.bytes _ _ split
    exact ⟨whole, rfl, Lines.lines_split LF io.bytes _ _ split⟩
  · rename_i split
    split at read
    · split at read
      · cases read
      · rename_i content
        cases read
        exact ⟨(List.append_nil _).symm, rfl,
          Lines.lines_unmarked LF io.bytes ((Lines.split_line_none LF io.bytes).mp split) content⟩
    · cases read

theorem gets_nothing (io : Stream) (read : io.gets = .nothing) : io.closed = true ∧ io.bytes = [] := by
  unfold Stream.gets at read
  split at read
  · cases read
  · split at read
    · rename_i closed
      split at read
      · rename_i vacant
        exact ⟨closed, vacant⟩
      · cases read
    · cases read

theorem gets_blocked (io : Stream) (read : io.gets = .blocked) : io.closed = false := by
  unfold Stream.gets at read
  split at read
  · cases read
  · split at read
    · split at read <;> cases read
    · rename_i opened
      simpa using opened

-- A line that gets returns is complete, or what is left in a closed stream.
theorem gets_cases (io rest : Stream) (x : Bytes) (read : io.gets = .line x rest) :
    (∃ body, LF ∉ body ∧ x = body ++ [LF] ∧ io.bytes = x ++ rest.bytes ∧ rest.closed = io.closed) ∨
      (io.closed = true ∧ rest.closed = true ∧ x ≠ [] ∧ LF ∉ x ∧ io.bytes = x ∧ rest.bytes = []) := by
  unfold Stream.gets at read
  split at read
  · rename_i line tail split
    cases read
    obtain ⟨body, inside, same, whole⟩ := Lines.split_line_some LF io.bytes _ _ split
    exact .inl ⟨body, inside, same, whole, rfl⟩
  · rename_i split
    split at read
    · rename_i closed
      split at read
      · cases read
      · rename_i content
        cases read
        exact .inr ⟨closed, closed, content, (Lines.split_line_none LF io.bytes).mp split, rfl, rfl⟩
    · cases read

theorem gets_blocked_unmarked (io : Stream) (read : io.gets = .blocked) : LF ∉ io.bytes := by
  unfold Stream.gets at read
  split at read
  · cases read
  · rename_i split
    exact (Lines.split_line_none LF io.bytes).mp split

namespace Shell

-- What echo '<terminator>':$? prints for the exit status s.
def terminatorLine (term : Terminator) (s : Nat) : Bytes := term.bytes ++ 58 :: KernelInteger.decimal s ++ [LF]

theorem decimal_bytes (s : Nat) : ∀ b ∈ KernelInteger.decimal s, b ≠ LF ∧ b ≠ CR := by
  intro b member
  obtain ⟨d, bound, rfl⟩ := KernelInteger.decimal_visible s b member
  interval_cases d <;> decide

theorem chomp_line (x : Bytes) (b : UInt8) (ordinary : b ≠ CR) : chomp (x ++ [b] ++ [LF]) = x ++ [b] := by
  simp [chomp, ordinary]

theorem decimal_snoc (s : Nat) : ∃ front last, KernelInteger.decimal s = front ++ [last] ∧ last ≠ CR := by
  obtain ⟨d, rest, -, shape, -⟩ := KernelInteger.decimal_head s
  have content : KernelInteger.decimal s ≠ [] := by simp [shape]
  exact ⟨_, _, (List.dropLast_append_getLast content).symm, (decimal_bytes s _ (List.getLast_mem content)).2⟩

theorem chomp_terminator_line (term : Terminator) (u : Bytes) (s : Nat) :
    chomp (u ++ terminatorLine term s) = u ++ (term.bytes ++ 58 :: KernelInteger.decimal s) := by
  obtain ⟨front, last, shape, ordinary⟩ := decimal_snoc s
  have assoc : u ++ terminatorLine term s = (u ++ (term.bytes ++ 58 :: front)) ++ [last] ++ [LF] := by
    simp [terminatorLine, shape]
  rw [assoc, chomp_line _ last ordinary, shape]
  simp

theorem terminator_line_status (term : Terminator) (s : Nat) :
    terminatorStatus (chomp (terminatorLine term s)) = .ok (Int.ofNat s) := by
  have size := term.size
  have digits : (term.bytes ++ 58 :: KernelInteger.decimal s).drop (TLEN + 1) = KernelInteger.decimal s := by
    rw [← size, List.drop_append]
    simp
  have long : ¬ (term.bytes ++ 58 :: KernelInteger.decimal s).length < TLEN + 1 := by
    simp [size]
  have chomped := chomp_terminator_line term [] s
  rw [List.nil_append, List.nil_append] at chomped
  rw [chomped, terminatorStatus, if_neg long, digits, KernelInteger.integer_decimal]

theorem gets_marked (io : Stream) (body tail : Bytes) (inside : LF ∉ body) (shape : io.bytes = body ++ LF :: tail) :
    io.gets = .line (body ++ [LF]) { io with bytes := tail } := by
  simp [Stream.gets, shape, Lines.split_line_append LF body tail inside]

theorem terminator_line_body (term : Terminator) (s : Nat) : LF ∉ term.bytes ++ 58 :: KernelInteger.decimal s := by
  intro member
  rcases List.mem_append.mp member with inTerm | later
  · exact (terminator_clean term LF inTerm).1 rfl
  · rcases List.mem_cons.mp later with colon | digits
    · exact absurd colon (by decide)
    · exact (decimal_bytes s LF digits).1 rfl

theorem read_eof (sh : Shell) (read : sh.io.gets = .nothing) : sh.readAnswer = ⟨.eof, sh, []⟩ := by
  rw [readAnswer]
  split
  · rfl
  · rename_i other
    cases read.symm.trans other
  · rename_i other
    cases read.symm.trans other

theorem read_blocked (sh : Shell) (read : sh.io.gets = .blocked) : sh.readAnswer = ⟨.blocked, sh, []⟩ := by
  rw [readAnswer]
  split
  · rename_i other
    cases read.symm.trans other
  · rfl
  · rename_i other
    cases read.symm.trans other

-- All that the loop does with a line.
theorem read_cases (sh : Shell) (x : Bytes) (rest : Stream) (read : sh.io.gets = .line x rest) :
    (¬ sh.terminator.bytes <+: x ∧ sh.readAnswer = (readAnswer { sh with io := rest }).skip (chomp x)) ∨
      (sh.terminator.bytes <+: x ∧
        ((∃ n, terminatorStatus (chomp x) = .ok n ∧ sh.readAnswer = ⟨.terminated, { sh with io := rest, status := some n }, []⟩) ∨
          ∃ error, terminatorStatus (chomp x) = .error error ∧ sh.readAnswer = ⟨.raised error, { sh with io := rest }, []⟩)) := by
  rw [readAnswer]
  split
  · rename_i other
    cases read.symm.trans other
  · rename_i other
    cases read.symm.trans other
  · rename_i other
    cases read.symm.trans other
    by_cases starts : sh.terminator.bytes <+: x
    · rw [if_pos ((starts_chomp sh.terminator x).mpr starts)]
      cases terminatorStatus (chomp x) with
      | ok n => exact .inr ⟨starts, .inl ⟨n, rfl, rfl⟩⟩
      | error error => exact .inr ⟨starts, .inr ⟨error, rfl, rfl⟩⟩
    · rw [if_neg (fun same => starts ((starts_chomp sh.terminator x).mp same))]
      exact .inl ⟨starts, rfl⟩

theorem read_ordinary (sh : Shell) (body tail : Bytes) (inside : LF ∉ body) (shape : sh.io.bytes = body ++ LF :: tail)
    (ordinary : ¬ sh.terminator.bytes <+: body ++ [LF]) :
    sh.readAnswer = (readAnswer { sh with io := { sh.io with bytes := tail } }).skip (chomp (body ++ [LF])) := by
  rcases read_cases sh _ _ (gets_marked sh.io body tail inside shape) with ⟨-, skipped⟩ | ⟨starts, -⟩
  · exact skipped
  · exact absurd starts ordinary

theorem read_terminator (sh : Shell) (s : Nat) (rest : Bytes) (shape : sh.io.bytes = terminatorLine sh.terminator s ++ rest) :
    sh.readAnswer = ⟨.terminated, { sh with io := { sh.io with bytes := rest }, status := some (Int.ofNat s) }, []⟩ := by
  have inside := terminator_line_body sh.terminator s
  have read := gets_marked sh.io _ rest inside (by rw [shape, terminatorLine]; simp)
  have parsed : terminatorStatus (chomp (sh.terminator.bytes ++ 58 :: KernelInteger.decimal s ++ [LF])) = .ok (Int.ofNat s) :=
    terminator_line_status sh.terminator s
  have starts : sh.terminator.bytes <+: sh.terminator.bytes ++ 58 :: KernelInteger.decimal s ++ [LF] := by
    rw [List.append_assoc]
    exact List.prefix_append _ _
  rcases read_cases sh _ _ read with ⟨ordinary, -⟩ | ⟨-, ⟨n, same, ended⟩ | ⟨error, same, -⟩⟩
  · exact absurd starts ordinary
  · rw [parsed] at same
    cases same
    exact ended
  · cases parsed.symm.trans same

-- An answer whose output is whole lines is read to its own terminator line and
-- not a byte further.
theorem read_answer_framed (sh : Shell) (o : Bytes) (s : Nat) (rest : Bytes)
    (ordinary : ∀ line ∈ Lines.lines LF o, ¬ sh.terminator.bytes <+: line) (whole : o = [] ∨ o.getLast? = some LF)
    (shape : sh.io.bytes = o ++ terminatorLine sh.terminator s ++ rest) :
    sh.readAnswer = ⟨.terminated, { sh with io := { sh.io with bytes := rest }, status := some (Int.ofNat s) },
      (Lines.lines LF o).map chomp⟩ := by
  induction o using Lines.text_induction LF generalizing sh with
  | empty => exact read_terminator sh s rest shape
  | unfinished o content unmarked =>
      rcases whole with vacant | ends
      · exact absurd vacant content
      · exact absurd (List.mem_of_getLast? ends) unmarked
  | line body tail inside ih =>
      rw [Lines.lines_marked LF body tail inside] at ordinary ⊢
      have wholeTail : tail = [] ∨ tail.getLast? = some LF :=
        (Lines.ended_marked LF body tail).mp (whole.resolve_left (by simp))
      rw [read_ordinary sh body (tail ++ terminatorLine sh.terminator s ++ rest) inside (by rw [shape]; simp)
        (ordinary _ List.mem_cons_self)]
      rw [ih { sh with io := { sh.io with bytes := tail ++ terminatorLine sh.terminator s ++ rest } }
        (fun line member => ordinary line (List.mem_cons_of_mem _ member)) wholeTail rfl]
      rfl

theorem ask_framed (sh : Shell) (command : List Bytes) (o : Bytes) (s : Nat) (rest : Bytes)
    (ordinary : ∀ line ∈ Lines.lines LF o, ¬ sh.terminator.bytes <+: line) (whole : o = [] ∨ o.getLast? = some LF)
    (shape : sh.io.bytes = o ++ terminatorLine sh.terminator s ++ rest) :
    (sh.ask command).ending = .terminated ∧ (sh.ask command).shell.status = some (Int.ofNat s) ∧
      (sh.ask command).shell.io = { sh.io with bytes := rest } ∧ (sh.ask command).lines = (Lines.lines LF o).map chomp ∧
      (sh.ask command).shell.terminator = sh.terminator := by
  have framed := read_answer_framed ((sh.puts (join command)).puts (sh.puts (join command)).echoTerminator) o s rest
    ordinary whole shape
  have same : sh.ask command = _ := framed
  rw [same]
  exact ⟨rfl, rfl, rfl, rfl, rfl⟩

-- A terminator that rand could have drawn.
def sampleTerminator : Terminator := ⟨List.replicate TLEN 97, rfl, by decide +kernel⟩

end Shell

end Pwrake
