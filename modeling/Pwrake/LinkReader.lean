import Mathlib.Data.List.Infix
import Pwrake.ShellLink

set_option autoImplicit false

namespace Pwrake

open Shell

theorem whole_cases (out : Bytes) (whole : WholeLines out) :
    out = [] ∨ ∃ body tail, LF ∉ body ∧ out = body ++ LF :: tail ∧ WholeLines tail := by
  rcases Lines.text_cases LF out with vacant | ⟨content, unmarked⟩ | ⟨body, tail, inside, rfl⟩
  · exact .inl vacant
  · exact absurd (List.mem_of_getLast? (whole.resolve_left content)) unmarked
  · exact .inr ⟨body, tail, inside, rfl, (Lines.ended_marked LF body tail).mp (whole.resolve_left (by simp))⟩

-- A terminator line that was cut off still tells success from failure, if it
-- tells anything.
theorem truncated_status (term : Terminator) (s : Nat) (x : Bytes) (k : Int) (start : x <+: terminatorLine term s)
    (unmarked : LF ∉ x) (parsed : terminatorStatus (chomp x) = .ok k) : k = 0 ↔ s = 0 := by
  have body : x <+: term.bytes ++ 58 :: KernelInteger.decimal s := by
    rcases List.prefix_concat_iff.mp start with same | shorter
    · exact absurd (same ▸ List.mem_append_right _ (List.mem_singleton_self LF)) unmarked
    · exact shorter
  have clean : chomp x = x := by
    have ordinary : x.getLast? ≠ some CR := by
      intro last
      rcases List.mem_append.mp (body.subset (List.mem_of_getLast? last)) with inTerm | later
      · exact (terminator_clean term CR inTerm).2.1 rfl
      · rcases List.mem_cons.mp later with colon | digits
        · exact absurd colon (by decide)
        · exact (decimal_bytes s CR digits).2 rfl
    rw [chomp, if_neg fun last => unmarked (List.mem_of_getLast? last), if_neg ordinary]
  rw [clean, terminatorStatus] at parsed
  split at parsed
  · cases parsed
  · have digits : x.drop (TLEN + 1) <+: KernelInteger.decimal s := by
      have shorter := List.IsPrefix.drop body (TLEN + 1)
      rwa [← term.size, List.drop_append, List.drop_of_length_le (Nat.le_succ _), List.nil_append,
        Nat.add_sub_cancel_left, term.size] at shorter
    rcases KernelInteger.decimal_prefix s _ digits with vacant | ⟨m, same, zero⟩
    · simp [vacant, KernelInteger.integer, KernelInteger.signed, KernelInteger.magnitude, KernelInteger.parseDigits] at parsed
    · rw [same, KernelInteger.integer_decimal] at parsed
      cases parsed
      exact ⟨fun none => zero.mp (by simpa using none), fun none => by simpa using zero.mpr none⟩

namespace Shell

theorem look_skip (sh after : Shell) (x : Bytes) (read : sh.look = .skip x after) :
    after.io.closed = sh.io.closed ∧ after.io.bytes.length < sh.io.bytes.length := by
  unfold Shell.look at read
  split at read
  · cases read
  · cases read
  · rename_i line rest got
    split at read
    · split at read <;> cases read
    · cases read
      exact ⟨(gets_line _ _ _ got).2.1, gets_shorter _ _ _ got⟩

theorem look_ended (sh after : Shell) (ending : Ending) (read : sh.look = .ended ending after) :
    after.io.closed = sh.io.closed ∧ ending ≠ .blocked ∧ (ending = .terminated → ∃ k, after.status = some k) := by
  unfold Shell.look at read
  split at read
  · cases read
    exact ⟨rfl, Ending.noConfusion, fun same => by cases same⟩
  · cases read
  · rename_i line rest got
    split at read
    · split at read
      · rename_i n _
        cases read
        exact ⟨(gets_line _ _ _ got).2.1, Ending.noConfusion, fun _ => ⟨n, rfl⟩⟩
      · cases read
        exact ⟨(gets_line _ _ _ got).2.1, Ending.noConfusion, fun same => by cases same⟩
    · cases read

-- What one turn of the loop finds while the answer to a command is on its way.
-- out is what is left of the command's output, lost what has not reached the
-- pipe; of a stream that has ended the rest may never come.
inductive Found (sh : Shell) (out : Bytes) (status : Nat) (lost : Bytes) : Look → Prop where
  | blocked (there : sh.io.closed = false) (unmarked : LF ∉ sh.io.bytes) : Found sh out status lost .blocked
  | eof (gone : sh.io.closed = true) : Found sh out status lost (.ended .eof sh)
  | terminated (after : Shell) (k : Int) (reported : after.status = some k) (success : k = 0 ↔ status = 0) (all : out = [])
      (same : after.terminator = sh.terminator) (closed : after.io.closed = sh.io.closed)
      (exact : sh.io.closed = false → k = status ∧ after.io.bytes = [] ∧ lost = []) :
      Found sh out status lost (.ended .terminated after)
  | raised (error : ShellError) (after : Shell) (gone : after.io.closed = true) (closed : sh.io.closed = true)
      (same : after.terminator = sh.terminator) : Found sh out status lost (.ended (.raised error) after)
  | skip (line tail : Bytes) (after : Shell) (whole : Lines.lines LF out = line :: Lines.lines LF tail) (split : out = line ++ tail)
      (left : WholeLines tail) (shape : after.io.bytes ++ lost = tail ++ terminatorLine sh.terminator status)
      (same : after.terminator = sh.terminator) (closed : after.io.closed = sh.io.closed) :
      Found sh out status lost (.skip (chomp line) after)
  | remnant (x : Bytes) (after : Shell) (gone : after.io = ⟨[], true⟩) (closed : sh.io.closed = true)
      (same : after.terminator = sh.terminator) : Found sh out status lost (.skip x after)

theorem look_found (sh : Shell) (out : Bytes) (status : Nat) (lost : Bytes) (ordinary : Ordinary sh.terminator out)
    (whole : WholeLines out) (shape : sh.io.bytes ++ lost = out ++ terminatorLine sh.terminator status) :
    Found sh out status lost sh.look := by
  have mark : Lines.splitLine LF (terminatorLine sh.terminator status) = some (terminatorLine sh.terminator status, []) :=
    Lines.split_line_append LF _ [] (terminator_line_body sh.terminator status)
  unfold look
  cases read : sh.io.gets with
  | nothing => exact .eof (gets_nothing sh.io read).1
  | blocked => exact .blocked (gets_blocked sh.io read) (gets_blocked_unmarked sh.io read)
  | line x rest =>
      dsimp only
      rcases gets_cases sh.io rest x read with ⟨body, inside, line, bytes, closed⟩ | ⟨gone, still, content, unmarked, bytes, nothing⟩
      · -- a complete line, which is the first of what is left
        have first : Lines.splitLine LF (sh.io.bytes ++ lost) = some (x, rest.bytes ++ lost) := by
          rw [bytes, line, List.append_assoc, List.append_assoc]
          exact Lines.split_line_append LF body _ inside
        rw [shape] at first
        rcases whole_cases out whole with rfl | ⟨other, tail, clean, rfl, left⟩
        · rw [List.nil_append, mark, Option.some.injEq, Prod.mk.injEq] at first
          obtain ⟨rfl, ended⟩ := first
          obtain ⟨drained, arrived⟩ := List.append_eq_nil_iff.mp ended.symm
          have starts : (chomp (terminatorLine sh.terminator status)).take TLEN = sh.terminator.bytes :=
            (starts_chomp sh.terminator _).mpr ⟨58 :: KernelInteger.decimal status ++ [LF], by simp [terminatorLine]⟩
          rw [if_pos starts, terminator_line_status]
          exact .terminated _ status rfl (by simp) rfl rfl closed fun _ => ⟨rfl, drained, arrived⟩
        · have begin : Lines.splitLine LF (other ++ LF :: tail ++ terminatorLine sh.terminator status) =
              some (other ++ [LF], tail ++ terminatorLine sh.terminator status) := by
            rw [List.append_assoc]
            exact Lines.split_line_append LF other _ clean
          rw [begin, Option.some.injEq, Prod.mk.injEq] at first
          obtain ⟨rfl, later⟩ := first
          have marked := Lines.lines_marked LF other tail clean
          have unlike : ¬ (chomp (other ++ [LF])).take TLEN = sh.terminator.bytes := fun starts =>
            ordinary (other ++ [LF]) (by rw [marked]; exact List.mem_cons_self) ((starts_chomp sh.terminator _).mp starts)
          rw [if_neg unlike]
          exact .skip (other ++ [LF]) tail _ marked (by simp) left later.symm rfl closed
      · by_cases starts : (chomp x).take TLEN = sh.terminator.bytes
        · rw [if_pos starts]
          cases parsed : terminatorStatus (chomp x) with
          | error error => exact .raised error _ still gone rfl
          | ok k =>
              have begin : x <+: out ++ terminatorLine sh.terminator status := ⟨lost, by rw [← shape, bytes]⟩
              rcases whole_cases out whole with rfl | ⟨other, tail, clean, rfl, left⟩
              · have success := truncated_status sh.terminator status x k begin unmarked parsed
                exact .terminated _ k rfl success rfl rfl (still.trans gone.symm) fun there => by simp [gone] at there
              · -- what is left of a line of the output does not look like the terminator
                have inner : x <+: other ++ [LF] := by
                  have longer : other ++ [LF] <+: other ++ LF :: tail ++ terminatorLine sh.terminator status :=
                    ⟨tail ++ terminatorLine sh.terminator status, by simp⟩
                  rcases List.prefix_or_prefix_of_prefix begin longer with shorter | covers
                  · exact shorter
                  · exact absurd (covers.subset (List.mem_append_right _ (List.mem_singleton_self LF))) unmarked
                have marked := Lines.lines_marked LF other tail clean
                exact absurd (((starts_chomp sh.terminator x).mp starts).trans inner)
                  (ordinary (other ++ [LF]) (by rw [marked]; exact List.mem_cons_self))
        · rw [if_neg starts]
          exact .remnant (chomp x) _ (by cases rest; simp_all) gone rfl

end Shell

end Pwrake
