import Pwrake.Hostfile

set_option autoImplicit false

namespace Pwrake

namespace Manager

-- A comment runs to the end of its line.
def Comment (text : Text) : Prop := text = [] ∨ ∃ more, text = '#' :: more

-- The words of an entry. A number that has its default may be left out at the
-- end, and words after the third are not read.
inductive Spelled : HostEntry → List Text → Prop where
  | host (host : Text) : Spelled ⟨host, 1, 0⟩ [host]
  | ncore (host : Text) (ncore : Int) : Spelled ⟨host, ncore, 0⟩ [host, Numeral.toS ncore]
  | group (host : Text) (ncore group : Int) (more : List Text) :
      Spelled ⟨host, ncore, group⟩ (host :: Numeral.toS ncore :: Numeral.toS group :: more)

-- A line without its end mark.
inductive LineOf : Option HostEntry → Text → Prop where
  | blank (lead comment : Text) (blanks : ∀ c ∈ lead, GfarmSSH.isSpace c = true) (comments : Comment comment) :
      LineOf none (lead ++ comment)
  | entry (entry : HostEntry) (words : List Text) (body comment : Text) (spelled : Spelled entry words)
      (spread : Words.Spread GfarmSSH.isSpace words body) (clean : '#' ∉ body) (comments : Comment comment) :
      LineOf (some entry) (body ++ comment)

-- A host file that says these entries. Only the last line may lack its end
-- mark.
inductive Written : List HostEntry → Text → Prop where
  | nothing : Written [] []
  | last (read : Option HostEntry) (line : Text) (of : LineOf read line) (content : line ≠ []) (single : '\n' ∉ line) :
      Written read.toList line
  | line (read : Option HostEntry) (rest : List HostEntry) (line tail : Text) (of : LineOf read line) (single : '\n' ∉ line)
      (later : Written rest tail) : Written (read.toList ++ rest) (line ++ '\n' :: tail)

theorem fields_of_words (l : Text) (words : List Text) (split : GfarmSSH.split (uncomment l) = words) (entry : HostEntry)
    (spelled : Spelled entry words) : fields l = some entry := by
  have read : ∀ i, Numeral.toI (Numeral.toS i) = i := by
    intro i
    have plain := Numeral.to_i_to_s i [] Numeral.stops_nil
    rwa [List.append_nil] at plain
  unfold fields
  rw [split]
  cases spelled with
  | host host => rfl
  | ncore host ncore => simp [read]
  | group host ncore group more => simp [read]

-- The end mark is a blank.
theorem split_ended (body mark : Text) (marks : mark = [] ∨ mark = ['\n']) : GfarmSSH.split (body ++ mark) = GfarmSSH.split body := by
  rcases marks with rfl | rfl
  · rw [List.append_nil]
  · rw [GfarmSSH.split, Words.words_append_blank _ body [] '\n' (by decide), Words.words_nil, List.append_nil]
    rfl

theorem split_uncomment (body comment mark : Text) (clean : '#' ∉ body) (comments : Comment comment)
    (marks : mark = [] ∨ mark = ['\n']) :
    GfarmSSH.split (uncomment (body ++ comment ++ mark)) = GfarmSSH.split body := by
  have solid : ∀ c ∈ body, (decide (c ≠ '#')) = true := by
    intro c member
    have different : c ≠ '#' := fun same => clean (same ▸ member)
    simpa using different
  rcases comments with rfl | ⟨more, rfl⟩
  · have whole : uncomment (body ++ [] ++ mark) = body ++ mark := by
      rw [List.append_nil, uncomment, List.takeWhile_append_of_pos solid]
      rcases marks with rfl | rfl <;> rfl
    rw [whole, split_ended body mark marks]
  · have cut : uncomment (body ++ '#' :: more ++ mark) = body := by
      rw [List.append_assoc, uncomment, List.takeWhile_append_of_pos solid, List.cons_append,
        List.takeWhile_cons_of_neg (by simp), List.append_nil]
    rw [cut]

theorem fields_of_line (read : Option HostEntry) (line mark : Text) (of : LineOf read line) (marks : mark = [] ∨ mark = ['\n']) :
    fields (line ++ mark) = read := by
  cases of with
  | blank lead comment blanks comments =>
      have clean : '#' ∉ lead := fun member => absurd (blanks '#' member) (by decide)
      have nothing := split_uncomment lead comment mark clean comments marks
      rw [show GfarmSSH.split lead = [] from Words.words_blank _ lead blanks] at nothing
      rw [fields, nothing]
  | entry entry words body comment spelled spread clean comments =>
      have split := split_uncomment body comment mark clean comments marks
      exact fields_of_words _ words (split.trans (Words.words_spread _ words body spread)) entry spelled

theorem entries_written (read : List HostEntry) (text : Text) (written : Written read text) : entries text = read := by
  induction written with
  | nothing => rfl
  | last read line of content single =>
      have plain := fields_of_line read line [] of (.inl rfl)
      rw [List.append_nil] at plain
      rw [entries, Lines.lines_unmarked '\n' line single content]
      cases read with
      | none => rw [List.filterMap_cons_none plain]; rfl
      | some entry => rw [List.filterMap_cons_some plain]; rfl
  | line read rest line tail of single _ ih =>
      have plain := fields_of_line read line ['\n'] of (.inr rfl)
      rw [entries, Lines.lines_marked '\n' line tail single]
      cases read with
      | none => rw [List.filterMap_cons_none plain]; exact ih
      | some entry => rw [List.filterMap_cons_some plain]; exact congrArg (entry :: ·) ih

section Setup

variable (gethostbyname : Text → Option Hostname)

theorem fault_none (entry : HostEntry) (sound : fault gethostbyname entry = none) :
    ∃ host, gethostbyname entry.host = some host ∧ 0 ≤ entry.ncore := by
  unfold fault at sound
  split at sound
  · cases sound
  · rename_i host found
    split at sound
    · cases sound
    · exact ⟨host, found, by omega⟩

theorem host_lines_counted (read : List HostEntry) (counted : ∀ entry ∈ read, 0 ≤ entry.ncore) :
    ∀ line ∈ hostLines gethostbyname read, 0 ≤ line.ncore := by
  intro line member
  obtain ⟨entry, listed, same⟩ := List.mem_filterMap.mp member
  obtain ⟨host, -, rfl⟩ := Option.map_eq_some_iff.mp same
  exact counted entry listed

theorem host_lines_length (read : List HostEntry) (found : ∀ entry ∈ read, (gethostbyname entry.host).isSome) :
    (hostLines gethostbyname read).length = read.length := by
  rw [hostLines, List.length_filterMap_eq_countP, List.countP_eq_length]
  intro entry member
  simpa using found entry member

theorem setup_of_arrays (lines : List HostLine) (counted : ∀ line ∈ lines, 0 ≤ line.ncore) :
    setupHostlist (some lines) = some ⟨alternate (arrays lines) [], (alternate (arrays lines) []).length⟩ := by
  rw [setupHostlist, tmplist_filled lines counted]
  rfl

-- A host file is read as it was meant, in every layout. The first line that
-- cannot be entered decides how it fails.
theorem hostfile_round_trip (read : List HostEntry) (text : Text) (written : Written read text)
    (natural : ∀ entry ∈ read, 0 ≤ entry.group) :
    (∀ error, read.findSome? (fault gethostbyname) = some error → setupHostfile gethostbyname text = .error error) ∧
    (read.findSome? (fault gethostbyname) = none →
      ∃ list hostGroup, setupHostfile gethostbyname text = .ok (list, hostGroup) ∧
        setupHostlist (some (hostLines gethostbyname read)) = some list ∧
        (hostLines gethostbyname read).length = read.length ∧
        ∀ g : Nat, ((hostGroup[g]?).join).getD [] = members (named gethostbyname read) g) := by
  have outcome := read_outcome gethostbyname read natural
  rw [← entries_written read text written, ← read_entries, entries_written read text written] at outcome
  constructor
  · intro error first
    rw [setupHostfile, outcome, first]
    rfl
  · intro sound
    have each : ∀ entry ∈ read, ∃ host, gethostbyname entry.host = some host ∧ 0 ≤ entry.ncore :=
      fun entry member => fault_none gethostbyname entry (List.findSome?_eq_none_iff.mp sound entry member)
    refine ⟨_, groups (named gethostbyname read), ?_, setup_of_arrays _ ?_, ?_, ?_⟩
    · rw [setupHostfile, outcome, sound]
      rfl
    · exact host_lines_counted gethostbyname read fun entry member => (each entry member).choose_spec.2
    · exact host_lines_length gethostbyname read fun entry member => by
        obtain ⟨host, found, -⟩ := each entry member
        simp [found]
    · refine groups_get _ fun pair member => ?_
      obtain ⟨entry, listed, same⟩ := List.mem_filterMap.mp member
      obtain ⟨host, -, rfl⟩ := Option.map_eq_some_iff.mp same
      exact natural entry listed

-- What one line adds to a file that was read without an exception.
structure Entered (lines : List HostLine) (s : Hostfile) : Prop where
  counted : ∀ line ∈ lines, 0 ≤ line.ncore
  tmplist : s.tmplist = arrays lines
  grouped : Grouped (lines.map HostLine.host) s.hostGroup

theorem entered_step (lines : List HostLine) (s next : Hostfile) (entry : HostEntry) (entered : Entered lines s)
    (taken : enter gethostbyname s entry = .ok next) :
    ∃ line, hostLines gethostbyname [entry] = [line] ∧ Entered (lines ++ [line]) next := by
  obtain ⟨host, hostGroup, found, whole, listed, rfl⟩ := enter_some gethostbyname s entry next taken
  refine ⟨⟨host, entry.ncore⟩, by simp [hostLines, found], ?_, ?_, ?_⟩
  · intro line member
    rcases List.mem_append.mp member with earlier | new
    · exact entered.counted line earlier
    · rw [List.mem_singleton.mp new]
      exact whole
  · rw [arrays, List.map_append, entered.tmplist]
    rfl
  · rw [List.map_append]
    exact enlist_grouped _ _ hostGroup entry.group host entered.grouped listed

theorem entered_read (read : List HostEntry) (lines : List HostLine) (s next : Hostfile) (entered : Entered lines s)
    (taken : read.foldlM (enter gethostbyname) s = .ok next) :
    (∀ entry ∈ read, (gethostbyname entry.host).isSome) ∧ Entered (lines ++ hostLines gethostbyname read) next := by
  induction read generalizing lines s with
  | nil =>
      cases taken
      exact ⟨fun _ member => absurd member List.not_mem_nil, by simpa [hostLines] using entered⟩
  | cons entry rest ih =>
      rw [List.foldlM_cons] at taken
      cases first : enter gethostbyname s entry with
      | error error => rw [first] at taken; cases taken
      | ok middle =>
          rw [first] at taken
          obtain ⟨line, single, grown⟩ := entered_step gethostbyname lines s middle entry entered first
          obtain ⟨host, -, found, -⟩ := enter_some gethostbyname s entry middle first
          obtain ⟨others, whole⟩ := ih (lines ++ [line]) middle grown taken
          refine ⟨fun other member => ?_, ?_⟩
          · rcases List.mem_cons.mp member with rfl | later
            · simp [found]
            · exact others other later
          · have split : hostLines gethostbyname (entry :: rest) = [line] ++ hostLines gethostbyname rest := by
              rw [← single, hostLines, hostLines, hostLines, ← List.filterMap_append]
              rfl
            rw [split, ← List.append_assoc]
            exact whole

theorem core_of_line (lines : List HostLine) (h : Hostname) (member : h ∈ alternate (arrays lines) []) :
    h ∈ lines.map HostLine.host := by
  rw [arrays, alternate_rounds, List.mem_flatMap] at member
  obtain ⟨r, -, inside⟩ := member
  obtain ⟨line, listed, rfl⟩ := List.mem_map.mp inside
  exact List.mem_map_of_mem (List.mem_filter.mp listed).1

-- In every file that is accepted, a group below zero included, core_list comes
-- of the lines and the groups divide the hosts among them.
theorem accepted_hostfile_grouped (text : Text) (list : Hostlist) (hostGroup : List (Option (List Hostname)))
    (accepted : setupHostfile gethostbyname text = .ok (list, hostGroup)) :
    (∀ entry ∈ entries text, (gethostbyname entry.host).isSome) ∧
      setupHostlist (some (hostLines gethostbyname (entries text))) = some list ∧
      Grouped ((hostLines gethostbyname (entries text)).map HostLine.host) hostGroup ∧
      ∀ h ∈ list.coreList, h ∈ grouped hostGroup := by
  rw [setupHostfile, read_entries] at accepted
  cases outcome : (entries text).foldlM (enter gethostbyname) ⟨[], []⟩ with
  | error error => rw [outcome] at accepted; cases accepted
  | ok s =>
      rw [outcome] at accepted
      cases accepted
      have blank : Entered [] ⟨[], []⟩ :=
        ⟨fun _ member => absurd member List.not_mem_nil, rfl, List.Perm.refl _, fun _ member => absurd member List.not_mem_nil⟩
      obtain ⟨found, entered⟩ := entered_read gethostbyname (entries text) [] ⟨[], []⟩ s blank outcome
      rw [List.nil_append] at entered
      refine ⟨found, ?_, entered.grouped, fun h core => ?_⟩
      · rw [setup_of_arrays _ entered.counted, entered.tmplist]
      · rw [entered.tmplist] at core
        exact entered.grouped.whole.mem_iff.mpr (core_of_line _ h core)

end Setup

-- Two lines for one group, a comment and a blank line between, and no end mark
-- at the end.
theorem hostfile_round_trip_two :
    ∃ list hostGroup, setupHostfile some "n1 2 # fast\n\t# none\n n2 1 0 x".toList = .ok (list, hostGroup) ∧
      list.coreList = ["n1".toList, "n2".toList, "n1".toList] ∧ ((hostGroup[0]?).join).getD [] = ["n1".toList, "n2".toList] := by
  have first : LineOf (some ⟨"n1".toList, 2, 0⟩) "n1 2 # fast".toList :=
    .entry _ _ "n1 2 ".toList "# fast".toList (.ncore "n1".toList 2)
      (Words.spread_checked _ [] "n1".toList " 2 ".toList _ (by decide) (by decide) (by decide)
        (Words.spread_checked _ [' '] "2".toList " ".toList _ (by decide) (by decide) (by decide) (.blanks _ (List.all_eq_true.mp rfl))))
      (by decide) (.inr ⟨_, rfl⟩)
  have between : LineOf none "\t# none".toList := .blank "\t".toList "# none".toList (List.all_eq_true.mp rfl) (.inr ⟨_, rfl⟩)
  have last : LineOf (some ⟨"n2".toList, 1, 0⟩) " n2 1 0 x".toList :=
    .entry _ _ " n2 1 0 x".toList [] (.group "n2".toList 1 0 ["x".toList])
      (Words.spread_checked _ [' '] "n2".toList " 1 0 x".toList _ (by decide) (by decide) (by decide)
        (Words.spread_checked _ [' '] "1".toList " 0 x".toList _ (by decide) (by decide) (by decide)
          (Words.spread_checked _ [' '] "0".toList " x".toList _ (by decide) (by decide) (by decide)
            (Words.spread_checked _ [' '] "x".toList [] _ (by decide) (by decide) (by decide) (.blanks _ (List.all_eq_true.mp rfl))))))
      (by decide) (.inl rfl)
  have written : Written [⟨"n1".toList, 2, 0⟩, ⟨"n2".toList, 1, 0⟩] "n1 2 # fast\n\t# none\n n2 1 0 x".toList :=
    .line _ _ _ _ first (by decide) (.line _ _ _ _ between (by decide) (.last _ _ last (by decide) (by decide)))
  obtain ⟨list, hostGroup, read, lines, -, group⟩ :=
    (hostfile_round_trip some _ _ written (by decide)).2 (by decide)
  refine ⟨list, hostGroup, read, ?_, group 0⟩
  have core := alternate_rounds [⟨"n1".toList, 2⟩, ⟨"n2".toList, 1⟩]
  rw [setup_of_arrays _ (by decide)] at lines
  cases lines
  exact core

-- A group below zero joins the last group there is.
theorem accepted_hostfile_grouped_negative :
    ∃ list hostGroup, setupHostfile some "n1 1 1\nn2 1 -1\n".toList = .ok (list, hostGroup) ∧
      Grouped ["n1".toList, "n2".toList] hostGroup ∧ hostGroup = [none, some ["n1".toList, "n2".toList]] := by
  have accepted : ∃ list, setupHostfile some "n1 1 1\nn2 1 -1\n".toList = .ok (list, [none, some ["n1".toList, "n2".toList]]) := by
    exact ⟨⟨alternate [["n1".toList], ["n2".toList]] [], (alternate [["n1".toList], ["n2".toList]] []).length⟩, rfl⟩
  obtain ⟨list, read⟩ := accepted
  exact ⟨list, _, read, (accepted_hostfile_grouped some _ list _ read).2.2.1, rfl⟩

end Manager

end Pwrake
