import Mathlib.Data.List.Induction
import Mathlib.Data.List.ReduceOption
import Pwrake.Gfwhere

set_option autoImplicit false

namespace Pwrake

namespace GfarmSSH

-- With the command and the blank in front of it, a path of more than 20472
-- characters makes a line of more than 20480.
def Fits (batch : List Text) : Prop :=
  (commandLine batch).length ≤ limit ∨ ∃ path, batch = [path] ∧ 20472 < path.length

theorem single_line_length (path : Text) : (commandLine [path]).length = path.length + 8 := by
  simp [commandLine, command]

theorem single_fits (path : Text) : Fits [path] := by
  by_cases long : 20472 < path.length
  · exact .inr ⟨path, rfl, long⟩
  · refine .inl ?_
    rw [single_line_length, limit]
    omega

-- The loop behind some paths: batches went out and are answered, current is in
-- the buffer.
structure Posed (hosts : Text → List Text) (batches : List (List Text)) (current : List Text) (q : Query) : Prop where
  issued : q.issued = batches.map commandLine
  cmd : q.cmd = commandLine current
  count : q.count = current.length
  sizes : ∀ batch ∈ batches, Fits batch
  size : Fits current
  answers : ∀ path ∈ batches.flatten, (q.result path).getD [] = hosts path
  silent : ∀ path, path ∉ batches.flatten → q.result path = none

theorem posed_start (hosts : Text → List Text) : Posed hosts [] [] .start :=
  ⟨rfl, rfl, rfl, by simp, .inl (by simp [commandLine, command, limit]), by simp, fun _ _ => rfl⟩

theorem posed_sound (hosts : Text → List Text) (batches : List (List Text)) (current : List Text) (q : Query)
    (posed : Posed hosts batches current q) : Sound hosts q.result := by
  intro path
  by_cases asked : path ∈ batches.flatten
  · exact .inr (posed.answers path asked)
  · exact .inl (posed.silent path asked)

section Loop

variable (below backquote : Text → Text) (hosts : Text → List Text) (prints : Prints backquote hosts)

include prints

theorem posed_run (batches : List (List Text)) (current : List Text) (q : Query) (posed : Posed hosts batches current q)
    (named : ∀ path ∈ current, Named path) :
    (q.run backquote).issued = (batches ++ [current]).map commandLine ∧ (∀ batch ∈ batches ++ [current], Fits batch) ∧
      (∀ path ∈ (batches ++ [current]).flatten, ((q.run backquote).result path).getD [] = hosts path) ∧
      ∀ path, path ∉ (batches ++ [current]).flatten → (q.run backquote).result path = none := by
  obtain ⟨inside, outside⟩ := parse_answers backquote hosts prints q current named posed.cmd posed.count
    (posed_sound hosts batches current q posed)
  have split : ∀ path, path ∈ (batches ++ [current]).flatten ↔ path ∈ batches.flatten ∨ path ∈ current := by simp
  refine ⟨by simp [Query.run, posed.issued, posed.cmd], fun batch member => ?_, fun path member => ?_, fun path missing => ?_⟩
  · rcases List.mem_append.mp member with earlier | last
    · exact posed.sizes batch earlier
    · rw [List.mem_singleton.mp last]
      exact posed.size
  · by_cases asked : path ∈ current
    · exact inside path asked
    · have earlier := ((split path).mp member).resolve_right asked
      exact (congrArg (·.getD []) (outside path asked)).trans (posed.answers path earlier)
  · rw [split, not_or] at missing
    exact (outside path missing.2).trans (posed.silent path missing.1)

theorem posed_each (batches : List (List Text)) (current : List Text) (q : Query) (posed : Posed hosts batches current q)
    (named : ∀ path ∈ current, Named path) (a : Text) :
    ∃ batches' current', Posed hosts batches' current' (q.each below backquote (some a)) ∧
      batches'.flatten ++ current' = batches.flatten ++ current ++ [gfPath below a] ∧
      ∀ path ∈ current', path ∈ current ++ [gfPath below a] := by
  by_cases full : q.cmd.length + (gfPath below a).length + 1 > limit
  · obtain ⟨issued, sizes, answers, silent⟩ := posed_run backquote hosts prints batches current q posed named
    have taken : q.each below backquote (some a) =
        Query.append { q.run backquote with cmd := command, count := 0 } (gfPath below a) := by
      rw [Query.each, Query.flush, if_pos full]
    rw [taken]
    refine ⟨batches ++ [current], [gfPath below a], ⟨issued, ?_, rfl, sizes, single_fits _, answers, silent⟩, ?_, ?_⟩
    · simp [Query.append, commandLine]
    · simp
    · simp
  · have longer : commandLine (current ++ [gfPath below a]) = commandLine current ++ [' '] ++ gfPath below a := by
      simp [commandLine]
    have taken : q.each below backquote (some a) = q.append (gfPath below a) := by
      rw [Query.each, Query.flush, if_neg full]
    have fits : (commandLine (current ++ [gfPath below a])).length ≤ limit := by
      rw [longer, ← posed.cmd]
      simp only [List.length_append, List.length_singleton]
      omega
    rw [taken]
    refine ⟨batches, current ++ [gfPath below a],
      ⟨posed.issued, ?_, ?_, posed.sizes, .inl fits, posed.answers, posed.silent⟩, ?_, fun _ member => member⟩
    · rw [longer, ← posed.cmd]
      rfl
    · simp [Query.append, posed.count]
    · simp

theorem posed_loop (list : List (Option Text)) (named : ∀ a, some a ∈ list → Named (gfPath below a))
    (batches : List (List Text)) (current : List Text) (q : Query) (posed : Posed hosts batches current q)
    (pending : ∀ path ∈ current, Named path) :
    ∃ batches' current', Posed hosts batches' current' (list.foldl (Query.each below backquote) q) ∧
      batches'.flatten ++ current' = batches.flatten ++ current ++ list.reduceOption.map (gfPath below) ∧
      ∀ path ∈ current', Named path := by
  induction list generalizing batches current q with
  | nil => exact ⟨batches, current, posed, by simp, pending⟩
  | cons entry list ih =>
      have later : ∀ a, some a ∈ list → Named (gfPath below a) := fun a member => named a (List.mem_cons_of_mem entry member)
      cases entry with
      | none => exact ih later batches current q posed pending
      | some a =>
          obtain ⟨batches', current', next, order, fresh⟩ :=
            posed_each below backquote hosts prints batches current q posed pending a
          have pending' : ∀ path ∈ current', Named path := by
            intro path member
            rcases List.mem_append.mp (fresh path member) with earlier | last
            · exact pending path earlier
            · rw [List.mem_singleton.mp last]
              exact named a List.mem_cons_self
          obtain ⟨batches'', current'', final, total, rest⟩ := ih later batches' current' _ next pending'
          exact ⟨batches'', current'', final, by rw [total, order]; simp, rest⟩

end Loop

-- The command lines are cut from the list, in order, and the result reads as
-- the host list of every file whatever the cut.
structure Transparent (below : Text → Text) (hosts : Text → List Text) (list : List (Option Text)) (q : Query) : Prop where
  batches : ∃ batches : List (List Text), q.issued = batches.map commandLine ∧
    batches.flatten = list.reduceOption.map (gfPath below) ∧ ∀ batch ∈ batches, Fits batch
  located : ∀ a, some a ∈ list → (q.result (gfPath below a)).getD [] = hosts (gfPath below a)

theorem query_transparent (below backquote : Text → Text) (hosts : Text → List Text) (prints : Prints backquote hosts)
    (list : List (Option Text)) (named : ∀ a, some a ∈ list → Named (gfPath below a)) :
    Transparent below hosts list (query below backquote list) := by
  obtain ⟨batches, current, posed, order, pending⟩ :=
    posed_loop below backquote hosts prints list named [] [] .start (posed_start hosts) (by simp)
  rw [List.flatten_nil, List.append_nil, List.nil_append] at order
  have listed : ∀ a, some a ∈ list → gfPath below a ∈ list.reduceOption.map (gfPath below) := by
    intro a member
    exact List.mem_map_of_mem (List.reduceOption_mem_iff.mpr member)
  by_cases more : 0 < current.length
  · have asked : query below backquote list = (list.foldl (Query.each below backquote) .start).run backquote := by
      rw [query, Query.last, if_pos (by rw [posed.count]; exact more)]
    obtain ⟨issued, sizes, answers, -⟩ := posed_run backquote hosts prints batches current _ posed pending
    have total : (batches ++ [current]).flatten = list.reduceOption.map (gfPath below) := by simpa using order
    rw [asked]
    exact ⟨⟨batches ++ [current], issued, total, sizes⟩, fun a member => answers _ (by rw [total]; exact listed a member)⟩
  · have nothing : current = [] := by simpa using more
    have asked : query below backquote list = list.foldl (Query.each below backquote) .start := by
      rw [query, Query.last, if_neg (by rw [posed.count]; exact more)]
    have total : batches.flatten = list.reduceOption.map (gfPath below) := by simpa [nothing] using order
    rw [asked]
    exact ⟨⟨batches, posed.issued, total, posed.sizes⟩,
      fun a member => posed.answers _ (by rw [total]; exact listed a member)⟩

end GfarmSSH

namespace GfarmAffinityScheduler

open GfarmSSH

variable {Task : Type*} [DecidableEq Task]

theorem relocate_other (table : FileTasks Task) (below : Text → Text) (result : Text → Option (List Text))
    (stored : Task → Option (List Text)) (t other : Task) (apart : other ≠ t) :
    relocate table below result stored t other = stored other := by
  cases named : prereqName table t with
  | none => simp only [relocate, named]
  | some name => simp only [relocate, named, Function.update_of_ne apart]

theorem relocate_named (table : FileTasks Task) (below : Text → Text) (result : Text → Option (List Text))
    (stored : Task → Option (List Text)) (t : Task) (name : Text) (file : prereqName table t = some name) :
    relocate table below result stored t t = result (gfPath below name) := by
  simp [relocate, file]

theorem relocated (table : FileTasks Task) (below : Text → Text) (result : Text → Option (List Text)) (tasks : List Task)
    (stored : Task → Option (List Text)) (t : Task) (name : Text) (member : t ∈ tasks)
    (file : prereqName table t = some name) :
    tasks.foldl (relocate table below result) stored t = result (gfPath below name) := by
  induction tasks using List.reverseRecOn with
  | nil => cases member
  | append_singleton tasks last ih =>
      rw [List.foldl_append]
      by_cases same : t = last
      · subst same
        exact relocate_named table below result _ t name file
      · have earlier : t ∈ tasks := (List.mem_append.mp member).resolve_right (fun one => same (List.mem_singleton.mp one))
        exact (relocate_other table below result _ last t same).trans (ih earlier)

theorem gfwhere_transparent (table : FileTasks Task) (below backquote : Text → Text) (hosts : Text → List Text)
    (prints : Prints backquote hosts) :
    (∀ list : List (Option Text), (∀ a, some a ∈ list → Plain (gfPath below a)) →
      Transparent below hosts list (query below backquote list)) ∧
    ∀ (tasks : List Task) (stored : Task → Option (List Text)),
      (∀ t ∈ tasks, ∀ name, prereqName table t = some name → Plain (gfPath below name)) →
      ∀ t ∈ tasks, ∀ name, prereqName table t = some name →
        locality (onTrace table below backquote true true tasks stored).2 t = hosts (gfPath below name) := by
  have transparent : ∀ list : List (Option Text), (∀ a, some a ∈ list → Plain (gfPath below a)) →
      Transparent below hosts list (query below backquote list) := by
    intro list plain
    exact query_transparent below backquote hosts prints list fun a member => ⟨List.cons_ne_nil _ _, plain a member⟩
  refine ⟨transparent, fun tasks stored plain t member name file => ?_⟩
  have asked : ∀ a, some a ∈ (tasks.filterMap (prereqName table)).map some → Plain (gfPath below a) := by
    intro a listed
    obtain ⟨t, inside, found⟩ : ∃ t ∈ tasks, prereqName table t = some a := by simpa using listed
    exact plain t inside a found
  have listed : some name ∈ (tasks.filterMap (prereqName table)).map some :=
    List.mem_map_of_mem (List.mem_filterMap.mpr ⟨t, member, file⟩)
  have set : (onTrace table below backquote true true tasks stored).2 t = gfwhere below backquote _ (gfPath below name) :=
    relocated table below _ tasks stored t name member file
  rw [locality, set]
  exact (transparent _ asked).located name listed

-- A gfwhere that knows /a on m and n and /b on n.
def sampleHosts (path : Text) : List Text :=
  if path = ['/', 'a'] then [['m'], ['n']] else if path = ['/', 'b'] then [['n']] else []

def sampleLine (path : Text) : Text := [' '].intercalate (sampleHosts path)

def sampleAnswer (cmd : Text) : Text :=
  match split (cmd.drop 7) with
  | [] => []
  | [path] => sampleLine path ++ ['\n']
  | paths => paths.flatMap fun path => path ++ [':', '\n'] ++ sampleLine path ++ ['\n'] ++ ['\n']

theorem sample_line_spread (path tail : Text) (blanks : ∀ c ∈ tail, isSpace c = true)
    (apart : ∀ c, tail.head? = some c → isSpace c = true) :
    Words.Spread isSpace (sampleHosts path) (sampleLine path ++ tail) := by
  have onlyN : Words.Spread isSpace [['n']] ([] ++ ['n'] ++ tail) :=
    .word [] ['n'] tail [] (by simp) ⟨by simp, by simp [isSpace]⟩ apart (.blanks tail blanks)
  have alsoN : Words.Spread isSpace [['n']] ([' '] ++ ['n'] ++ tail) :=
    .word [' '] ['n'] tail [] (by simp [isSpace]) ⟨by simp, by simp [isSpace]⟩ apart (.blanks tail blanks)
  by_cases a : path = ['/', 'a']
  · rw [sampleLine, sampleHosts, if_pos a]
    exact .word [] ['m'] _ [['n']] (by simp) ⟨by simp, by simp [isSpace]⟩ (by simp [isSpace]) alsoN
  · by_cases b : path = ['/', 'b']
    · rw [sampleLine, sampleHosts, if_neg a, if_pos b]
      exact onlyN
    · rw [sampleLine, sampleHosts, if_neg a, if_neg b]
      exact .blanks tail blanks

theorem sample_line_newline (path : Text) : '\n' ∉ sampleLine path := by
  unfold sampleLine sampleHosts
  split
  · decide
  · split <;> decide

theorem sample_prints : Prints sampleAnswer sampleHosts := by
  have arguments : ∀ paths : List Text, (∀ path ∈ paths, path ≠ [] ∧ Plain path) →
    split ((commandLine paths).drop 7) = paths := by
    intro paths named
    have solid : ∀ path ∈ paths, Words.Word isSpace path :=
      fun path member => ⟨(named path member).1, fun c inside => ((named path member).2 c inside).1⟩
    have spread := Words.spread_joined isSpace ' ' (by decide) paths solid
    simpa [commandLine, command, split] using Words.words_spread isSpace paths _ spread
  constructor
  · rfl
  · intro path content plain
    have answer : sampleAnswer (commandLine [path]) = sampleLine path ++ ['\n'] := by
      rw [sampleAnswer, arguments [path] (by simpa using ⟨content, plain⟩)]
    rw [answer]
    exact sample_line_spread path ['\n'] (by simp [isSpace]) (by simp [isSpace])
  · intro paths more named
    refine ⟨paths.map fun path => path ++ [':', '\n'] ++ sampleLine path ++ ['\n'] ++ ['\n'], ?_, ?_⟩
    · rw [List.forall₂_map_right_iff, List.forall₂_same]
      intro path _
      refine ⟨sampleLine path, ['\n'], ?_, sample_line_newline path, .inr rfl, rfl⟩
      simpa using sample_line_spread path [] (by simp) (by simp)
    · rw [sampleAnswer, arguments paths named]
      cases paths with
      | nil => simp at more
      | cons first others =>
          cases others with
          | nil => simp at more
          | cons next rest => simp [List.flatMap_def]

-- One path that does not fit beside the command. The empty command goes out
-- first.
theorem single_path_issued (below backquote : Text → Text) (a : Text) (long : 20472 < (gfPath below a).length) :
    (query below backquote [some a]).issued = [command, commandLine [gfPath below a]] := by
  have full : Query.start.cmd.length + (gfPath below a).length + 1 > limit := by
    change 7 + (gfPath below a).length + 1 > 20480
    omega
  have flushed : Query.each below backquote .start (some a) =
      Query.append { Query.run backquote .start with cmd := command, count := 0 } (gfPath below a) := by
    rw [Query.each, Query.flush, if_pos full]
  have last : (Query.append { Query.run backquote .start with cmd := command, count := 0 } (gfPath below a)).count > 0 :=
    Nat.one_pos
  rw [query, List.foldl_cons, List.foldl_nil, flushed, Query.last, if_pos last]
  simp [Query.run, Query.append, Query.start, commandLine]

-- A path of 20475 characters is shorter than the limit, and its line is not.
theorem short_path_long_line :
    ¬ ∀ (below backquote : Text → Text) (hosts : Text → List Text), Prints backquote hosts →
      ∀ list : List (Option Text), (∀ a, some a ∈ list → Plain (gfPath below a)) →
        ∀ line ∈ (query below backquote list).issued,
          line.length ≤ limit ∨ ∃ path, line = commandLine [path] ∧ limit < path.length := by
  intro claimed
  obtain ⟨a, size, plain⟩ : ∃ a : Text, (gfPath id a).length = 20475 ∧ Plain (gfPath id a) := by
    refine ⟨List.replicate 20474 'a', by rw [gfPath, List.length_cons, id, List.length_replicate], fun c member => ?_⟩
    rcases List.mem_cons.mp member with rfl | inside
    · decide
    · rw [List.eq_of_mem_replicate inside]
      decide
  have issued := single_path_issued id sampleAnswer a (by omega)
  rcases claimed id sampleAnswer sampleHosts sample_prints [some a] (by simpa using plain) (commandLine [gfPath id a])
    (by simp [issued]) with short | ⟨path, same, long⟩
  · rw [single_line_length, size, limit] at short
    omega
  · have lengths := congrArg List.length same
    rw [single_line_length, single_line_length, size] at lengths
    rw [limit] at long
    omega

def sampleTable : FileTasks Bool := ⟨fun _ => true, fun t => if t then [['a']] else [['b']]⟩

theorem gfwhere_transparent_sample :
    Transparent id sampleHosts [some ['a'], none, some ['b'], some ['a']]
        (query id sampleAnswer [some ['a'], none, some ['b'], some ['a']]) ∧
      locality (onTrace sampleTable id sampleAnswer true true [true, false] fun _ => none).2 true = sampleHosts ['/', 'a'] := by
  have result := gfwhere_transparent sampleTable id sampleAnswer sampleHosts sample_prints
  have plainA : Plain (gfPath id ['a']) := by simp [Plain, gfPath, isSpace]
  have plainB : Plain (gfPath id ['b']) := by simp [Plain, gfPath, isSpace]
  constructor
  · apply result.1
    intro a listed
    have either : a = ['a'] ∨ a = ['b'] := by simpa [or_comm, or_assoc] using listed
    cases either with
    | inl isA => exact isA ▸ plainA
    | inr isB => exact isB ▸ plainB
  · refine result.2 [true, false] (fun _ => none) (fun t _ name file => ?_) true (by simp) ['a'] rfl
    cases t with
    | true => cases file; exact plainA
    | false => cases file; exact plainB

end GfarmAffinityScheduler

end Pwrake
