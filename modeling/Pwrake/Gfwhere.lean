import Mathlib.Data.List.Forall2
import Pwrake.Lib.Lines
import Pwrake.Lib.Words

set_option autoImplicit false

namespace Pwrake

abbrev Text := List Char

namespace GfarmSSH

def isSpace (c : Char) : Bool := c == ' ' || (9 ≤ c.toNat && c.toNat ≤ 13)

-- String#split without an argument.
def split (x : Text) : List Text := Words.words isSpace x

def command : Text := ['g', 'f', 'w', 'h', 'e', 'r', 'e']

def limit : Nat := 20480

-- gf_path: below is the Pathname part of it, the path under the mount point.
def gfPath (below : Text → Text) (path : Text) : Text := '/' :: below path

-- One line that ^([^\n]+):\n matches, with its end mark, gives $1.
def fileLine (line : Text) : Option Text :=
  if line.getLast? = some '\n' ∧ line.dropLast.getLast? = some ':' ∧ line.dropLast.dropLast ≠ [] then
    some line.dropLast.dropLast
  else none

def hostLine (line : Text) : Text := if line.getLast? = some '\n' then line.dropLast else line

-- x.scan(/^([^\n]+):\n([^\n]*)$/m), line by line: a match begins at the start of
-- a line and takes the line after it, which is empty when the text ends there.
def scanLines : List Text → List (Text × Text)
  | [] => []
  | [line] =>
      match fileLine line with
      | some file => [(file, [])]
      | none => []
  | line :: hosts :: rest =>
      match fileLine line with
      | some file => (file, hostLine hosts) :: scanLines rest
      | none => scanLines (hosts :: rest)

def scan (x : Text) : List (Text × Text) := scanLines (Lines.lines '\n' x)

-- result[file] = h if !h.empty?
def store (result : Text → Option (List Text)) (file : Text) (h : List Text) : Text → Option (List Text) :=
  if h = [] then result else Function.update result file (some h)

-- The local variables of gfwhere. issued is history: the command lines handed
-- to Kernel.backquote.
structure Query where
  result : Text → Option (List Text)
  count : Nat
  cmd : Text
  issued : List Text

namespace Query

def start : Query := ⟨fun _ => none, 0, command, []⟩

-- parse_proc: count and cmd are the closure's, as they stand when it is called.
def parse (q : Query) (x : Text) : Text → Option (List Text) :=
  if q.count = 1 then Function.update q.result (q.cmd.drop 8) (some (split x))
  else (scan x).foldl (fun result row => store result row.1 (split row.2)) q.result

variable (below : Text → Text) (backquote : Text → Text)

def run (q : Query) : Query :=
  { q with result := q.parse (backquote q.cmd), issued := q.issued ++ [q.cmd] }

def flush (q : Query) (path : Text) : Query :=
  if q.cmd.length + path.length + 1 > limit then { q.run backquote with cmd := command, count := 0 } else q

def append (q : Query) (path : Text) : Query :=
  { q with cmd := q.cmd ++ [' '] ++ path, count := q.count + 1 }

def each (q : Query) : Option Text → Query
  | none => q
  | some a => (q.flush backquote (gfPath below a)).append (gfPath below a)

def last (q : Query) : Query := if q.count > 0 then q.run backquote else q

end Query

def query (below backquote : Text → Text) (list : List (Option Text)) : Query :=
  (list.foldl (Query.each below backquote) .start).last backquote

def gfwhere (below backquote : Text → Text) (list : List (Option Text)) : Text → Option (List Text) :=
  (query below backquote list).result

end GfarmSSH

-- What on_trace reads of a task.
structure FileTasks (Task : Type*) where
  isFileTask : Task → Bool
  prerequisites : Task → List Text

namespace GfarmAffinityScheduler

open GfarmSSH

variable {Task : Type*} [DecidableEq Task]

def prereqName (table : FileTasks Task) (t : Task) : Option Text :=
  if table.isFileTask t then (table.prerequisites t).head? else none

def relocate (table : FileTasks Task) (below : Text → Text) (result : Text → Option (List Text))
    (stored : Task → Option (List Text)) (t : Task) : Task → Option (List Text) :=
  match prereqName table t with
  | some name => Function.update stored t (result (gfPath below name))
  | none => stored

-- stored is @locality of every task.
def onTrace (table : FileTasks Task) (below backquote : Text → Text) (gfarm affinity : Bool) (tasks : List Task)
    (stored : Task → Option (List Text)) : List Task × (Task → Option (List Text)) :=
  if gfarm && affinity then
    let result := gfwhere below backquote ((tasks.filterMap (prereqName table)).map some)
    (tasks, tasks.foldl (relocate table below result) stored)
  else (tasks, stored)

-- Task#locality: @locality ||= []
def locality (stored : Task → Option (List Text)) (t : Task) : List Text := (stored t).getD []

end GfarmAffinityScheduler

namespace GfarmSSH

def commandLine (paths : List Text) : Text := command ++ paths.flatMap fun path => ' ' :: path

def Plain (path : Text) : Prop := ∀ c ∈ path, isSpace c = false ∧ c ≠ ':'

-- What gfwhere prints for one of several paths.
def Entry (hosts : Text → List Text) (path chunk : Text) : Prop :=
  ∃ line trailer, Words.Spread isSpace (hosts path) line ∧ '\n' ∉ line ∧ (trailer = [] ∨ trailer = ['\n']) ∧
    chunk = path ++ [':', '\n'] ++ line ++ ['\n'] ++ trailer

-- What is known of the external gfwhere command.
structure Prints (backquote : Text → Text) (hosts : Text → List Text) : Prop where
  nothing : backquote (commandLine []) = []
  one : ∀ path, path ≠ [] → Plain path → Words.Spread isSpace (hosts path) (backquote (commandLine [path]))
  several : ∀ paths, 2 ≤ paths.length → (∀ path ∈ paths, path ≠ [] ∧ Plain path) →
    ∃ chunks, List.Forall₂ (Entry hosts) paths chunks ∧ backquote (commandLine paths) = chunks.flatten

theorem file_line_path (path : Text) (content : path ≠ []) : fileLine (path ++ [':'] ++ ['\n']) = some path := by
  have front : (path ++ [':'] ++ ['\n']).dropLast = path ++ [':'] := List.dropLast_concat
  rw [fileLine, front, List.dropLast_concat, if_pos ⟨by simp, by simp, content⟩]

theorem host_line_body (line : Text) : hostLine (line ++ ['\n']) = line := by
  rw [hostLine, if_pos (by simp), List.dropLast_concat]

theorem scan_lines_skip (line : Text) (rest : List Text) (other : fileLine line = none) :
    scanLines (line :: rest) = scanLines rest := by
  cases rest with
  | nil => simp [scanLines, other]
  | cons next rest => simp [scanLines, other]

theorem plain_no_newline (path : Text) (plain : Plain path) : '\n' ∉ path ++ [':'] := by
  intro member
  rcases List.mem_append.mp member with inside | colon
  · exact absurd (plain '\n' inside).1 (by decide)
  · exact absurd colon (by decide)

theorem scan_entry (hosts : Text → List Text) (path chunk rest : Text) (content : path ≠ []) (plain : Plain path)
    (entry : Entry hosts path chunk) :
    ∃ line, split line = hosts path ∧ scan (chunk ++ rest) = (path, line) :: scan rest := by
  obtain ⟨line, trailer, spread, inside, blank, rfl⟩ := entry
  refine ⟨line, Words.words_spread isSpace _ line spread, ?_⟩
  have shape : path ++ [':', '\n'] ++ line ++ ['\n'] ++ trailer ++ rest =
      (path ++ [':']) ++ '\n' :: (line ++ '\n' :: (trailer ++ rest)) := by simp
  rw [scan, shape, Lines.lines_marked '\n' _ _ (plain_no_newline path plain), Lines.lines_marked '\n' _ _ inside]
  have row : scanLines ((path ++ [':'] ++ ['\n']) :: (line ++ ['\n']) :: Lines.lines '\n' (trailer ++ rest)) =
      (path, line) :: scanLines (Lines.lines '\n' (trailer ++ rest)) := by
    simp only [scanLines, file_line_path path content, host_line_body]
  rw [row]
  rcases blank with rfl | rfl
  · rfl
  · rw [List.singleton_append, Lines.lines, if_pos rfl, scan_lines_skip _ _ (by decide)]
    rfl

theorem scan_entries (hosts : Text → List Text) (paths chunks : List Text) (named : ∀ path ∈ paths, path ≠ [] ∧ Plain path)
    (entries : List.Forall₂ (Entry hosts) paths chunks) :
    (scan chunks.flatten).map (fun row => (row.1, split row.2)) = paths.map fun path => (path, hosts path) := by
  induction entries with
  | nil => rfl
  | @cons path chunk paths chunks entry _ ih =>
      obtain ⟨content, plain⟩ := named path List.mem_cons_self
      obtain ⟨line, found, scanned⟩ := scan_entry hosts path chunk chunks.flatten content plain entry
      rw [List.flatten_cons, scanned, List.map_cons, List.map_cons, found,
        ih fun other member => named other (List.mem_cons_of_mem path member)]

def Sound (hosts : Text → List Text) (result : Text → Option (List Text)) : Prop :=
  ∀ path, result path = none ∨ (result path).getD [] = hosts path

theorem store_sound (hosts : Text → List Text) (result : Text → Option (List Text)) (path : Text) (sound : Sound hosts result) :
    Sound hosts (store result path (hosts path)) ∧ (store result path (hosts path) path).getD [] = hosts path ∧
      ∀ other, other ≠ path → store result path (hosts path) other = result other := by
  by_cases vacant : hosts path = []
  · have same : store result path (hosts path) = result := by rw [store, if_pos vacant]
    rw [same]
    refine ⟨sound, ?_, fun other _ => rfl⟩
    rcases sound path with absent | found
    · rw [absent, vacant]
      rfl
    · exact found
  · have same : store result path (hosts path) = Function.update result path (some (hosts path)) := by rw [store, if_neg vacant]
    rw [same]
    refine ⟨fun other => ?_, by simp, fun other apart => Function.update_of_ne apart _ _⟩
    by_cases here : other = path
    · subst here
      exact .inr (by simp)
    · rw [Function.update_of_ne here]
      exact sound other

theorem store_all (hosts : Text → List Text) (paths : List Text) (result : Text → Option (List Text)) (sound : Sound hosts result) :
    let stored := (paths.map fun path => (path, hosts path)).foldl (fun result row => store result row.1 row.2) result
    (∀ path ∈ paths, (stored path).getD [] = hosts path) ∧ ∀ path, path ∉ paths → stored path = result path := by
  induction paths generalizing result with
  | nil => exact ⟨fun path member => absurd member List.not_mem_nil, fun path _ => rfl⟩
  | cons path paths ih =>
      obtain ⟨later, here, others⟩ := store_sound hosts result path sound
      obtain ⟨inside, outside⟩ := ih (store result path (hosts path)) later
      refine ⟨fun other member => ?_, fun other missing => ?_⟩
      · by_cases again : other ∈ paths
        · exact inside other again
        · have same : other = path := (List.mem_cons.mp member).resolve_right again
          subst same
          exact (congrArg (·.getD []) (outside other again)).trans here
      · obtain ⟨apart, absent⟩ := not_or.mp (fun either => missing (List.mem_cons.mpr either))
        exact (outside other absent).trans (others other apart)

def Named (path : Text) : Prop := path ≠ [] ∧ Plain path

-- The two parsers agree: whatever the number of paths, the answer gives each of
-- them its hosts and changes nothing else.
theorem parse_answers (backquote : Text → Text) (hosts : Text → List Text) (prints : Prints backquote hosts) (q : Query)
    (paths : List Text) (named : ∀ path ∈ paths, Named path) (cmd : q.cmd = commandLine paths) (count : q.count = paths.length)
    (sound : Sound hosts q.result) :
    (∀ path ∈ paths, (q.parse (backquote q.cmd) path).getD [] = hosts path) ∧
      ∀ path, path ∉ paths → q.parse (backquote q.cmd) path = q.result path := by
  have several : ∀ chunks, List.Forall₂ (Entry hosts) paths chunks → backquote q.cmd = chunks.flatten → paths.length ≠ 1 →
      q.parse (backquote q.cmd) =
        (paths.map fun path => (path, hosts path)).foldl (fun result row => store result row.1 row.2) q.result := by
    intro chunks entries printed more
    rw [Query.parse, if_neg (by rw [count]; exact more), printed, ← scan_entries hosts paths chunks named entries,
      List.foldl_map]
  cases paths with
  | nil =>
      rw [several [] .nil (by rw [cmd, prints.nothing]; rfl) (by simp)]
      exact store_all hosts [] q.result sound
  | cons path rest =>
      cases rest with
      | nil =>
          obtain ⟨content, plain⟩ := named path List.mem_cons_self
          have key : q.cmd.drop 8 = path := by rw [cmd]; simp [commandLine, command]
          have found : split (backquote q.cmd) = hosts path := by
            rw [cmd]
            exact Words.words_spread isSpace _ _ (prints.one path content plain)
          rw [Query.parse, if_pos (by rw [count]; rfl), key, found]
          refine ⟨fun other member => ?_, fun other missing => ?_⟩
          · rw [List.mem_singleton.mp member, Function.update_self, Option.getD_some]
          · exact Function.update_of_ne (fun same => missing (List.mem_singleton.mpr same)) _ _
      | cons next rest =>
          obtain ⟨chunks, entries, printed⟩ := prints.several (path :: next :: rest) (by simp) named
          rw [several chunks entries (by rw [cmd, printed]) (by simp)]
          exact store_all hosts (path :: next :: rest) q.result sound

end GfarmSSH

end Pwrake
