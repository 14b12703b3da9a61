import Pwrake.Gfwhere
import Pwrake.Lib.Pathname

set_option autoImplicit false

namespace Pwrake

namespace GfarmSSH

open Pathname

def isSlash (c : Char) : Bool := c == '/'

def segment (name : Text) : Segment Text :=
  if name = ['.'] then .here else if name = ['.', '.'] then .up else .name name

def spell : Segment Text → Text
  | .here => ['.']
  | .up => ['.', '.']
  | .name n => n

-- Pathname.new and Pathname#to_s.
def pathname (path : Text) : Pathname Text := ⟨path.head? = some '/', (Words.words isSlash path).map segment⟩

def toS (p : Pathname Text) : Text := (if p.absolute then ['/'] else []) ++ List.intercalate ['/'] (p.names.map spell)

-- The pn of gf_path and of local_to_gfarm_path. pwd is the place of the working
-- directory.
def below (mountpath : Pathname Text) (pwd : List Text) (path : Text) : Except PathError (Pathname Text) :=
  let pn := pathname path
  if pn.absolute then pn.relativePathFrom mountpath
  else ((ofPlace pwd).relativePathFrom mountpath).map fun dir => dir.plus pn

def gfPathFrom (mountpath : Pathname Text) (pwd : List Text) (path : Text) : Except PathError Text :=
  (below mountpath pwd path).map fun pn => gfPath (fun _ => toS pn) path

def gfPwd (mountpath : Pathname Text) (pwd : List Text) : Except PathError Text :=
  ((ofPlace pwd).relativePathFrom mountpath).map fun dir => '/' :: toS dir

-- The directories to which cd_cwd and cd send the shell of a connection.
def cdCwd (remoteMp mountpath : Pathname Text) (pwd : List Text) : Except PathError (Pathname Text) :=
  ((ofPlace pwd).relativePathFrom mountpath).map fun dir => remoteMp.plus dir

def cd (remoteMp : Pathname Text) (dir : Text) : Except PathError (Pathname Text) :=
  let path := pathname dir
  if path.absolute then (path.relativePathFrom ⟨true, []⟩).map fun path => remoteMp.plus path else .ok path

-- The line "cd #{dir}", which goes to the shell without quotes.
def cdText (dir : Pathname Text) : Text := 'c' :: 'd' :: ' ' :: toS dir

def cdCwdLine (remoteMp mountpath : Pathname Text) (pwd : List Text) : Except PathError Text :=
  (cdCwd remoteMp mountpath pwd).map cdText

def cdLine (remoteMp : Pathname Text) (dir : Text) : Except PathError Text := (cd remoteMp dir).map cdText

def isBlank (c : Char) : Bool := c == ' ' || c == '\t' || c == '\n'

-- Characters that a shell neither splits at nor expands.
def plain (c : Char) : Bool := c.isAlphanum || "/._-+,:@%".toList.contains c

-- Where a shell stands after a line, as far as the line is cd with one plain
-- path from the root. Nothing is said of other lines: a relative path may be an
-- option or a place in CDPATH.
def shellCd (place : List Text) (line : Text) : Option (List Text) :=
  match Words.words isBlank line with
  | [command, dir] =>
      if command = ['c', 'd'] ∧ dir.all plain = true ∧ dir.head? = some '/' then some ((pathname dir).locate place) else none
  | _ => none

-- while ! path.mountpoint?; the root is always one.
def seekMount (mountpoint : List Text → Bool) : Nat → Pathname Text → Pathname Text
  | 0, path => path
  | n + 1, path => if mountpoint (path.locate []) then path else seekMount mountpoint n path.parent

-- given is @@local_mp or else the variable of the environment.
def mountpath (given : Option (Pathname Text)) (mountpoint : List Text → Bool) (pwd : List Text) : Pathname Text :=
  match given with
  | some path => path
  | none => seekMount mountpoint pwd.length (ofPlace pwd)

-- A file name: not empty, without separators, and no dots.
def Proper (n : Text) : Prop := Words.Word isSlash n ∧ n ≠ ['.'] ∧ n ≠ ['.', '.']

def Spellable (names : List (Segment Text)) : Prop := ∀ n, .name n ∈ names → Proper n

theorem segment_spell (s : Segment Text) (spellable : ∀ n, s = .name n → Proper n) : segment (spell s) = s := by
  cases s with
  | here => rfl
  | up => rfl
  | name n =>
      obtain ⟨-, noDot, noDots⟩ := spellable n rfl
      simp [segment, spell, noDot, noDots]

theorem spell_word (s : Segment Text) (spellable : ∀ n, s = .name n → Proper n) : Words.Word isSlash (spell s) := by
  cases s with
  | here => decide
  | up => decide
  | name n => exact (spellable n rfl).1

theorem pathname_spellable (path : Text) : Spellable (pathname path).names := by
  intro n member
  obtain ⟨word, listed, same⟩ := List.mem_map.mp member
  unfold segment at same
  split at same
  · cases same
  · rename_i noDot
    split at same
    · cases same
    · rename_i noDots
      cases same
      exact ⟨Words.words_solid isSlash path _ listed, noDot, noDots⟩

theorem join_rooted (words : List Text) (content : words ≠ []) :
    '/' :: List.intercalate ['/'] words = words.flatMap fun word => '/' :: word := by
  induction words with
  | nil => exact absurd rfl content
  | cons first rest ih =>
      cases rest with
      | nil => simp
      | cons next others =>
          rw [List.intercalate_cons_cons, List.flatMap_cons, ← ih (List.cons_ne_nil next others)]
          simp

-- A path that starts at the root is read back as it was written.
theorem pathname_rooted (p : Pathname Text) (content : p.names ≠ []) (relative : p.absolute = false)
    (spellable : Spellable p.names) :
    pathname ('/' :: toS p) = ⟨true, p.names⟩ := by
  have joined : '/' :: toS p = (p.names.map spell).flatMap fun word => '/' :: word := by
    rw [toS, relative]
    exact join_rooted _ (by simpa using content)
  have split : Words.words isSlash ('/' :: toS p) = p.names.map spell := by
    rw [joined]
    refine Words.words_spread isSlash _ _ (Words.spread_joined isSlash '/' rfl _ fun word member => ?_)
    obtain ⟨s, listed, rfl⟩ := List.mem_map.mp member
    exact spell_word s fun n same => spellable n (same ▸ listed)
  have read : (p.names.map spell).map segment = p.names := by
    rw [List.map_map]
    conv_rhs => rw [← List.map_id p.names]
    exact List.map_congr_left fun s listed => segment_spell s fun n same => spellable n (same ▸ listed)
  rw [pathname, split, read]
  rfl

-- A relative path of these names, written behind the root.
theorem gf_path_read (dir : Pathname Text) (path : Text) (content : dir.names ≠ []) (relative : dir.absolute = false)
    (spellable : Spellable dir.names) : pathname (gfPath (fun _ => toS dir) path) = ⟨true, dir.names⟩ :=
  pathname_rooted dir content relative spellable

theorem build_content (names : List (Segment Text)) : (build false names).names ≠ [] := by
  unfold build
  cases names with
  | nil => exact List.cons_ne_nil _ _
  | cons s rest => exact List.cons_ne_nil _ _

theorem build_names (property : Text → Prop) (names : List (Segment Text)) (all : ∀ n, .name n ∈ names → property n) :
    ∀ n, .name n ∈ (build false names).names → property n := by
  intro n member
  unfold build at member
  split at member
  · exact nomatch List.mem_singleton.mp member
  · exact all n member

theorem place_names (property : Text → Prop) (place : List Text) (all : ∀ n ∈ place, property n) :
    ∀ n, .name n ∈ (place.reverse.map .name : List (Segment Text)) → property n := by
  intro n member
  obtain ⟨_, listed, same⟩ := List.mem_map.mp member
  cases same
  exact all n (List.mem_reverse.mp listed)

theorem cancel_within (rest list : List (Segment Text)) :
    ∀ s ∈ (cancel rest list).1.reverse ++ (cancel rest list).2, s ∈ rest ∨ s ∈ list := by
  have dropped : ∀ (list : List (Segment Text)) (s : Segment Text), s ∈ list.dropWhile isHere → s ∈ list :=
    fun list _ => fun member => (List.dropWhile_sublist isHere).subset member
  induction rest generalizing list with
  | nil => exact fun s member => .inr (dropped list s (by simpa [cancel] using member))
  | cons first rest ih =>
      intro s member
      cases first with
      | here =>
          rcases ih _ s member with front | back
          · exact .inl (List.mem_cons_of_mem _ front)
          · exact .inr (dropped list s back)
      | up =>
          rcases List.mem_append.mp member with front | back
          · exact .inl (List.mem_reverse.mp front)
          · exact .inr (dropped list s back)
      | name n =>
          unfold cancel at member
          split at member
          · rename_i later shape
            rcases ih _ s member with front | back
            · exact .inl (List.mem_cons_of_mem _ front)
            · exact .inr (dropped list s (shape ▸ List.mem_cons_of_mem _ back))
          · rcases List.mem_append.mp member with front | back
            · exact .inl (List.mem_reverse.mp front)
            · exact .inr (dropped list s back)

theorem plus_spellable (p q : Pathname Text) (relative : p.absolute = false) (other : q.absolute = false)
    (left : Spellable p.names) (right : Spellable q.names) :
    (p.plus q).absolute = false ∧ (p.plus q).names ≠ [] ∧ Spellable (p.plus q).names := by
  have shape : p.plus q = build false ((cancel p.names.reverse q.names).1.reverse ++ (cancel p.names.reverse q.names).2) := by
    rw [plus, if_neg (by simp [other]), relative]
    simp
  rw [shape]
  refine ⟨rfl, build_content _, build_names Proper _ fun n member => ?_⟩
  rcases cancel_within _ _ _ member with front | back
  · exact left n (List.mem_reverse.mp front)
  · exact right n back

theorem plus_rooted (p q : Pathname Text) (rooted : p.absolute = true) (relative : q.absolute = false) :
    (p.plus q).absolute = true ∧ ∀ s ∈ (p.plus q).names, s ∈ p.names ∨ s ∈ q.names := by
  rw [plus, if_neg (by simp [relative]), rooted]
  refine ⟨rfl, fun s member => ?_⟩
  have kept : s ∈ (cancel p.names.reverse q.names).1.reverse ++ (cancel p.names.reverse q.names).2 := by
    simp only [build, Bool.not_true, Bool.and_false, Bool.false_eq_true, if_false, Bool.and_true] at member
    rcases List.mem_append.mp member with front | back
    · exact List.mem_append_left _ front
    · refine List.mem_append_right _ ?_
      split at back
      · exact (List.dropWhile_sublist isUp).subset back
      · exact back
  rcases cancel_within _ _ s kept with front | back
  · exact .inl (List.mem_reverse.mp front)
  · exact .inr back

theorem pathname_to_s (p : Pathname Text) (rooted : p.absolute = true) (spellable : Spellable p.names) :
    pathname (toS p) = p := by
  obtain ⟨absolute, names⟩ := p
  obtain rfl : absolute = true := rooted
  by_cases content : names = []
  · subst content
    decide
  · exact pathname_rooted ⟨false, names⟩ content rfl spellable

-- A name that reaches the other side as it is written here.
def Sendable (n : Text) : Prop := Proper n ∧ n.all plain = true

theorem to_s_plain (p : Pathname Text) (rooted : p.absolute = true) (sendable : ∀ n, .name n ∈ p.names → Sendable n) :
    (toS p).all plain = true := by
  rw [List.all_eq_true]
  intro c member
  obtain ⟨absolute, names⟩ := p
  obtain rfl : absolute = true := rooted
  by_cases content : names = []
  · subst content
    obtain rfl : c = '/' := by simpa [toS] using member
    decide
  · have spread : toS ⟨true, names⟩ = (names.map spell).flatMap fun word => '/' :: word := join_rooted _ (by simpa using content)
    rw [spread, List.mem_flatMap] at member
    obtain ⟨word, listed, inside⟩ := member
    obtain ⟨segment, given, rfl⟩ := List.mem_map.mp listed
    rcases List.mem_cons.mp inside with rfl | within
    · decide
    · cases segment with
      | here => exact List.mem_singleton.mp within ▸ (by decide)
      | up =>
          obtain rfl : c = '.' := by simpa [spell] using within
          decide
      | name n => exact List.all_eq_true.mp (sendable n given).2 c within

theorem plain_solid (c : Char) (isPlain : plain c = true) : isBlank c = false := by
  cases blank : isBlank c with
  | false => rfl
  | true =>
      simp only [isBlank, Bool.or_eq_true, beq_iff_eq] at blank
      rcases blank with (rfl | rfl) | rfl <;> exact absurd isPlain (by decide)

-- The shell goes where the path leads.
theorem shell_cd (p : Pathname Text) (rooted : p.absolute = true) (sendable : ∀ n, .name n ∈ p.names → Sendable n)
    (place : List Text) : shellCd place (cdText p) = some (p.locate place) := by
  have plainText := to_s_plain p rooted sendable
  have head : (toS p).head? = some '/' := by rw [toS, if_pos rooted]; rfl
  have solid : Words.Word isBlank (toS p) :=
    ⟨fun vacant => by simp [vacant] at head, fun c member => plain_solid c (List.all_eq_true.mp plainText c member)⟩
  have words : Words.words isBlank (cdText p) = [['c', 'd'], toS p] := by
    have split := Words.words_append_blank isBlank ['c', 'd'] (toS p) ' ' rfl
    rwa [Words.words_word isBlank ['c', 'd'] (by decide), Words.words_word isBlank (toS p) solid] at split
  rw [shellCd, words]
  dsimp only
  rw [if_pos ⟨rfl, plainText, head⟩, pathname_to_s p rooted fun n member => (sendable n member).1]

theorem walk_proper (place : List Text) (names : List (Segment Text)) (proper : ∀ n ∈ place, Proper n)
    (spellable : Spellable names) : ∀ n ∈ walk place names, Proper n := by
  induction names generalizing place with
  | nil => exact proper
  | cons s rest ih =>
      have later : Spellable rest := fun n member => spellable n (List.mem_cons_of_mem s member)
      cases s with
      | here => exact ih place proper later
      | up => exact ih place.tail (fun n member => proper n (List.mem_of_mem_tail member)) later
      | name n =>
          refine ih (n :: place) (fun other member => ?_) later
          rcases List.mem_cons.mp member with rfl | earlier
          · exact spellable other List.mem_cons_self
          · exact proper other earlier

section Mount

variable (mount : Pathname Text) (g : List Text)

-- The path names the file f of the mounted tree, seen from the directory g of
-- it. A relative one does so without leaving the tree on its way.
def NamesFile (mount : Pathname Text) (g : List Text) (path : Text) (f : List Text) : Prop :=
  (pathname path).locate (g ++ mount.locate []) = f ++ mount.locate [] ∧
    ((pathname path).absolute = false → stays g.length (pathname path).names = true)

theorem absolute_locate (p : Pathname Text) (absolute : p.absolute = true) (cwd cwd' : List Text) :
    p.locate cwd = p.locate cwd' := by
  rw [locate, locate, if_pos absolute, if_pos absolute]

theorem relative_pwd (rooted : mount.absolute = true) :
    (ofPlace (g ++ mount.locate [])).relativePathFrom mount = .ok (build false (g.reverse.map .name)) :=
  relative_below _ mount [] g rfl rooted (locate_of_place _ [])

-- gf_path gives the name that the file has in Gfarm, however it was named here.
theorem gf_path_names_file (rooted : mount.absolute = true) (proper : ∀ n ∈ g, Proper n) (path : Text) (f : List Text)
    (names : NamesFile mount g path f) :
    ∃ text, gfPathFrom mount (g ++ mount.locate []) path = .ok text ∧ (pathname text).absolute = true ∧
      (pathname text).locate [] = f := by
  obtain ⟨place, staying⟩ := names
  cases kind : (pathname path).absolute with
  | true =>
      have here := relative_below (pathname path) mount [] f kind rooted (absolute_locate _ kind _ _ ▸ place)
      have listed : ∀ n ∈ f, Proper n := by
        intro n member
        have whole := walk_proper [] (pathname path).names (by simp) (pathname_spellable path) n
        rw [locate, kind, if_pos rfl] at place
        exact whole (place ▸ List.mem_append_left _ member)
      have spellable : Spellable _ := build_names Proper _ (place_names Proper f listed)
      refine ⟨_, by rw [gfPathFrom, below, kind, if_pos rfl, here]; rfl, ?_⟩
      rw [gf_path_read _ path (build_content _) rfl spellable]
      refine ⟨rfl, ?_⟩
      rw [locate, if_pos rfl, walk_build, walk_names, List.append_nil, List.reverse_reverse]
  | false =>
      have spellable : Spellable _ := build_names Proper _ (place_names Proper g proper)
      obtain ⟨relative, content, sound⟩ :=
        plus_spellable (build false (g.reverse.map .name)) (pathname path) rfl kind spellable (pathname_spellable path)
      have moved : walk g (pathname path).names = f := by
        rw [locate, kind, if_neg Bool.false_ne_true, walk_stays g _ _ (staying kind)] at place
        exact List.append_cancel_right place
      refine ⟨_, by rw [gfPathFrom, below, kind, if_neg Bool.false_ne_true, relative_pwd mount g rooted]; rfl, ?_⟩
      rw [gf_path_read _ path content relative sound]
      refine ⟨rfl, ?_⟩
      have walked := locate_plus (build false (g.reverse.map .name)) (pathname path) [] kind
      rw [locate, relative, if_neg Bool.false_ne_true, locate_build] at walked
      rw [locate, if_pos rfl, walked, if_neg Bool.false_ne_true, walk_names, List.append_nil, List.reverse_reverse, moved]

-- The working directory is /mnt/gf/a.
theorem gf_path_names_file_sibling :
    ∃ text, gfPathFrom (pathname "/mnt/gf".toList) ["a".toList, "gf".toList, "mnt".toList] "../b/./c".toList = .ok text ∧
      text = "/b/./c".toList ∧ (pathname text).locate [] = ["c".toList, "b".toList] := by
  have proper : ∀ n ∈ ["a".toList], Proper n := by
    intro n member
    rw [List.mem_singleton.mp member]
    exact ⟨by decide, by decide, by decide⟩
  obtain ⟨text, given, -, place⟩ := gf_path_names_file (pathname "/mnt/gf".toList) ["a".toList] (by decide) proper
    "../b/./c".toList ["c".toList, "b".toList] ⟨by decide, by decide⟩
  have spelled : gfPathFrom (pathname "/mnt/gf".toList) ["a".toList, "gf".toList, "mnt".toList] "../b/./c".toList =
      .ok "/b/./c".toList := by decide
  exact ⟨text, given, Except.ok.inj (given.symm.trans spelled), place⟩

-- The shell of every connection stands in the directory of Gfarm that the main
-- program stands in, so a relative name names the same file on all of them. cd
-- takes the names that gf_path gives.
theorem connections_share_files (rooted : mount.absolute = true) (inside : ∀ n ∈ g, Sendable n) (home : List Text)
    (remoteMp : Pathname Text) (absolute : remoteMp.absolute = true) (sendable : ∀ n, .name n ∈ remoteMp.names → Sendable n) :
    (∃ line, cdCwdLine remoteMp mount (g ++ mount.locate []) = .ok line ∧ shellCd home line = some (g ++ remoteMp.locate home) ∧
      ∀ path f, (pathname path).absolute = false → NamesFile mount g path f →
        (pathname path).locate (g ++ remoteMp.locate home) = f ++ remoteMp.locate home) ∧
    ∀ path f, (∀ n ∈ f, Sendable n) → NamesFile mount g path f →
      ∃ text line, gfPathFrom mount (g ++ mount.locate []) path = .ok text ∧ cdLine remoteMp text = .ok line ∧
        shellCd home line = some (f ++ remoteMp.locate home) := by
  have goes : ∀ place : List Text, (∀ n ∈ place, Sendable n) →
      shellCd home (cdText (remoteMp.plus (build false (place.reverse.map .name)))) = some (place ++ remoteMp.locate home) := by
    intro place names
    obtain ⟨top, within⟩ := plus_rooted remoteMp (build false (place.reverse.map .name)) absolute rfl
    have whole : ∀ n, .name n ∈ (remoteMp.plus (build false (place.reverse.map .name))).names → Sendable n := by
      intro n member
      rcases within _ member with front | back
      · exact sendable n front
      · exact build_names Sendable _ (place_names Sendable place names) n back
    rw [shell_cd _ top whole, locate_plus _ _ home rfl, walk_build, walk_names, List.reverse_reverse]
  constructor
  · refine ⟨_, by rw [cdCwdLine, cdCwd, relative_pwd mount g rooted]; rfl, goes g inside, ?_⟩
    rintro path f relative ⟨place, staying⟩
    rw [locate, relative, if_neg Bool.false_ne_true, walk_stays g _ _ (staying relative)] at place
    rw [locate, relative, if_neg Bool.false_ne_true, walk_stays g _ _ (staying relative), List.append_cancel_right place]
  · intro path f proper names
    obtain ⟨text, given, start, place⟩ := gf_path_names_file mount g rooted (fun n member => (inside n member).1) path f names
    have top : (pathname text).relativePathFrom ⟨true, []⟩ = .ok (build false (f.reverse.map .name)) :=
      relative_below _ ⟨true, []⟩ [] f start rfl (by rw [place]; exact (List.append_nil f).symm)
    exact ⟨text, _, given, by rw [cdLine, cd, start, if_pos rfl, top]; rfl, goes f proper⟩

theorem connections_share_files_sibling :
    ∃ line, cdCwdLine (pathname "/tmp/gf001".toList) (pathname "/mnt/gf".toList)
        ["a".toList, "gf".toList, "mnt".toList] = .ok line ∧
      shellCd [] line = some ["a".toList, "gf001".toList, "tmp".toList] ∧
      (pathname "../b".toList).locate ["a".toList, "gf001".toList, "tmp".toList] =
        ["b".toList, "gf001".toList, "tmp".toList] := by
  have inside : ∀ n ∈ ["a".toList], Sendable n := by
    intro n member
    rw [List.mem_singleton.mp member]
    exact ⟨⟨by decide, by decide, by decide⟩, by decide⟩
  have sendable : ∀ n, .name n ∈ (pathname "/tmp/gf001".toList).names → Sendable n := by
    intro n member
    have names : (pathname "/tmp/gf001".toList).names = [.name "tmp".toList, .name "gf001".toList] := by decide
    rw [names] at member
    have either : n = "tmp".toList ∨ n = "gf001".toList := by simpa using member
    rcases either with rfl | rfl <;> exact ⟨⟨by decide, by decide, by decide⟩, by decide⟩
  obtain ⟨line, given, place, shared⟩ := (connections_share_files (pathname "/mnt/gf".toList) ["a".toList] (by decide) inside []
    (pathname "/tmp/gf001".toList) (by decide) sendable).1
  exact ⟨line, given, place, shared "../b".toList ["b".toList] (by decide) ⟨by decide, by decide⟩⟩

end Mount

-- The search ends at the nearest mount point above the working directory.
theorem seek_mount (mountpoint : List Text → Bool) (place : List Text) :
    ∃ g m, place = g ++ m ∧ seekMount mountpoint place.length (ofPlace place) = ofPlace m ∧ (m = [] ∨ mountpoint m = true) ∧
      ∀ nearer, nearer ≠ [] → nearer <:+ g → mountpoint (nearer ++ m) = false := by
  induction place with
  | nil => exact ⟨[], [], rfl, rfl, .inl rfl, fun nearer content suffix => absurd (List.suffix_nil.mp suffix) content⟩
  | cons n rest ih =>
      by_cases mounted : mountpoint (n :: rest) = true
      · refine ⟨[], n :: rest, rfl, ?_, .inr mounted, fun nearer content suffix => absurd (List.suffix_nil.mp suffix) content⟩
        rw [List.length_cons, seekMount, locate_of_place, if_pos mounted]
      · obtain ⟨g, m, rfl, found, stands, nearest⟩ := ih
        refine ⟨n :: g, m, rfl, ?_, stands, fun nearer content suffix => ?_⟩
        · rw [List.length_cons, seekMount, locate_of_place, if_neg mounted, parent_of_place, found]
        · rcases List.suffix_cons_iff.mp suffix with rfl | later
          · simpa using mounted
          · exact nearest nearer content later

-- Without a given mount point the working directory lies below the one that is
-- found, and gf_pwd is its place there.
theorem gf_pwd_below (mountpoint : List Text → Bool) (pwd : List Text) (proper : ∀ n ∈ pwd, Proper n) :
    ∃ g m text, pwd = g ++ m ∧ mountpath none mountpoint pwd = ofPlace m ∧ (m = [] ∨ mountpoint m = true) ∧
      (∀ nearer, nearer ≠ [] → nearer <:+ g → mountpoint (nearer ++ m) = false) ∧
      gfPwd (mountpath none mountpoint pwd) pwd = .ok text ∧ (pathname text).locate [] = g := by
  obtain ⟨g, m, rfl, found, stands, nearest⟩ := seek_mount mountpoint pwd
  have listed : ∀ n ∈ g, Proper n := fun n member => proper n (List.mem_append_left m member)
  have here := relative_pwd (ofPlace m) g rfl
  rw [locate_of_place] at here
  refine ⟨g, m, _, rfl, found, stands, nearest, by rw [mountpath, found, gfPwd, here]; rfl, ?_⟩
  rw [pathname_rooted _ (build_content _) rfl (build_names Proper _ (place_names Proper g listed)), locate, if_pos rfl, walk_build,
    walk_names, List.append_nil, List.reverse_reverse]

theorem gf_pwd_below_mount :
    ∃ g m text, ["a".toList, "gf".toList, "mnt".toList] = g ++ m ∧
      gfPwd (mountpath none (· = ["gf".toList, "mnt".toList]) ["a".toList, "gf".toList, "mnt".toList])
        ["a".toList, "gf".toList, "mnt".toList] = .ok text ∧ (pathname text).locate [] = g ∧ text = "/a".toList := by
  have proper : ∀ n ∈ ["a".toList, "gf".toList, "mnt".toList], Proper n := by
    intro n member
    simp only [List.mem_cons, List.not_mem_nil, or_false] at member
    rcases member with rfl | rfl | rfl <;> exact ⟨by decide, by decide, by decide⟩
  obtain ⟨g, m, text, split, -, -, -, given, place⟩ := gf_pwd_below (· = ["gf".toList, "mnt".toList]) _ proper
  have spelled : gfPwd (mountpath none (· = ["gf".toList, "mnt".toList]) ["a".toList, "gf".toList, "mnt".toList])
      ["a".toList, "gf".toList, "mnt".toList] = .ok "/a".toList := by decide
  exact ⟨g, m, text, split, given, place, Except.ok.inj (given.symm.trans spelled)⟩

-- "%s%03d" % [GfarmSSH.mountpoint, i]
def number (i : Nat) : Text := List.leftpad 3 '0' (Nat.toDigits 10 i)

def mntDir (mountpoint : Text) (i : Nat) : Text := mountpoint ++ number i

def mntPlace : List Text → Nat → List Text
  | [], i => [number i]
  | n :: rest, i => (n ++ number i) :: rest

theorem number_injective : Function.Injective number := by
  have value : ∀ i, Nat.ofDigitChars 10 (number i) 0 = i := by
    intro i
    rw [number, List.leftpad, Nat.ofDigitChars_append, Nat.ofDigitChars_replicate_zero, Nat.mul_zero,
      Nat.ofDigitChars_ten_toDigits]
  intro i j same
  rw [← value i, same, value j]

theorem number_solid (i : Nat) : 3 ≤ (number i).length ∧ ∀ c ∈ number i, isSlash c = false := by
  constructor
  · rw [number, List.length_leftpad]
    omega
  · intro c member
    rcases List.mem_append.mp member with zero | digit
    · rw [(List.mem_replicate.mp zero).2]
      rfl
    · have isDigit := Nat.isDigit_of_mem_toDigits (by decide) (by decide) digit
      have different : c ≠ '/' := fun same => absurd (same ▸ isDigit) (by decide)
      simpa [isSlash] using different

theorem numbered_proper (n : Text) (i : Nat) (solid : ∀ c ∈ n, isSlash c = false) : Proper (n ++ number i) := by
  obtain ⟨long, digits⟩ := number_solid i
  have size : 3 ≤ (n ++ number i).length := by
    rw [List.length_append]
    omega
  refine ⟨⟨fun same => ?_, fun c member => ?_⟩, fun same => ?_, fun same => ?_⟩
  · rw [same] at size
    cases size
  · rcases List.mem_append.mp member with front | back
    · exact solid c front
    · exact digits c back
  · rw [same] at size
    simp at size
  · rw [same] at size
    simp at size

theorem mnt_place_proper (m : List Text) (proper : ∀ n ∈ m, Proper n) (i : Nat) : ∀ n ∈ mntPlace m i, Proper n := by
  cases m with
  | nil =>
      intro n member
      rw [List.mem_singleton.mp member]
      exact numbered_proper [] i (by simp)
  | cons first rest =>
      intro n member
      rcases List.mem_cons.mp member with rfl | later
      · exact numbered_proper first i (proper first List.mem_cons_self).1.2
      · exact proper n (List.mem_cons_of_mem first later)

theorem intercalate_last (words : List Text) (word tail : Text) :
    List.intercalate ['/'] (words ++ [word]) ++ tail = List.intercalate ['/'] (words ++ [word ++ tail]) := by
  induction words with
  | nil => simp
  | cons first rest ih =>
      have content : ∀ last : Text, rest ++ [last] ≠ [] := fun last => by simp
      rw [List.cons_append, List.cons_append, List.intercalate_cons_of_ne_nil (content _),
        List.intercalate_cons_of_ne_nil (content _), List.append_assoc, List.append_assoc, List.append_assoc, ih]

theorem mnt_dir_place (m : List Text) (i : Nat) : mntDir (toS (ofPlace m)) i = toS (ofPlace (mntPlace m i)) := by
  cases m with
  | nil => simp [mntDir, mntPlace, toS, ofPlace, spell]
  | cons n rest =>
      rw [mntDir, mntPlace, toS, toS, List.append_assoc]
      have joined := intercalate_last (rest.reverse.map fun n => spell (.name n)) (spell (.name n)) (number i)
      simp only [ofPlace, List.reverse_cons, List.map_append, List.map_map, Function.comp_def,
        List.map_cons, List.map_nil, if_pos]
      rw [joined]
      rfl

theorem pathname_of_place (place : List Text) (content : place ≠ []) (proper : ∀ n ∈ place, Proper n) :
    pathname (toS (ofPlace place)) = ofPlace place := by
  have spelled : toS (ofPlace place) = '/' :: toS ⟨false, place.reverse.map .name⟩ := by simp [toS, ofPlace]
  rw [spelled]
  exact pathname_rooted _ (by simpa using content) rfl (place_names Proper place proper)

-- The mount directories of the connections are siblings of the mount point: no
-- file is seen through two of them, and none lies in the mounted tree itself.
theorem mnt_dirs_apart (m : List Text) (proper : ∀ n ∈ m, Proper n) :
    (∀ i, pathname (mntDir (toS (ofPlace m)) i) = ofPlace (mntPlace m i)) ∧
      (∀ i j f f', f ++ mntPlace m i = f' ++ mntPlace m j → i = j ∧ f = f') ∧
      (m ≠ [] → ∀ i, ¬ m <:+ mntPlace m i) := by
  have content : ∀ i, mntPlace m i ≠ [] := fun i => by cases m <;> exact List.cons_ne_nil _ _
  refine ⟨fun i => ?_, fun i j f f' same => ?_, fun some_name i within => ?_⟩
  · rw [mnt_dir_place, pathname_of_place _ (content i) (mnt_place_proper m proper i)]
  · have size : (mntPlace m i).length = (mntPlace m j).length := by cases m <;> rfl
    obtain ⟨rest, mounts⟩ := List.append_inj' same size
    refine ⟨?_, rest⟩
    cases m with
    | nil => exact number_injective (List.cons.inj mounts).1
    | cons n others => exact number_injective (List.append_cancel_left (List.cons.inj mounts).1)
  · obtain ⟨n, rest, rfl⟩ := List.exists_cons_of_ne_nil some_name
    have whole := within.eq_of_length rfl
    have nothing : number i = [] := List.append_right_eq_self.mp (List.cons.inj whole).1.symm
    have long := (number_solid i).1
    rw [nothing] at long
    cases long

theorem mnt_dirs_apart_gfarm :
    pathname (mntDir "/gfarm".toList 7) = ofPlace ["gfarm007".toList] ∧ ¬ ["gfarm".toList] <:+ mntPlace ["gfarm".toList] 7 := by
  have proper : ∀ n ∈ ["gfarm".toList], Proper n := by
    intro n member
    rw [List.mem_singleton.mp member]
    exact ⟨by decide, by decide, by decide⟩
  obtain ⟨placed, -, outside⟩ := mnt_dirs_apart ["gfarm".toList] proper
  exact ⟨placed 7, outside (by decide) 7⟩

end GfarmSSH

end Pwrake
