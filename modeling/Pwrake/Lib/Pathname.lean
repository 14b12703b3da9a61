import Mathlib.Data.List.DropRight
import Mathlib.Data.List.Basic

set_option autoImplicit false

-- A component of a path: . or .. or a name.
inductive Segment (Name : Type*) where
  | here
  | up
  | name (n : Name)
deriving DecidableEq, Repr

-- A path without doubled and trailing separators, as the library class of the
-- same name takes it apart.
structure Pathname (Name : Type*) where
  absolute : Bool
  names : List (Segment Name)
deriving DecidableEq, Repr

inductive PathError where
  | differentPrefix
  | baseHasUp
deriving DecidableEq, Repr

namespace Pathname

variable {Name : Type*}

def isHere : Segment Name → Bool
  | .here => true
  | _ => false

def isUp : Segment Name → Bool
  | .up => true
  | _ => false

-- A relative path without names is written as a dot.
def build (absolute : Bool) (names : List (Segment Name)) : Pathname Name :=
  ⟨absolute, if names.isEmpty && !absolute then [.here] else names⟩

-- The loop of cleanpath, from the last name to the first.
def collapse : List (Segment Name) → List (Segment Name) → List (Segment Name)
  | [], names => names
  | .here :: rest, names => collapse rest names
  | .up :: rest, names => collapse rest (.up :: names)
  | .name n :: rest, names =>
      match names with
      | .up :: later => collapse rest later
      | names => collapse rest (.name n :: names)

def cleanpath (p : Pathname Name) : Pathname Name :=
  let names := collapse p.names.reverse []
  build p.absolute (if p.absolute then names.dropWhile isUp else names)

-- The loop of plus: the names of the first path from the last to the first, and
-- the names of the second.
def cancel : List (Segment Name) → List (Segment Name) → List (Segment Name) × List (Segment Name)
  | [], list => ([], list.dropWhile isHere)
  | .here :: rest, list => cancel rest (list.dropWhile isHere)
  | .up :: rest, list => (.up :: rest, list.dropWhile isHere)
  | .name n :: rest, list =>
      match list.dropWhile isHere with
      | .up :: later => cancel rest later
      | later => (.name n :: rest, later)

def plus (p q : Pathname Name) : Pathname Name :=
  if q.absolute then q
  else
    let (front, later) := cancel p.names.reverse q.names
    build p.absolute (front.reverse ++ if front.isEmpty && p.absolute then later.dropWhile isUp else later)

def parent (p : Pathname Name) : Pathname Name := p.plus ⟨false, [.up]⟩

section Relative

variable [DecidableEq Name]

def stripCommon : List (Segment Name) → List (Segment Name) → List (Segment Name) × List (Segment Name)
  | d :: dest, b :: base => if d = b then stripCommon dest base else (d :: dest, b :: base)
  | dest, base => (dest, base)

def relativePathFrom (p baseDirectory : Pathname Name) : Except PathError (Pathname Name) :=
  let dest := p.cleanpath
  let base := baseDirectory.cleanpath
  if dest.absolute = base.absolute then
    let (destNames, baseNames) := stripCommon (dest.names.filter fun s => !isHere s) (base.names.filter fun s => !isHere s)
    if baseNames.any isUp then .error .baseHasUp
    else .ok (build false (List.replicate baseNames.length .up ++ destNames))
  else .error .differentPrefix

end Relative

-- What a path means in a tree of directories: a place is the names from the
-- directory up to the root, and the root is its own parent.
def enter (place : List Name) : Segment Name → List Name
  | .here => place
  | .up => place.tail
  | .name n => n :: place

def walk (place : List Name) (names : List (Segment Name)) : List Name := names.foldl enter place

def locate (p : Pathname Name) (cwd : List Name) : List Name := walk (if p.absolute then [] else cwd) p.names

def ofPlace (place : List Name) : Pathname Name := ⟨true, place.reverse.map .name⟩

@[simp] theorem walk_nil (place : List Name) : walk place [] = place := rfl

@[simp] theorem walk_cons (place : List Name) (s : Segment Name) (rest : List (Segment Name)) :
    walk place (s :: rest) = walk (enter place s) rest := rfl

@[simp] theorem walk_append (place : List Name) (front rest : List (Segment Name)) :
    walk place (front ++ rest) = walk (walk place front) rest := List.foldl_append

theorem walk_names (place names : List Name) : walk place (names.map .name) = names.reverse ++ place := by
  induction names generalizing place with
  | nil => rfl
  | cons n rest ih => simp [ih, enter]

theorem locate_of_place (place cwd : List Name) : (ofPlace place).locate cwd = place := by
  rw [locate, ofPlace, if_pos rfl, walk_names, List.append_nil, List.reverse_reverse]

theorem walk_build (place : List Name) (absolute : Bool) (names : List (Segment Name)) :
    walk place (build absolute names).names = walk place names := by
  unfold build
  cases names with
  | nil => cases absolute <;> rfl
  | cons s rest => rfl

theorem locate_build (absolute : Bool) (names : List (Segment Name)) (cwd : List Name) :
    (build absolute names).locate cwd = walk (if absolute then [] else cwd) names :=
  walk_build (if absolute then [] else cwd) absolute names

theorem walk_drop_here (place : List Name) (names : List (Segment Name)) :
    walk place (names.dropWhile isHere) = walk place names := by
  induction names with
  | nil => rfl
  | cons s rest ih =>
      cases s with
      | here => exact ih
      | up => rfl
      | name n => rfl

-- Above the root there is nothing.
theorem walk_drop_up (names : List (Segment Name)) : walk [] (names.dropWhile isUp) = walk [] names := by
  induction names with
  | nil => rfl
  | cons s rest ih =>
      cases s with
      | here => rfl
      | up => exact ih
      | name n => rfl

theorem walk_collapse (place : List Name) (rest names : List (Segment Name)) :
    walk place (collapse rest names) = walk place (rest.reverse ++ names) := by
  induction rest generalizing names with
  | nil => rfl
  | cons s rest ih =>
      have split : (s :: rest).reverse ++ names = rest.reverse ++ ([s] ++ names) := by simp
      rw [split]
      cases s with
      | here =>
          rw [collapse, ih]
          simp [enter]
      | up =>
          rw [collapse, ih]
          rfl
      | name n =>
          unfold collapse
          split
          · rw [ih]
            simp [enter]
          · rw [ih]
            rfl

theorem locate_cleanpath (p : Pathname Name) (cwd : List Name) : p.cleanpath.locate cwd = p.locate cwd := by
  have whole := fun place => walk_collapse place p.names.reverse ([] : List (Segment Name))
  simp only [List.reverse_reverse, List.append_nil] at whole
  rw [cleanpath, locate_build, locate]
  cases p.absolute with
  | true => exact (walk_drop_up _).trans (whole [])
  | false => exact whole cwd

theorem walk_cancel (place : List Name) (rest list : List (Segment Name)) :
    walk place ((cancel rest list).1.reverse ++ (cancel rest list).2) = walk place (rest.reverse ++ list) := by
  induction rest generalizing list with
  | nil => simp [cancel, walk_drop_here]
  | cons s rest ih =>
      cases s with
      | here => simp [cancel, ih, walk_drop_here, enter]
      | up => simp [cancel, walk_drop_here]
      | name n =>
          have same := walk_drop_here (walk place ((Segment.name n :: rest).reverse)) list
          rw [← walk_append, ← walk_append] at same
          rw [← same]
          unfold cancel
          split
          · rename_i later shape
            rw [ih, shape]
            simp [enter]
          · rw [walk_append]

-- Adding a relative path is walking on from the first.
theorem locate_plus (p q : Pathname Name) (cwd : List Name) (relative : q.absolute = false) :
    (p.plus q).locate cwd = walk (p.locate cwd) q.names := by
  have whole := fun place => walk_cancel place p.names.reverse q.names
  simp only [List.reverse_reverse] at whole
  rw [plus, if_neg (by simp [relative]), locate_build, locate, ← walk_append, ← whole]
  cases p.absolute with
  | false => simp
  | true =>
      cases (cancel p.names.reverse q.names).1 with
      | nil => simp [walk_drop_up]
      | cons s rest => simp

-- What the loop of cleanpath leaves: steps up, then names.
def Climbs (names : List (Segment Name)) : Prop := ∃ (k : Nat) (l : List Name), names = List.replicate k .up ++ l.map .name

theorem collapse_climbs (rest names : List (Segment Name)) (climbs : Climbs names) : Climbs (collapse rest names) := by
  induction rest generalizing names with
  | nil => exact climbs
  | cons s rest ih =>
      obtain ⟨k, l, rfl⟩ := climbs
      cases s with
      | here => exact ih _ ⟨k, l, rfl⟩
      | up => exact ih _ ⟨k + 1, l, rfl⟩
      | name n =>
          cases k with
          | zero =>
              unfold collapse
              split
              · rename_i later shape
                cases l <;> cases shape
              · exact ih _ ⟨0, n :: l, rfl⟩
          | succ k => exact ih _ ⟨k, l, rfl⟩

theorem drop_up_climbs (names : List (Segment Name)) (climbs : Climbs names) : ∃ l : List Name, names.dropWhile isUp = l.map .name := by
  obtain ⟨k, l, rfl⟩ := climbs
  refine ⟨l, ?_⟩
  induction k with
  | zero => cases l <;> rfl
  | succ k ih => exact ih

-- The clean spelling of an absolute path is given by where it leads.
theorem cleanpath_absolute (p : Pathname Name) (cwd : List Name) (absolute : p.absolute = true) :
    p.cleanpath = ofPlace (p.locate cwd) := by
  have same := locate_cleanpath p cwd
  obtain ⟨l, shape⟩ := drop_up_climbs _ (collapse_climbs p.names.reverse [] ⟨0, [], rfl⟩)
  have clean : p.cleanpath = ⟨true, l.map .name⟩ := by
    simp [cleanpath, build, absolute, shape]
  have place : p.locate cwd = l.reverse := by
    rw [← same, clean, locate, if_pos rfl, walk_names, List.append_nil]
  rw [clean, place, ofPlace, List.reverse_reverse]

theorem of_place_filter (place : List Name) :
    ((ofPlace place).names.filter fun s => !isHere s) = place.reverse.map .name := by
  refine List.filter_eq_self.mpr fun s member => ?_
  obtain ⟨n, -, rfl⟩ := List.mem_map.mp member
  rfl

section Relative

variable [DecidableEq Name]

theorem strip_common_split (dest base : List (Segment Name)) :
    ∃ common, dest = common ++ (stripCommon dest base).1 ∧ base = common ++ (stripCommon dest base).2 := by
  induction dest generalizing base with
  | nil => exact ⟨[], by simp [stripCommon]⟩
  | cons d dest ih =>
      cases base with
      | nil => exact ⟨[], by simp [stripCommon]⟩
      | cons b base =>
          by_cases same : d = b
          · obtain ⟨common, left, right⟩ := ih base
            rw [stripCommon, if_pos same]
            exact ⟨d :: common, congrArg (d :: ·) left, by rw [same]; exact congrArg (b :: ·) right⟩
          · rw [stripCommon, if_neg same]
            exact ⟨[], rfl, rfl⟩

theorem strip_common_below (base rest : List (Segment Name)) : stripCommon (base ++ rest) base = (rest, []) := by
  induction base with
  | nil => cases rest <;> rfl
  | cons b base ih => rw [List.cons_append, stripCommon, if_pos rfl, ih]

theorem relative_of_places (dest base : List Name) (p q : Pathname Name) (left : p.cleanpath = ofPlace dest)
    (right : q.cleanpath = ofPlace base) :
    p.relativePathFrom q =
      .ok (build false (List.replicate (stripCommon (dest.reverse.map .name) (base.reverse.map .name)).2.length .up ++
        (stripCommon (dest.reverse.map .name) (base.reverse.map .name)).1)) := by
  have named : ((stripCommon (dest.reverse.map .name) (base.reverse.map .name)).2 : List (Segment Name)).any isUp = false := by
    obtain ⟨common, -, split⟩ := strip_common_split (dest.reverse.map .name) (base.reverse.map Segment.name)
    refine List.any_eq_false.mpr fun s member => ?_
    have listed : s ∈ base.reverse.map Segment.name := split ▸ List.mem_append_right common member
    obtain ⟨n, -, rfl⟩ := List.mem_map.mp listed
    exact Bool.false_ne_true
  unfold relativePathFrom
  dsimp only
  have alike : (ofPlace dest).absolute = (ofPlace base).absolute := rfl
  rw [left, right, of_place_filter, of_place_filter, if_pos alike, named]
  rfl

theorem relative_below (p base : Pathname Name) (cwd below : List Name) (destAbsolute : p.absolute = true)
    (baseAbsolute : base.absolute = true) (within : p.locate cwd = below ++ base.locate cwd) :
    p.relativePathFrom base = .ok (build false (below.reverse.map .name)) := by
  rw [relative_of_places _ _ p base (cleanpath_absolute p cwd destAbsolute) (cleanpath_absolute base cwd baseAbsolute), within,
    List.reverse_append, List.map_append, strip_common_below]
  rfl

end Relative

-- The names never lead above the place they start from.
def stays : Nat → List (Segment Name) → Bool
  | _, [] => true
  | depth, .here :: rest => stays depth rest
  | 0, .up :: _ => false
  | depth + 1, .up :: rest => stays depth rest
  | depth, .name _ :: rest => stays (depth + 1) rest

-- Seen from elsewhere, such a walk is the same one.
theorem walk_stays (place mount : List Name) (names : List (Segment Name)) (staying : stays place.length names = true) :
    walk (place ++ mount) names = walk place names ++ mount := by
  induction names generalizing place with
  | nil => rfl
  | cons s rest ih =>
      cases s with
      | here => exact ih place staying
      | up =>
          cases place with
          | nil => cases staying
          | cons n place => exact ih place staying
      | name n => exact ih (n :: place) staying

theorem parent_of_place (n : Name) (rest : List Name) : (ofPlace (n :: rest)).parent = ofPlace rest := by
  have cancelled : cancel (ofPlace (n :: rest)).names.reverse [Segment.up] = (rest.map .name, []) := by
    rw [ofPlace, ← List.map_reverse, List.reverse_reverse, List.map_cons]
    cases rest <;> rfl
  rw [parent, plus, if_neg (by simp), cancelled]
  simp [build, ofPlace]

end Pathname
