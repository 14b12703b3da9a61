import Pwrake.Lib.Ragged
import Pwrake.Throughput
import Mathlib.Algebra.BigOperators.Group.List.Basic

set_option autoImplicit false

namespace Pwrake

-- A line of the host file that names a host: the name gethostbyname gives for
-- it and its core count, 1 where it states none.
structure HostLine where
  host : Hostname
  ncore : Int
deriving DecidableEq

structure Hostlist where
  coreList : List Hostname
  threads : Nat
deriving DecidableEq

namespace Manager

-- [host] * ncore raises for a negative count.
def times (host : Hostname) (ncore : Int) : Option (List Hostname) :=
  if ncore < 0 then none else some (List.replicate ncore.toNat host)

section Loop

variable {Core : Type*}

-- One pass of tmplist.each. It shifts every array in place.
def shiftEach : List (List Core) → List Core → Nat → List (List Core) × List Core × Nat
  | [], coreList, sz => ([], coreList, sz)
  | a :: rest, coreList, sz =>
      let (shifted, coreList, sz) := shiftEach rest (coreList ++ a.head?.toList) (sz + a.tail.length)
      (a.tail :: shifted, coreList, sz)

theorem shift_each_eq (tmplist : List (List Core)) (coreList : List Core) (sz : Nat) :
    shiftEach tmplist coreList sz =
      (tmplist.map List.tail, coreList ++ Ragged.column tmplist 0, sz + (tmplist.map List.tail).flatten.length) := by
  induction tmplist generalizing coreList sz with
  | nil => simp [shiftEach, Ragged.column]
  | cons a rest ih =>
      rw [shiftEach, ih, Ragged.column_cons, ← List.head?_eq_getElem?]
      simp only [List.append_assoc, Nat.add_assoc, List.map_cons, List.flatten_cons, List.length_append]

theorem tails_shorter (tmplist : List (List Core)) :
    (tmplist.map List.tail).flatten.length ≤ tmplist.flatten.length ∧
      (0 < (tmplist.map List.tail).flatten.length → (tmplist.map List.tail).flatten.length < tmplist.flatten.length) := by
  induction tmplist with
  | nil => simp
  | cons a rest ih =>
      simp only [List.map_cons, List.flatten_cons, List.length_append, List.length_tail]
      omega

theorem shift_each_falls (tmplist : List (List Core)) (coreList : List Core) (left : (shiftEach tmplist coreList 0).2.2 > 0) :
    (shiftEach tmplist coreList 0).1.flatten.length < tmplist.flatten.length := by
  rw [shift_each_eq] at left ⊢
  simp only [Nat.zero_add] at left
  exact (tails_shorter tmplist).2 left

-- begin ... end while sz>0
def alternate (tmplist : List (List Core)) (coreList : List Core) : List Core :=
  if (shiftEach tmplist coreList 0).2.2 > 0 then
    alternate (shiftEach tmplist coreList 0).1 (shiftEach tmplist coreList 0).2.1
  else (shiftEach tmplist coreList 0).2.1
termination_by tmplist.flatten.length
decreasing_by exact shift_each_falls tmplist coreList ‹_›

-- Every pass appends a column; the passes end with the longest array.
theorem alternate_columns (n : Nat) (tmplist : List (List Core)) (coreList : List Core)
    (bound : ∀ a ∈ tmplist, a.length ≤ n) : alternate tmplist coreList = coreList ++ Ragged.columns n tmplist := by
  induction n generalizing tmplist coreList with
  | zero =>
      have blank : ∀ a ∈ tmplist.map List.tail, a = [] := by
        intro a member
        obtain ⟨b, inside, rfl⟩ := List.mem_map.mp member
        simp [List.length_eq_zero_iff.mp (Nat.le_zero.mp (bound b inside))]
      rw [alternate, shift_each_eq, List.flatten_eq_nil_iff.mpr blank, if_neg (by simp), Ragged.column_past tmplist 0 bound]
      rfl
  | succ n ih =>
      have shorter : ∀ a ∈ tmplist.map List.tail, a.length ≤ n := by
        intro a member
        obtain ⟨b, inside, rfl⟩ := List.mem_map.mp member
        have longer := bound b inside
        simp only [List.length_tail]
        omega
      rw [alternate, shift_each_eq, Ragged.columns_succ, ← List.append_assoc]
      by_cases left : 0 + (tmplist.map List.tail).flatten.length > 0
      · rw [if_pos left]
        exact ih _ _ shorter
      · have spent : (tmplist.map List.tail).flatten = [] := List.length_eq_zero_iff.mp (by omega)
        rw [if_neg left, Ragged.columns_blank n _ (List.flatten_eq_nil_iff.mp spent), List.append_nil]

end Loop

def tmplist (lines : List HostLine) : Option (List (List Hostname)) := lines.mapM fun line => times line.host line.ncore

-- none is a run without a host file.
def setupHostlist : Option (List HostLine) → Option Hostlist
  | none => some ⟨["localhost".toList], 1⟩
  | some lines => (tmplist lines).map fun arrays => ⟨alternate arrays [], (alternate arrays []).length⟩

-- The lines of the file that the entries of core_list come from, found by the
-- same loop run on the numbers of the lines.
def origins (lines : List HostLine) : List Nat := alternate (Ragged.tags (lines.map fun line => line.ncore.toNat)) []

def maxNcore (lines : List HostLine) : Nat := lines.foldr (fun line most => max line.ncore.toNat most) 0

theorem ncore_max (lines : List HostLine) (line : HostLine) (member : line ∈ lines) : line.ncore.toNat ≤ maxNcore lines := by
  induction lines with
  | nil => exact absurd member List.not_mem_nil
  | cons first rest ih =>
      simp only [maxNcore, List.foldr_cons]
      rcases List.mem_cons.mp member with rfl | later
      · exact Nat.le_max_left _ _
      · exact (ih later).trans (Nat.le_max_right _ _)

theorem tmplist_filled (lines : List HostLine) (counts : ∀ line ∈ lines, 0 ≤ line.ncore) :
    tmplist lines = some (lines.map fun line => List.replicate line.ncore.toNat line.host) := by
  induction lines with
  | nil => rfl
  | cons line rest ih =>
      have whole : ¬ line.ncore < 0 := by
        have count := counts line List.mem_cons_self
        omega
      have later := ih fun other member => counts other (List.mem_cons_of_mem line member)
      rw [tmplist] at later ⊢
      rw [List.mapM_cons, later, times, if_neg whole]
      rfl

theorem alternate_filled (lines : List HostLine) :
    alternate (lines.map fun line => List.replicate line.ncore.toNat line.host) [] =
      Ragged.columns (maxNcore lines) (lines.map fun line => List.replicate line.ncore.toNat line.host) := by
  rw [alternate_columns (maxNcore lines), List.nil_append]
  intro array member
  obtain ⟨line, listed, rfl⟩ := List.mem_map.mp member
  simpa using ncore_max lines line listed

theorem column_filled (lines : List HostLine) (r : Nat) :
    Ragged.column (lines.map fun line => List.replicate line.ncore.toNat line.host) r =
      (lines.filter fun line => ((r + 1 : Nat) : Int) ≤ line.ncore).map HostLine.host := by
  induction lines with
  | nil => rfl
  | cons line rest ih =>
      rw [List.map_cons, Ragged.column_cons, ih, List.getElem?_replicate]
      by_cases reached : r < line.ncore.toNat
      · have stays : ((r + 1 : Nat) : Int) ≤ line.ncore := by omega
        rw [if_pos reached, List.filter_cons_of_pos (by simpa using stays)]
        rfl
      · have gone : ¬ ((r + 1 : Nat) : Int) ≤ line.ncore := by omega
        rw [if_neg reached, List.filter_cons_of_neg (by simpa using gone)]
        rfl

theorem alternate_rounds (lines : List HostLine) :
    alternate (lines.map fun line => List.replicate line.ncore.toNat line.host) [] =
      (List.range' 1 (maxNcore lines)).flatMap
        fun r : Nat => (lines.filter fun line => (r : Int) ≤ line.ncore).map HostLine.host := by
  rw [alternate_filled, Ragged.columns, List.range'_eq_map_range, List.flatMap_map]
  congr 1
  funext r
  rw [column_filled, Nat.add_comm]

theorem origins_columns (lines : List HostLine) :
    origins lines = Ragged.columns (maxNcore lines) (Ragged.tags (lines.map fun line => line.ncore.toNat)) := by
  rw [origins, alternate_columns (maxNcore lines), List.nil_append]
  intro array member
  obtain ⟨entry, numbered, rfl⟩ := List.mem_map.mp member
  obtain ⟨line, listed, same⟩ := List.mem_map.mp (List.fst_mem_of_mem_zipIdx numbered)
  rw [List.length_replicate, ← same]
  exact ncore_max lines line listed

theorem origins_host (lines : List HostLine) :
    (origins lines).map (fun i => (lines[i]?).map HostLine.host) =
      (alternate (lines.map fun line => List.replicate line.ncore.toNat line.host) []).map some := by
  rw [origins_columns, alternate_filled, ← Ragged.columns_map, ← Ragged.columns_map]
  congr 1
  refine List.ext_getElem (by simp [Ragged.tags]) fun i left right => ?_
  simp [Ragged.tags] at left
  simp [Ragged.tags, left]

theorem origins_count (lines : List HostLine) (i : Nat) :
    (origins lines).count i = (lines.map fun line => line.ncore.toNat).getD i 0 := by
  rw [origins_columns, Ragged.columns_count]
  refine Nat.min_eq_right ?_
  by_cases inside : i < lines.length
  · have bound := ncore_max lines lines[i] (List.getElem_mem inside)
    simpa [List.getD, inside] using bound
  · simp [List.getD, inside]

theorem origins_even (lines : List HostLine) (k i j : Nat) (left right : HostLine)
    (lineI : lines[i]? = some left) (lineJ : lines[j]? = some right)
    (unusedI : (((origins lines).take k).count i : Int) < left.ncore)
    (unusedJ : (((origins lines).take k).count j : Int) < right.ncore) :
    ((origins lines).take k).count i ≤ ((origins lines).take k).count j + 1 := by
  rw [origins_columns] at unusedI unusedJ ⊢
  apply Ragged.columns_even
  · simp only [List.getD_eq_getElem?_getD, List.getElem?_map, lineI, Option.map_some, Option.getD_some]
    omega
  · simp only [List.getD_eq_getElem?_getD, List.getElem?_map, lineJ, Option.map_some, Option.getD_some]
    omega

theorem sum_ncore (lines : List HostLine) (counts : ∀ line ∈ lines, 0 ≤ line.ncore) :
    (((lines.map fun line => line.ncore.toNat).sum : Nat) : Int) = (lines.map HostLine.ncore).sum := by
  induction lines with
  | nil => rfl
  | cons line rest ih =>
      have count := counts line List.mem_cons_self
      have later := ih fun other member => counts other (List.mem_cons_of_mem line member)
      simp only [List.map_cons, List.sum_cons]
      omega

theorem alternate_length (lines : List HostLine) :
    (alternate (lines.map fun line => List.replicate line.ncore.toNat line.host) []).length =
      (lines.map fun line => line.ncore.toNat).sum := by
  rw [alternate_filled, Ragged.columns_length]
  · simp [List.map_map, Function.comp_def]
  · intro row member
    obtain ⟨line, listed, rfl⟩ := List.mem_map.mp member
    simpa using ncore_max lines line listed

theorem round_robin_core_list (lines : List HostLine) (counts : ∀ line ∈ lines, 0 ≤ line.ncore) :
    ∃ list, setupHostlist (some lines) = some list ∧
      list.coreList = (List.range' 1 (maxNcore lines)).flatMap
        (fun r : Nat => (lines.filter fun line => (r : Int) ≤ line.ncore).map HostLine.host) ∧
      list.coreList.map some = (origins lines).map (fun i => (lines[i]?).map HostLine.host) ∧
      (∀ i line, lines[i]? = some line → ((origins lines).count i : Int) = line.ncore) ∧
      (list.threads : Int) = (lines.map HostLine.ncore).sum ∧
      ∀ k i j left right, lines[i]? = some left → lines[j]? = some right →
        (((origins lines).take k).count i : Int) < left.ncore → (((origins lines).take k).count j : Int) < right.ncore →
          ((origins lines).take k).count i ≤ ((origins lines).take k).count j + 1 ∧
          ((origins lines).take k).count j ≤ ((origins lines).take k).count i + 1 := by
  refine ⟨⟨_, _⟩, by rw [setupHostlist, tmplist_filled lines counts, Option.map_some], ?_, ?_, ?_, ?_, ?_⟩
  · exact alternate_rounds lines
  · exact (origins_host lines).symm
  · intro i line here
    have count := counts line (List.mem_of_getElem? here)
    rw [origins_count, List.getD_eq_getElem?_getD, List.getElem?_map, here]
    simpa using count
  · rw [alternate_length]
    exact sum_ncore lines counts
  · intro k i j left right lineI lineJ unusedI unusedJ
    exact ⟨origins_even lines k i j left right lineI lineJ unusedI unusedJ,
      origins_even lines k j i right left lineJ lineI unusedJ unusedI⟩

-- A host on two lines, and a line without cores.
def hostfile : List HostLine :=
  [⟨"node1".toList, 2⟩, ⟨"node2".toList, 0⟩, ⟨"node3".toList, 3⟩, ⟨"node1".toList, 1⟩]

theorem hostfile_alternates :
    ∃ list, setupHostlist (some hostfile) = some list ∧ list.threads = 6 ∧
      list.coreList = ["node1".toList, "node3".toList, "node1".toList, "node1".toList, "node3".toList, "node3".toList] := by
  obtain ⟨list, set, order, -, -, total, -⟩ := round_robin_core_list hostfile (by decide)
  refine ⟨list, set, ?_, ?_⟩
  · have sum : (hostfile.map HostLine.ncore).sum = 6 := by decide
    omega
  · rw [order]
    decide

end Manager

end Pwrake
