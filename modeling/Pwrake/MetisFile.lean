import Pwrake.DagTrace
import Pwrake.Gfwhere
import Pwrake.Lib.Numeral

set_option autoImplicit false

namespace Pwrake

namespace Metis

-- A graph as its file numbers it: of each vertex the weight, and the numbers of
-- its neighbours from 1 on with the weights of the edges.
abbrev Numbered := List (Int × List (Int × Int))

-- What a line says to a program that reads numbers with blanks between them.
def numbers (line : String) : List Int := (Words.words Numeral.isSpace line.toList).map Numeral.toI

def pairs : List Int → Option (List (Int × Int))
  | [] => some []
  | [_] => none
  | a :: b :: rest => (pairs rest).map ((a, b) :: ·)

def readVertex (line : String) : Option (Int × List (Int × Int)) :=
  match numbers line with
  | [] => none
  | weight :: rest => (pairs rest).map (weight, ·)

-- The reader counts the lines and the ends of the edges, and it takes no other
-- format than the one with both kinds of weights.
def readGraph : List String → Option Numbered
  | [] => none
  | header :: lines =>
      match numbers header, lines.mapM readVertex with
      | [n, m, 11], some graph =>
          if n = graph.length ∧ 2 * m = (graph.map fun vertex => vertex.2.length).sum then some graph else none
      | _, _ => none

namespace VertexList

variable {Task : Type*}

def numbered (weight : Task → Int) (s : VertexList Task) : Numbered :=
  s.list.map fun v => (weight v.task, v.adj.map fun entry => ((entry.1 : Int) + 1, entry.2))

-- VertexList#partition. pmetis is the command: the text of its answer to the
-- file metis.graph and the number of parts.
def partition (pmetis : List String → Nat → Text) (s : VertexList Task) (n : Nat) : List Int :=
  (Lines.lines '\n' (pmetis (metisGraph s) n)).map Numeral.toI

-- A file of part numbers, one on each line.
def partFile (part : List Nat) : Text := part.flatMap fun (p : Nat) => Numeral.toS p ++ ['\n']

end VertexList

section Reading

theorem numbers_intercalate (texts : List String) (values : List (List Int)) (reads : texts.map numbers = values) :
    numbers (" ".intercalate texts) = values.flatten := by
  have blank : " ".toList = [' '] := rfl
  rw [numbers, String.toList_intercalate, blank, Words.words_intercalate Numeral.isSpace ' ' rfl, List.flatMap_map, List.map_flatMap,
    List.flatMap_def, ← reads]
  rfl

theorem words_to_s (i : Int) : Words.words Numeral.isSpace (Numeral.toS i) = [Numeral.toS i] :=
  Words.words_word _ _ (Numeral.to_s_visible i)

theorem to_i_whole (i : Int) : Numeral.toI (Numeral.toS i) = i := by
  have read := Numeral.to_i_to_s i [] Numeral.stops_nil
  rwa [List.append_nil] at read

theorem numbers_int (i : Int) : numbers (toString i) = [i] := by
  rw [numbers, Numeral.string_to_s, words_to_s, List.map_singleton, to_i_whole]

theorem numbers_nat (n : Nat) : numbers (toString n) = [(n : Int)] := by
  rw [numbers, Numeral.string_decimal, words_to_s, List.map_singleton, to_i_whole]

theorem numbers_append (left right : String) : numbers (left ++ " " ++ right) = numbers left ++ numbers right := by
  have split : (left ++ " " ++ right).toList = left.toList ++ ' ' :: right.toList := by
    rw [String.toList_append, String.toList_append, List.append_assoc]
    rfl
  rw [numbers, split, Words.words_append_blank _ _ _ ' ' rfl, List.map_append]
  rfl

theorem pairs_flatten (entries : List (Int × Int)) : pairs (entries.map fun entry => [entry.1, entry.2]).flatten = some entries := by
  induction entries with
  | nil => rfl
  | cons entry rest ih =>
      rw [List.map_cons, List.flatten_cons]
      exact (congrArg (Option.map _) ih)

-- The lines of a part file are its numbers.
theorem part_file_lines (part : List Nat) :
    (Lines.lines '\n' (VertexList.partFile part)).map Numeral.toI = part.map fun (p : Nat) => (p : Int) := by
  induction part with
  | nil => rfl
  | cons p rest ih =>
      have single : '\n' ∉ Numeral.toS p := fun member => absurd ((Numeral.to_s_visible p).2 '\n' member) (by decide)
      have stops : Numeral.Stops ['\n'] := by
        rintro c ⟨⟩
        decide
      rw [VertexList.partFile, List.flatMap_cons, List.append_assoc, List.singleton_append, Lines.lines_marked '\n' _ _ single,
        List.map_cons, List.map_cons, Numeral.to_i_to_s p ['\n'] stops]
      exact congrArg ((p : Int) :: ·) ih

end Reading

namespace VertexList

section Graph

variable {Task : Type*} [DecidableEq Task] {weight : Task → Int} {s : VertexList Task} {edges : List (Task × Task)}

theorem read_vertex_line (depicts : Depicts weight s edges) (i : Nat) (v : Vertex Task) (here : s.list[i]? = some v) :
    readVertex (metisInput s v) = some (weight v.task, v.adj.map fun entry => ((entry.1 : Int) + 1, entry.2)) := by
  have texts : (toString v.weight :: (neighbours s v).map fun entry => toString entry.1 ++ " " ++ toString entry.2).map numbers =
      [weight v.task] :: (v.adj.map fun entry => ((entry.1 : Int) + 1, entry.2)).map fun entry => [entry.1, entry.2] := by
    rw [List.map_cons, numbers_int, (depicts.numbered i v here).2, neighbours_printed depicts i v here, List.map_map, List.map_map,
      List.map_map]
    congr 1
    refine List.map_congr_left fun entry _ => ?_
    simp only [Function.comp_apply, numbers_append, numbers_nat, numbers_int]
    rfl
  have line : numbers (metisInput s v) = weight v.task ::
      ((v.adj.map fun entry => ((entry.1 : Int) + 1, entry.2)).map fun entry => [entry.1, entry.2]).flatten :=
    numbers_intercalate _ _ texts
  rw [readVertex, line]
  simp only [pairs_flatten, Option.map_some]

theorem read_lines (lines : List String) (graph : Numbered) (reads : lines.map readVertex = graph.map some) :
    lines.mapM readVertex = some graph := by
  induction lines generalizing graph with
  | nil =>
      rw [List.map_nil, eq_comm, List.map_eq_nil_iff] at reads
      rw [reads]
      rfl
  | cons line rest ih =>
      cases graph with
      | nil => cases reads
      | cons vertex graph =>
          rw [List.map_cons, List.map_cons, List.cons.injEq] at reads
          rw [List.mapM_cons, reads.1, ih graph reads.2]
          rfl

-- Metis reads the graph that the list holds.
theorem read_metis_graph (depicts : Depicts weight s edges) : readGraph (metisGraph s) = some (numbered weight s) := by
  have header : numbers (toString s.list.length ++ " " ++ toString s.edges.length ++ " 11") =
      [(s.list.length : Int), (s.edges.length : Int), 11] := by
    have split : " 11" = " " ++ "11" := rfl
    have eleven : numbers "11" = [11] := by decide
    rw [split, ← String.append_assoc, numbers_append, numbers_append, numbers_nat, numbers_nat, eleven]
    rfl
  have lines : (s.list.map (metisInput s)).mapM readVertex = some (numbered weight s) := by
    refine read_lines _ _ ?_
    rw [numbered, List.map_map, List.map_map]
    refine List.map_congr_left fun v member => ?_
    obtain ⟨i, here⟩ := List.mem_iff_getElem?.mp member
    exact read_vertex_line depicts i v here
  have size : (numbered weight s).length = s.list.length := List.length_map _
  have ends : ((numbered weight s).map fun vertex => vertex.2.length).sum = 2 * s.edges.length := by
    rw [← adj_total depicts, numbered, List.map_map]
    simp [Function.comp_def]
  rw [metisGraph, readGraph, header, lines]
  simp only [size, ends]
  rw [if_pos]
  exact ⟨trivial, by simp⟩

end Graph

section Partition

variable {Task Name Scope : Type*} [DecidableEq Task] [Fintype Task]

-- What pmetis is for: it takes the graph of the file apart into n parts and
-- prints the part of each vertex on a line of its own.
structure Divides (pmetis : List String → Nat → Text) (divide : Numbered → Nat → List Nat) : Prop where
  answers : ∀ lines graph n, readGraph lines = some graph → pmetis lines n = partFile (divide graph n)

-- @part is the division of the very graph that was traced: the entry at the
-- index of a task is the part of its vertex.
theorem partition_divides (app : Application Task Name Scope) (weight : Task → Int) (topLevelTasks : List Name) (s : VertexList Task)
    (ran : dagTrace app weight topLevelTasks = some s) (pmetis : List String → Nat → Text) (divide : Numbered → Nat → List Nat)
    (divides : Divides pmetis divide) (n : Nat) :
    readGraph (metisGraph s) = some (numbered weight s) ∧
      partition pmetis s n = (divide (numbered weight s) n).map (fun (p : Nat) => (p : Int)) ∧
      ∀ x i, s.index x = some i → ((numbered weight s)[i]?).map Prod.fst = some (weight x) ∧
        ∀ p : Nat, (divide (numbered weight s) n)[i]? = some p → (partition pmetis s n)[i]? = some (p : Int) := by
  have depicts : ∃ edges, Depicts weight s edges := by
    rw [dag_trace_search] at ran
    obtain ⟨roots, -, searched⟩ := Option.bind_eq_some_iff.mp ran
    obtain ⟨opened, -, rfl⟩ := Option.map_eq_some_iff.mp searched
    exact ⟨_, traced_depicts app weight opened⟩
  obtain ⟨edges, depicts⟩ := depicts
  have read := read_metis_graph depicts
  have parts : partition pmetis s n = (divide (numbered weight s) n).map fun (p : Nat) => (p : Int) := by
    rw [partition, divides.answers _ _ n read, part_file_lines]
  refine ⟨read, parts, fun x i here => ⟨?_, fun p part => by rw [parts, List.getElem?_map, part, Option.map_some]⟩⟩
  obtain ⟨v, there, same⟩ := Option.map_eq_some_iff.mp ((depicts.placed x i).mp here)
  rw [numbered, List.getElem?_map, there, Option.map_some, Option.map_some, same]

-- A command that gives every vertex its own number.
theorem partition_divides_knotted :
    ∃ s, dagTrace (Tracer.graph knottedPrereqs) knottedWeight [.top, .leaf] = some s ∧
      partition (fun lines _ => match readGraph lines with
        | some graph => partFile (List.range graph.length)
        | none => []) s 3 = [0, 1, 2] := by
  have ran : ∃ s, dagTrace (Tracer.graph knottedPrereqs) knottedWeight [.top, .leaf] = some s ∧ s.list.length = 3 := by
    refine ⟨_, rfl, ?_⟩
    decide
  obtain ⟨s, ran, size⟩ := ran
  have divided := partition_divides (Tracer.graph knottedPrereqs) knottedWeight [.top, .leaf] s ran
    (fun lines _ => match readGraph lines with
      | some graph => partFile (List.range graph.length)
      | none => []) (fun graph _ => List.range graph.length) ⟨fun lines graph n read => by simp only [read]⟩ 3
  refine ⟨s, ran, divided.2.1.trans ?_⟩
  have length : (numbered knottedWeight s).length = 3 := (List.length_map _).trans size
  rw [length]
  rfl

end Partition

end VertexList

end Metis

end Pwrake
