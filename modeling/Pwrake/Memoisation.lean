import Pwrake.Throughput

set_option autoImplicit false

namespace Pwrake

namespace Throughput

inductive Query where
  | interdomain (x y : Domain)
  | interhost (x y : Option Hostname)
deriving DecidableEq

def ask (t : Throughput) : Query → Option ℚ × Throughput
  | .interdomain x y => (some (t.interdomain x y).1, (t.interdomain x y).2)
  | .interhost x y => t.interhost x y

def asked (t : Throughput) : List Query → Throughput
  | [] => t
  | query :: rest => (t.ask query).2.asked rest

def answers (t : Throughput) : List Query → List (Option ℚ)
  | [] => []
  | query :: rest => (t.ask query).1 :: (t.ask query).2.answers rest

-- The answer that depends on nothing but the list and the two arguments.
def expected (list : Option (List Measurement)) : Query → Option ℚ
  | .interdomain x y => some (domainRate list x y)
  | .interhost x y => hostRate list x y

-- All that interhost does to its own table.
structure Recorded (t : Throughput) (x y : Option Hostname) (v : ℚ) (later : Throughput) : Prop where
  here : later.interhostList x y = some v
  elsewhere : ∀ a b, ¬ (a = x ∧ b = y) → later.interhostList a b = t.interhostList a b
  known : ∀ w, t.interhostList x y = some w → w = v
  opposite : t.interhostList x y = none → ∀ w, t.interhostList y x = some w → w = v

theorem remember_recorded (t now : Throughput) (x y : Option Hostname) (v : ℚ)
    (same : now.interhostList = t.interhostList) (unknown : t.interhostList x y = none)
    (opposite : ∀ w, t.interhostList y x = some w → w = v) :
    Recorded t x y v { now with interhostList := remember now.interhostList x y v } := by
  refine ⟨remember_same _ x y v, fun a b different => ?_, fun w known => ?_, fun _ => opposite⟩
  · exact (remember_other _ x y a b v different).trans (by rw [same])
  · simp [unknown] at known

theorem interdomain_table (t : Throughput) (x y : Domain) : (t.interdomain x y).2.interhostList = t.interhostList := by
  unfold interdomain
  split <;> rfl

theorem interhost_recorded (t : Throughput) (x y : Option Hostname) (named : x ≠ none) :
    ∃ v later, t.interhost x y = (some v, later) ∧ Recorded t x y v later := by
  unfold interhost
  rw [if_neg named]
  cases known : t.interhostList x y with
  | some v =>
      refine ⟨v, t, rfl, known, fun _ _ _ => rfl, fun w again => ?_, fun unknown => ?_⟩
      · exact Option.some.inj (again.symm.trans known)
      · simp [known] at unknown
  | none =>
      cases opposite : t.interhostList y x with
      | some v =>
          exact ⟨v, _, rfl, remember_recorded t t x y v rfl known fun w again => Option.some.inj (again.symm.trans opposite)⟩
      | none =>
          refine ⟨_, _, rfl, remember_recorded t _ x y _ (interdomain_table t _ _) known fun w again => ?_⟩
          simp [opposite] at again

-- A query leaves the table of interhost alone or records one entry in it.
theorem ask_cases (t : Throughput) (query : Query) :
    (t.ask query).2.interhostList = t.interhostList ∨
      ∃ x y v, query = .interhost x y ∧ x ≠ none ∧ Recorded t x y v (t.ask query).2 := by
  cases query with
  | interdomain x y => exact .inl (interdomain_table t x y)
  | interhost x y =>
      by_cases anonymous : x = none
      · have same : (t.ask (.interhost x y)).2 = t := by simp [ask, interhost, anonymous]
        exact .inl (congrArg interhostList same)
      · obtain ⟨v, later, answer, recorded⟩ := interhost_recorded t x y anonymous
        have after : (t.ask (.interhost x y)).2 = later := congrArg Prod.snd answer
        exact .inr ⟨x, y, v, rfl, anonymous, after ▸ recorded⟩

-- Every entry was asked for.
def Known (queries : List Query) (t : Throughput) : Prop :=
  ∀ x y v, t.interhostList x y = some v → x ≠ none ∧ .interhost x y ∈ queries

-- The first of two opposite queries decides for both.
def Paired (t : Throughput) : Prop :=
  ∀ x y v w, t.interhostList x y = some v → t.interhostList y x = some w → v = w

theorem new_blank (list : Option (List Measurement)) (x y : Option Hostname) : (new list).interhostList x y = none := by
  cases list <;> rfl

theorem ask_known (queries : List Query) (t : Throughput) (query : Query) (member : query ∈ queries)
    (known : Known queries t) : Known queries (t.ask query).2 := by
  intro a b w read
  rcases t.ask_cases query with same | ⟨x, y, v, rfl, named, recorded⟩
  · exact known a b w (same ▸ read)
  · by_cases here : a = x ∧ b = y
    · exact ⟨here.1 ▸ named, here.1 ▸ here.2 ▸ member⟩
    · exact known a b w ((recorded.elsewhere a b here).symm.trans read)

-- The entry just written against the opposite one.
theorem recorded_opposite (t later : Throughput) (x y : Option Hostname) (v w : ℚ) (paired : Paired t)
    (recorded : Recorded t x y v later) (back : later.interhostList y x = some w) : w = v := by
  by_cases same : y = x
  · subst same
    exact Option.some.inj (back.symm.trans recorded.here)
  · have earlier := (recorded.elsewhere y x fun both => same both.1).symm.trans back
    cases known : t.interhostList x y with
    | none => exact recorded.opposite known w earlier
    | some u => exact (paired y x w u earlier known).trans (recorded.known u known)

theorem ask_paired (t : Throughput) (query : Query) (paired : Paired t) : Paired (t.ask query).2 := by
  intro a b u w forth back
  rcases t.ask_cases query with same | ⟨x, y, v, rfl, -, recorded⟩
  · exact paired a b u w (same ▸ forth) (same ▸ back)
  · by_cases here : a = x ∧ b = y
    · obtain ⟨rfl, rfl⟩ := here
      rw [recorded_opposite t _ a b v w paired recorded back]
      exact Option.some.inj (forth.symm.trans recorded.here)
    · by_cases there : b = x ∧ a = y
      · obtain ⟨rfl, rfl⟩ := there
        rw [recorded_opposite t _ b a v u paired recorded forth]
        exact Option.some.inj (recorded.here.symm.trans back)
      · exact paired a b u w ((recorded.elsewhere a b here).symm.trans forth) ((recorded.elsewhere b a there).symm.trans back)

theorem ask_kept (t : Throughput) (query : Query) (a b : Option Hostname) (w : ℚ) (read : t.interhostList a b = some w) :
    (t.ask query).2.interhostList a b = some w := by
  rcases t.ask_cases query with same | ⟨x, y, v, -, -, recorded⟩
  · rw [same, read]
  · by_cases here : a = x ∧ b = y
    · obtain ⟨rfl, rfl⟩ := here
      rw [recorded.here, recorded.known w read]
    · exact (recorded.elsewhere a b here).trans read

theorem asked_paired (queries : List Query) (t : Throughput) (paired : Paired t) : Paired (t.asked queries) := by
  induction queries generalizing t with
  | nil => exact paired
  | cons query rest ih => exact ih _ (ask_paired t query paired)

theorem asked_kept (queries : List Query) (t : Throughput) (a b : Option Hostname) (w : ℚ)
    (read : t.interhostList a b = some w) : (t.asked queries).interhostList a b = some w := by
  induction queries generalizing t with
  | nil => exact read
  | cons query rest ih => exact ih _ (ask_kept t query a b w read)

theorem answers_recorded (list : Option (List Measurement)) (queries : List Query) (t : Throughput)
    (answered : t.answers queries = queries.map (expected list)) (x y : Option Hostname) (named : x ≠ none)
    (member : .interhost x y ∈ queries) :
    (t.asked queries).interhostList x y = some (domainRate list (parseHostname x).2 (parseHostname y).2) := by
  induction queries generalizing t with
  | nil => cases member
  | cons query rest ih =>
      rw [answers, List.map_cons, List.cons.injEq] at answered
      rcases List.mem_cons.mp member with rfl | later
      · obtain ⟨v, next, answer, recorded⟩ := interhost_recorded t x y named
        have after : (t.ask (.interhost x y)).2 = next := congrArg Prod.snd answer
        have given : some v = hostRate list x y := (congrArg Prod.fst answer).symm.trans answered.1
        have rate : v = domainRate list (parseHostname x).2 (parseHostname y).2 := by
          simpa [hostRate, named] using given
        apply asked_kept rest
        rw [after, recorded.here, rate]
      · exact ih _ answered.2 later

theorem answers_faithful (list : Option (List Measurement)) (all : List Query)
    (mirrored : ∀ x y, .interhost x y ∈ all → .interhost y x ∈ all → x ≠ none → y ≠ none →
      Mirrored list (parseHostname x).2 (parseHostname y).2)
    (queries : List Query) (inside : ∀ query ∈ queries, query ∈ all) (t : Throughput) (faithful : t.Faithful list)
    (known : Known all t) : t.answers queries = queries.map (expected list) := by
  induction queries generalizing t with
  | nil => rfl
  | cons query rest ih =>
      have member := inside query List.mem_cons_self
      have next := ask_known all t query member known
      have onwards := fun kept => ih (fun other later => inside other (List.mem_cons_of_mem query later)) _ kept next
      rw [answers, List.map_cons]
      cases query with
      | interdomain x y =>
          obtain ⟨value, kept⟩ := interdomain_faithful t list faithful x y
          rw [onwards kept]
          exact congrArg₂ List.cons (congrArg some value) rfl
      | interhost x y =>
          by_cases anonymous : x = none
          · have same : t.ask (.interhost x y) = (t.minValue, t) := by simp [ask, interhost, anonymous]
            rw [same] at onwards ⊢
            rw [onwards faithful]
            simp [expected, hostRate, anonymous, faithful.minValue]
          · have agrees : ∀ v, t.interhostList y x = some v → Mirrored list (parseHostname x).2 (parseHostname y).2 := by
              intro v opposite
              obtain ⟨answerable, earlier⟩ := known y x v opposite
              exact mirrored x y member earlier anonymous answerable
            obtain ⟨value, kept⟩ := interhost_faithful t list faithful x y agrees
            rw [onwards kept]
            exact congrArg₂ List.cons value rfl

-- The tables are transparent exactly for the queries that do not ask, in both
-- directions, for two hosts whose domains are listed with two values.
theorem memoisation_transparent_iff (list : Option (List Measurement)) (queries : List Query) :
    (new list).answers queries = queries.map (expected list) ↔
      ∀ x y : Hostname, .interhost (some x) (some y) ∈ queries → .interhost (some y) (some x) ∈ queries →
        Mirrored list (parseHostname (some x)).2 (parseHostname (some y)).2 := by
  constructor
  · intro answered x y forth back
    have there := answers_recorded list queries (new list) answered (some x) (some y) (by simp) forth
    have here := answers_recorded list queries (new list) answered (some y) (some x) (by simp) back
    have paired : Paired ((new list).asked queries) :=
      asked_paired queries (new list) fun a b v w read => by simp [new_blank] at read
    exact (mirrored_rate list _ _).mpr (paired _ _ _ _ there here)
  · intro mirrored
    refine answers_faithful list queries ?_ queries (fun _ member => member) (new list) (new_faithful list)
      fun a b v read => by simp [new_blank] at read
    intro x y forth back answerable opposite
    obtain ⟨x, rfl⟩ := Option.ne_none_iff_exists'.mp answerable
    obtain ⟨y, rfl⟩ := Option.ne_none_iff_exists'.mp opposite
    exact mirrored x y forth back

-- With two values listed for the domains a and b, whoever asks for the way
-- back first gets that answer for the way there.
theorem way_back_decides :
    ¬ ∀ (list : Option (List Measurement)) (queries : List Query),
      (new list).answers queries = queries.map (expected list) := by
  intro claimed
  have answered := claimed (some [⟨some ['a'], some ['b'], 1⟩, ⟨some ['b'], some ['a'], 2⟩])
    [.interhost (some ['h', '.', 'b']) (some ['h', '.', 'a']), .interhost (some ['h', '.', 'a']) (some ['h', '.', 'b'])]
  exact absurd answered (by decide +kernel)

end Throughput

end Pwrake
