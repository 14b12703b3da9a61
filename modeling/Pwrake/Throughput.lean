import Mathlib.Algebra.Order.Field.Rat
import Mathlib.Data.List.Induction
import Mathlib.Logic.Function.Basic
import Mathlib.Tactic.NormNum

set_option autoImplicit false

namespace Pwrake

abbrev Hostname := List Char

abbrev Domain := Option (List Char)

structure Measurement where
  x : Domain
  y : Domain
  v : ℚ
deriving DecidableEq

-- The two tables remember what was computed before. Floats are taken as exact
-- rationals. minValue is nil after an empty list.
structure Throughput where
  interdomainList : Domain → Domain → Option ℚ
  interhostList : Option Hostname → Option Hostname → Option ℚ
  minValue : Option ℚ

namespace Throughput

def remember {Key : Type*} [DecidableEq Key] (table : Key → Key → Option ℚ) (x y : Key) (v : ℚ) :
    Key → Key → Option ℚ :=
  Function.update table x (Function.update (table x) y (some v))

def enter (table : Domain → Domain → Option ℚ) (entry : Measurement) : Domain → Domain → Option ℚ :=
  remember table entry.x entry.y entry.v

def new : Option (List Measurement) → Throughput
  | none => ⟨fun _ _ => none, fun _ _ => none, some 1⟩
  | some list => ⟨list.foldl enter fun _ _ => none, fun _ _ => none, (list.map Measurement.v).min?⟩

-- The dot of the second group stops at the end of a line, that of the first
-- does not.
def parseHostname : Option Hostname → Option (List Char) × Domain
  | none => (none, none)
  | some host =>
      (some (host.takeWhile (· ≠ '.')), some (((host.dropWhile (· ≠ '.')).drop 1).takeWhile (· ≠ '\n')))

def interdomain (t : Throughput) (x y : Domain) : ℚ × Throughput :=
  match t.interdomainList x y with
  | some v => (v, t)
  | none =>
      let v := (t.interdomainList y x).getD (if x = y then 1 else 1 / 10)
      (v, { t with interdomainList := remember t.interdomainList x y v })

def interhost (t : Throughput) (x y : Option Hostname) : Option ℚ × Throughput :=
  if x = none then (t.minValue, t)
  else
    match t.interhostList x y with
    | some v => (some v, t)
    | none =>
        match t.interhostList y x with
        | some v => (some v, { t with interhostList := remember t.interhostList x y v })
        | none =>
            let (v, t) := t.interdomain (parseHostname x).2 (parseHostname y).2
            (some v, { t with interhostList := remember t.interhostList x y v })

-- What a table without memory would say.
def listed (list : Option (List Measurement)) (x y : Domain) : Option ℚ :=
  (((list.getD []).filter fun entry => entry.x = x ∧ entry.y = y).getLast?).map Measurement.v

def domainRate (list : Option (List Measurement)) (x y : Domain) : ℚ :=
  ((listed list x y).or (listed list y x)).getD (if x = y then 1 else 1 / 10)

def hostRate (list : Option (List Measurement)) (x y : Option Hostname) : Option ℚ :=
  if x = none then (new list).minValue else some (domainRate list (parseHostname x).2 (parseHostname y).2)

-- The order of the arguments matters only to a pair that is listed both ways.
def Mirrored (list : Option (List Measurement)) (x y : Domain) : Prop :=
  ∀ v w, listed list x y = some v → listed list y x = some w → v = w

theorem mirrored_rate (list : Option (List Measurement)) (x y : Domain) :
    Mirrored list x y ↔ domainRate list x y = domainRate list y x := by
  unfold Mirrored domainRate
  cases listed list x y <;> cases listed list y x <;> simp [eq_comm]

theorem unlisted_mirrored (x y : Domain) : Mirrored none x y := by
  intro v w forth
  simp [listed] at forth

theorem host_rate_positive (x y : Option Hostname) : 0 < (hostRate none x y).getD 0 := by
  unfold hostRate
  split
  · simp [new]
  · simp only [domainRate, listed, Option.getD_none, Option.getD_some, List.filter_nil, List.getLast?_nil,
      Option.map_none, Option.or_none]
    split <;> norm_num

theorem remember_cases {Key : Type*} [DecidableEq Key] (table : Key → Key → Option ℚ) (x y a b : Key) (v w : ℚ)
    (read : remember table x y v a b = some w) : (a = x ∧ b = y ∧ w = v) ∨ (¬ (a = x ∧ b = y) ∧ table a b = some w) := by
  unfold remember at read
  by_cases row : a = x
  · subst row
    rw [Function.update_self] at read
    by_cases column : b = y
    · subst column
      rw [Function.update_self] at read
      exact .inl ⟨rfl, rfl, (Option.some.inj read).symm⟩
    · rw [Function.update_of_ne column] at read
      exact .inr ⟨fun both => column both.2, read⟩
  · rw [Function.update_of_ne row] at read
    exact .inr ⟨fun both => row both.1, read⟩

theorem remember_same {Key : Type*} [DecidableEq Key] (table : Key → Key → Option ℚ) (x y : Key) (v : ℚ) :
    remember table x y v x y = some v := by
  simp [remember]

theorem remember_other {Key : Type*} [DecidableEq Key] (table : Key → Key → Option ℚ) (x y a b : Key) (v : ℚ)
    (different : ¬ (a = x ∧ b = y)) : remember table x y v a b = table a b := by
  unfold remember
  by_cases row : a = x
  · subst row
    have column : b ≠ y := fun same => different ⟨rfl, same⟩
    rw [Function.update_self, Function.update_of_ne column]
  · rw [Function.update_of_ne row]

-- initialize overwrites, so the last entry of the list counts.
theorem entered_listed (list : List Measurement) (x y : Domain) :
    list.foldl enter (fun _ _ => none) x y = listed (some list) x y := by
  induction list using List.reverseRecOn with
  | nil => rfl
  | append_singleton list entry ih =>
      rw [List.foldl_append, List.foldl_cons, List.foldl_nil, enter]
      by_cases same : x = entry.x ∧ y = entry.y
      · rw [same.1, same.2, remember_same]
        simp [listed, List.filter_append]
      · have skipped : ¬ (entry.x = x ∧ entry.y = y) := fun both => same ⟨both.1.symm, both.2.symm⟩
        rw [remember_other _ _ _ _ _ _ same, ih]
        simp [listed, List.filter_append, skipped]

-- What every memo state of a list keeps. Both hosts of an entry were asked
-- for, so the entry may hold the rate of either direction.
structure Faithful (t : Throughput) (list : Option (List Measurement)) : Prop where
  interdomain : ∀ x y v, t.interdomainList x y = some v → v = domainRate list x y
  listed : ∀ x y, t.interdomainList x y = none → listed list x y = none
  interhost : ∀ x y v, t.interhostList x y = some v → v = domainRate list (parseHostname x).2 (parseHostname y).2
  minValue : t.minValue = (new list).minValue

theorem new_faithful (list : Option (List Measurement)) : (new list).Faithful list := by
  have table : ∀ x y, (new list).interdomainList x y = listed list x y := by
    intro x y
    cases list with
    | none => rfl
    | some list => exact entered_listed list x y
  refine ⟨fun x y v read => ?_, fun x y read => (table x y).symm.trans read, fun x y v read => ?_, rfl⟩
  · rw [table] at read
    simp [domainRate, read]
  · cases list <;> simp [new] at read

theorem interdomain_faithful (t : Throughput) (list : Option (List Measurement)) (faithful : t.Faithful list)
    (x y : Domain) : (t.interdomain x y).1 = domainRate list x y ∧ (t.interdomain x y).2.Faithful list := by
  unfold interdomain
  cases known : t.interdomainList x y with
  | some v => exact ⟨faithful.interdomain x y v known, faithful⟩
  | none =>
      have unlisted := faithful.listed x y known
      have value : (t.interdomainList y x).getD (if x = y then 1 else 1 / 10) = domainRate list x y := by
        cases mirrored : t.interdomainList y x with
        | none => simp [domainRate, unlisted, faithful.listed y x mirrored]
        | some v =>
            have oneWay : Mirrored list x y := fun v w forth _ => by simp [unlisted] at forth
            exact (faithful.interdomain y x v mirrored).trans ((mirrored_rate list x y).mp oneWay).symm
      simp only [value, true_and]
      refine ⟨fun a b v read => ?_, fun a b read => ?_, faithful.interhost, faithful.minValue⟩
      · rcases remember_cases _ x y a b _ v read with ⟨rfl, rfl, rfl⟩ | ⟨-, earlier⟩
        · rfl
        · exact faithful.interdomain a b v earlier
      · by_cases same : a = x ∧ b = y
        · rw [same.1, same.2]
          exact unlisted
        · exact faithful.listed a b ((remember_other _ x y a b _ same).symm.trans read)

-- The answer of interhost is the rate wherever an entry for the opposite
-- direction would give the same.
theorem interhost_faithful (t : Throughput) (list : Option (List Measurement)) (faithful : t.Faithful list)
    (x y : Option Hostname)
    (agrees : ∀ v, t.interhostList y x = some v → Mirrored list (parseHostname x).2 (parseHostname y).2) :
    (t.interhost x y).1 = hostRate list x y ∧ (t.interhost x y).2.Faithful list := by
  unfold interhost hostRate
  by_cases anonymous : x = none
  · rw [if_pos anonymous, if_pos anonymous]
    exact ⟨faithful.minValue, faithful⟩
  · rw [if_neg anonymous, if_neg anonymous]
    have stored : ∀ now : Throughput, now.Faithful list →
        ({ now with
          interhostList :=
            remember now.interhostList x y (domainRate list (parseHostname x).2 (parseHostname y).2) } : Throughput).Faithful
          list := by
      intro now kept
      refine ⟨kept.interdomain, kept.listed, fun a b v read => ?_, kept.minValue⟩
      rcases remember_cases _ x y a b _ v read with ⟨rfl, rfl, rfl⟩ | ⟨-, earlier⟩
      · rfl
      · exact kept.interhost a b v earlier
    cases known : t.interhostList x y with
    | some v => exact ⟨congrArg some (faithful.interhost x y v known), faithful⟩
    | none =>
        cases opposite : t.interhostList y x with
        | some v =>
            have same := (mirrored_rate list _ _).mp (agrees v opposite)
            have value : v = domainRate list (parseHostname x).2 (parseHostname y).2 :=
              (faithful.interhost y x v opposite).trans same.symm
            subst value
            exact ⟨rfl, stored t faithful⟩
        | none =>
            obtain ⟨value, kept⟩ := interdomain_faithful t list faithful (parseHostname x).2 (parseHostname y).2
            simp only [value]
            exact ⟨trivial, stored _ kept⟩

end Throughput

end Pwrake
