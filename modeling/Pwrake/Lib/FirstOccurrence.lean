import Mathlib.Data.List.Basic

set_option autoImplicit false

namespace FirstOccurrence

variable {Key : Type*} [BEq Key] [LawfulBEq Key]

-- The order in which keys first occur in a list survives what drops keys from
-- it, be it by a test or because they occurred before.
theorem idx_filter (keep : Key → Bool) (keys : List Key) (a b : Key) (keepA : keep a = true) (keepB : keep b = true) :
    (keys.filter keep).idxOf a ≤ (keys.filter keep).idxOf b ↔ keys.idxOf a ≤ keys.idxOf b := by
  induction keys with
  | nil => simp
  | cons x rest ih =>
      by_cases kept : keep x = true
      · rw [List.filter_cons_of_pos kept]
        by_cases isA : x = a
        · simp [List.idxOf_cons, isA]
        · by_cases isB : x = b
          · subst isB
            simp [isA]
          · simpa [List.idxOf_cons, isA, isB] using ih
      · have notA : x ≠ a := fun same => kept (same ▸ keepA)
        have notB : x ≠ b := fun same => kept (same ▸ keepB)
        rw [List.filter_cons_of_neg kept]
        simpa [List.idxOf_cons, notA, notB] using ih

theorem idx_erase_dups (keys : List Key) (a b : Key) :
    keys.eraseDups.idxOf a ≤ keys.eraseDups.idxOf b ↔ keys.idxOf a ≤ keys.idxOf b := by
  induction size : keys.length using Nat.strongRecOn generalizing keys with
  | _ n ih =>
      cases keys with
      | nil => simp
      | cons x rest =>
          rw [List.eraseDups_cons]
          by_cases isA : x = a
          · simp [List.idxOf_cons, isA]
          · by_cases isB : x = b
            · subst isB
              simp [isA]
            · have shorter : (rest.filter fun y => !y == x).length < n := by
                have bound := List.length_filter_le (fun y => !y == x) rest
                simp only [List.length_cons] at size
                omega
              have inner := ih _ shorter (rest.filter fun y => !y == x) rfl
              have outer := idx_filter (fun y => !y == x) rest a b (by simpa using Ne.symm isA) (by simpa using Ne.symm isB)
              simpa [List.idxOf_cons, isA, isB] using inner.trans outer

theorem idx_map {Image : Type*} [BEq Image] [LawfulBEq Image] (f : Key → Image) (injective : Function.Injective f) (keys : List Key)
    (a : Key) : (keys.map f).idxOf (f a) = keys.idxOf a := by
  induction keys with
  | nil => rfl
  | cons x rest ih =>
      by_cases same : x = a
      · simp [same]
      · have apart : f x ≠ f a := fun both => same (injective both)
        simp [List.idxOf_cons_ne _ same, List.idxOf_cons_ne _ apart, ih]

end FirstOccurrence
