import Mathlib.Data.List.Basic

/-!
# Association lists

Lookup in a list of keyed values behind a selection of keys, an insertion and a
removal.
-/

namespace Assoc

variable {κ ν : Type} [DecidableEq κ]

/-- The value of `k`, replaced or added. -/
def insert (k : κ) (v : ν) (l : List (κ × ν)) : List (κ × ν) :=
  (k, v) :: l.filter fun p => decide (p.1 ≠ k)

theorem lookup_filter_key (f : κ → Bool) (k : κ) (l : List (κ × ν)) :
    (l.filter fun p => f p.1).lookup k = if f k then l.lookup k else none := by
  induction l with
  | nil => simp
  | cons p l ih =>
    obtain ⟨n, v⟩ := p
    by_cases hk : k = n
    · subst hk
      cases hf : f k with
      | true => simp [hf]
      | false => simpa [hf] using ih
    · have hne : (k == n) = false := beq_false_of_ne hk
      cases hf : f n with
      | true => simpa [hf, List.lookup_cons, hne] using ih
      | false => simpa [hf, List.lookup_cons, hne] using ih

theorem lookup_insert (k j : κ) (v : ν) (l : List (κ × ν)) :
    (insert k v l).lookup j = if j = k then some v else l.lookup j := by
  by_cases h : j = k
  · subst h
    simp [insert]
  · have hne : (j == k) = false := beq_false_of_ne h
    rw [insert, List.lookup_cons, hne, if_neg h, lookup_filter_key fun n => decide (n ≠ k)]
    simp [h]

end Assoc
