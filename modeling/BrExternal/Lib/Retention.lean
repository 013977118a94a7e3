import Mathlib.Data.List.Sort

/-!
# Keeping the first `n` of a sorted list

`overflow r n l` is what a policy that keeps `n` elements throws away: the list is
sorted by `r` and everything behind the first `n` goes. An element is thrown away only
when `n` others are at least as good (`le_countP_of_mem_overflow`).
-/

namespace Retention

variable {α : Type} (r : α → α → Prop) [DecidableRel r]

def overflow (n : Nat) (l : List α) : List α := (l.insertionSort r).drop n

variable {r}

theorem mem_of_mem_overflow {n : Nat} {l : List α} {a : α} (h : a ∈ overflow r n l) : a ∈ l :=
  (List.perm_insertionSort r l).subset (List.mem_of_mem_drop h)

theorem le_countP_of_mem_overflow [DecidableEq α] [Std.Total r] [IsTrans α r] {n : Nat} {l : List α}
    (hl : l.Nodup) {a : α} (h : a ∈ overflow r n l) :
    n ≤ l.countP fun b => decide (r b a ∧ b ≠ a) := by
  have hsplit := List.take_append_drop n (l.insertionSort r)
  have hsorted := List.pairwise_insertionSort r l
  have hnodup := (List.perm_insertionSort r l).nodup_iff.2 hl
  rw [← hsplit] at hsorted hnodup
  -- Everything kept is sorted before `a` and is not `a`.
  have hkept : ∀ b ∈ (l.insertionSort r).take n, decide (r b a ∧ b ≠ a) = true := by
    intro b hb
    refine decide_eq_true ⟨(List.pairwise_append.1 hsorted).2.2 b hb a h, ?_⟩
    rintro rfl
    exact (List.disjoint_of_nodup_append hnodup) hb h
  have hlen : ((l.insertionSort r).take n).length = n := by
    rw [List.length_take]
    refine Nat.min_eq_left (Nat.le_of_lt ?_)
    have hpos := List.length_pos_of_mem h
    rw [overflow, List.length_drop] at hpos
    omega
  calc n = ((l.insertionSort r).take n).countP fun b => decide (r b a ∧ b ≠ a) := by
        rw [List.countP_eq_length.2 hkept, hlen]
    _ ≤ (l.insertionSort r).countP fun b => decide (r b a ∧ b ≠ a) :=
        (List.take_sublist n _).countP_le
    _ = l.countP fun b => decide (r b a ∧ b ≠ a) := (List.perm_insertionSort r l).countP_eq _

end Retention
