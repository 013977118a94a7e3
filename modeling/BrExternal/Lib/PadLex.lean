import Mathlib.Data.List.Basic

/-!
# Padded lexicographic comparison

`padCmp cmp z` compares two lists element by element as if both were continued
forever by the element `z`: a list that ends is compared through `z`, which may
sort above or below what the longer list goes on with. It is a transitive
comparison whenever `cmp` is (the instances below), and it decides on the first
position where the padded lists differ (`padCmp_step`). `via cmp f` compares by
a key.
-/

namespace PadLex

open Std

variable {α : Type} (cmp : α → α → Ordering) (z : α)

/-- The padding alone against a list. -/
def padNil : List α → Ordering
  | [] => .eq
  | b :: bs => (cmp z b).then (padNil bs)

/-- Element by element, both lists continued by `z`. -/
def padCmp : List α → List α → Ordering
  | [], bs => padNil cmp z bs
  | a :: as, bs => (cmp a (bs.headD z)).then (padCmp as bs.tail)

variable {cmp z}

theorem padCmp_cons_cons (a b : α) (as bs : List α) :
    padCmp cmp z (a :: as) (b :: bs) = (cmp a b).then (padCmp cmp z as bs) := rfl

theorem padCmp_step [ReflCmp cmp] (l m : List α) :
    padCmp cmp z l m = (cmp (l.headD z) (m.headD z)).then (padCmp cmp z l.tail m.tail) := by
  cases l with
  | cons a as => rfl
  | nil =>
    cases m with
    | cons b bs => rfl
    | nil => simp [padCmp, padNil, ReflCmp.compare_self]

theorem padCmp_swap [OrientedCmp cmp] (n : Nat) : ∀ l m : List α, l.length ≤ n → m.length ≤ n →
    padCmp cmp z l m = (padCmp cmp z m l).swap := by
  induction n with
  | zero =>
    intro l m hl hm
    rw [List.length_eq_zero_iff.1 (Nat.le_zero.1 hl), List.length_eq_zero_iff.1 (Nat.le_zero.1 hm)]
    rfl
  | succ n ih =>
    intro l m hl hm
    have hhead : cmp (l.headD z) (m.headD z) = (cmp (m.headD z) (l.headD z)).swap :=
      OrientedCmp.eq_swap
    rw [padCmp_step l m, padCmp_step m l, hhead, Ordering.swap_then,
      ih l.tail m.tail (by rw [List.length_tail]; omega) (by rw [List.length_tail]; omega)]

instance [OrientedCmp cmp] : OrientedCmp (padCmp cmp z) where
  eq_swap {l m} := padCmp_swap (max l.length m.length) l m (by omega) (by omega)

theorem padCmp_isLE_trans [TransCmp cmp] (n : Nat) : ∀ l m k : List α,
    l.length ≤ n → m.length ≤ n → k.length ≤ n →
    (padCmp cmp z l m).isLE → (padCmp cmp z m k).isLE → (padCmp cmp z l k).isLE := by
  induction n with
  | zero =>
    intro l m k hl hm hk _ _
    rw [List.length_eq_zero_iff.1 (Nat.le_zero.1 hl), List.length_eq_zero_iff.1 (Nat.le_zero.1 hk)]
    rfl
  | succ n ih =>
    intro l m k hl hm hk h1 h2
    have htail : (padCmp cmp z l.tail m.tail).isLE → (padCmp cmp z m.tail k.tail).isLE →
        (padCmp cmp z l.tail k.tail).isLE :=
      ih _ _ _ (by rw [List.length_tail]; omega) (by rw [List.length_tail]; omega)
        (by rw [List.length_tail]; omega)
    rw [padCmp_step, Ordering.isLE_then_iff_and] at h1 h2 ⊢
    refine ⟨TransCmp.isLE_trans h1.1 h2.1, ?_⟩
    -- the first position that separates either pair separates `l` from `k`
    rcases h1.2 with h1' | h1'
    · exact .inl (TransCmp.lt_of_lt_of_isLE h1' h2.1)
    · rcases h2.2 with h2' | h2'
      · exact .inl (TransCmp.lt_of_isLE_of_lt h1.1 h2')
      · exact .inr (htail h1' h2')

instance [TransCmp cmp] : TransCmp (padCmp cmp z) where
  isLE_trans {l m k} h1 h2 :=
    padCmp_isLE_trans (max l.length (max m.length k.length)) l m k (by omega) (by omega) (by omega)
      h1 h2

/-! ## Comparison through a key -/

def via {β : Type} (cmp : α → α → Ordering) (f : β → α) (a b : β) : Ordering := cmp (f a) (f b)

instance {β : Type} {f : β → α} [OrientedCmp cmp] : OrientedCmp (via cmp f) where
  eq_swap {a b} := show cmp (f a) (f b) = (cmp (f b) (f a)).swap from OrientedCmp.eq_swap

instance {β : Type} {f : β → α} [TransCmp cmp] : TransCmp (via cmp f) where
  isLE_trans {a b c} (h1 : (cmp (f a) (f b)).isLE) (h2 : (cmp (f b) (f c)).isLE) :=
    show (cmp (f a) (f c)).isLE from TransCmp.isLE_trans h1 h2

end PadLex
