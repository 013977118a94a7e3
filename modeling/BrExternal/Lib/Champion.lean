import Mathlib.Data.List.Basic

/-!
# Keeping the greatest

A register that a candidate replaces only when it is strictly greater. After any
sequence of candidates it holds the greatest of them and of its first content, so
its final content does not depend on their order (`run_eq_iff`).
-/

namespace Champion

open Std

variable {α : Type} (cmp : α → α → Ordering)

/-- One candidate against the content of the register. -/
def challenge (c t : α) : α := if cmp c t = .lt then t else c

def run (c : α) (ts : List α) : α := ts.foldl (challenge cmp) c

variable {cmp}

theorem run_cons (c t : α) (ts : List α) : run cmp c (t :: ts) = run cmp (challenge cmp c t) ts :=
  rfl

theorem run_mem (c : α) (ts : List α) : run cmp c ts ∈ c :: ts := by
  induction ts generalizing c with
  | nil => exact List.mem_cons_self ..
  | cons t ts ih =>
    rw [run_cons]
    have hmem := ih (challenge cmp c t)
    unfold challenge at hmem ⊢
    split at hmem
    · rename_i hlt
      rw [if_pos hlt]
      exact List.mem_cons_of_mem _ hmem
    · rename_i hlt
      rw [if_neg hlt]
      rcases List.mem_cons.1 hmem with h | h
      · rw [h]
        exact List.mem_cons_self ..
      · exact List.mem_cons_of_mem _ (List.mem_cons_of_mem _ h)

theorem challenge_ge (cmp : α → α → Ordering) [TransCmp cmp] (c t : α) :
    (cmp c (challenge cmp c t)).isLE ∧ (cmp t (challenge cmp c t)).isLE := by
  have hrefl : ∀ x, (cmp x x).isLE := fun _ => ReflCmp.isLE_rfl
  unfold challenge
  split
  · rename_i hlt
    exact ⟨by rw [hlt]; rfl, hrefl t⟩
  · rename_i hlt
    exact ⟨hrefl c, OrientedCmp.isGE_iff_isLE.1 (Ordering.isGE_iff_ne_lt.2 hlt)⟩

variable [TransCmp cmp]

theorem run_ge (c : α) (ts : List α) : ∀ x ∈ c :: ts, (cmp x (run cmp c ts)).isLE := by
  induction ts generalizing c with
  | nil =>
    intro x hx
    rw [List.mem_singleton.1 hx]
    exact ReflCmp.isLE_rfl
  | cons t ts ih =>
    intro x hx
    rw [run_cons]
    obtain ⟨hc, ht⟩ := challenge_ge cmp c t
    have hnext := ih (challenge cmp c t)
    have hself := hnext _ (List.mem_cons_self ..)
    rcases List.mem_cons.1 hx with rfl | hx
    · exact TransCmp.isLE_trans hc hself
    · rcases List.mem_cons.1 hx with rfl | hx
      · exact TransCmp.isLE_trans ht hself
      · exact hnext x (List.mem_cons_of_mem _ hx)

/-- **The register holds the greatest.** -/
theorem run_eq_iff [LawfulEqCmp cmp] {c m : α} {ts : List α} :
    run cmp c ts = m ↔ m ∈ c :: ts ∧ ∀ x ∈ c :: ts, (cmp x m).isLE := by
  constructor
  · rintro rfl
    exact ⟨run_mem c ts, run_ge c ts⟩
  · rintro ⟨hm, hge⟩
    exact LawfulEqCmp.eq_of_compare
      (OrientedCmp.isLE_antisymm (hge _ (run_mem c ts)) (run_ge c ts m hm))

end Champion
