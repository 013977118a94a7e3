import Mathlib.Data.List.Basic

/-!
# Receivers that are fed in chunks

`f s c = some t`: the receiver in state `s` takes the chunk `c` and is left in `t`. A fold over the
chunks keeps what one chunk keeps, and is the same as one call with the whole stream when a call
can be cut in two anywhere.
-/

namespace Chunks

variable {σ α : Type} {P : σ → Prop} {f : σ → List α → Option σ}

theorem foldlM_ok (hf : ∀ s c, P s → ∃ t, f s c = some t ∧ P t) {s : σ} (h : P s)
    (chunks : List (List α)) : ∃ t, chunks.foldlM f s = some t ∧ P t := by
  induction chunks generalizing s with
  | nil => exact ⟨s, rfl, h⟩
  | cons c chunks ih =>
    obtain ⟨t, ht, hP⟩ := hf s c h
    obtain ⟨u, hu, hP'⟩ := ih hP
    refine ⟨u, ?_, hP'⟩
    rw [List.foldlM_cons, ht]
    exact hu

theorem foldlM_flatten (hnil : ∀ s, f s [] = some s)
    (hf : ∀ s c, P s → ∃ t, f s c = some t ∧ P t ∧ ∀ rest, f s (c ++ rest) = f t rest)
    {s : σ} (h : P s) (chunks : List (List α)) : chunks.foldlM f s = f s chunks.flatten := by
  induction chunks generalizing s with
  | nil => exact (hnil s).symm
  | cons c chunks ih =>
    obtain ⟨t, ht, hP, hcut⟩ := hf s c h
    rw [List.flatten_cons, hcut, ← ih hP, List.foldlM_cons, ht]
    rfl

end Chunks
