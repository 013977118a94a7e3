import Mathlib.Data.List.Basic

/-!
# Runs of a labelled step function

`step s a = some t`: in state `s` the action `a` is enabled and leads to `t`.
`exec step s as` runs a finite sequence of actions, so every interleaving of
the parties of a system is some `as`. `Along` says that every step of a run
meets a condition on the state before it, `Throughout` that every state the
run passes satisfies a predicate. Invariants are proved for one step and
carried over a run by `exec_inv` and `exec_inv_along`.
-/

namespace Lts

variable {σ α : Type} (step : σ → α → Option σ)

/-- Run the actions in order; `none` when one of them is not enabled. -/
def exec : σ → List α → Option σ
  | s, [] => some s
  | s, a :: as =>
    match step s a with
    | none => none
    | some t => exec t as

/-- Every step of the run meets `C`, a condition on the state before it. -/
def Along (C : σ → α → Prop) : σ → List α → Prop
  | _, [] => True
  | s, a :: as => C s a ∧ ∀ t, step s a = some t → Along C t as

/-- Every state of the run, its first and last included, satisfies `P`. -/
def Throughout (P : σ → Prop) : σ → List α → Prop
  | s, [] => P s
  | s, a :: as => P s ∧ ∀ t, step s a = some t → Throughout P t as

variable {step}

theorem exec_cons {s u : σ} {a : α} {as : List α} :
    exec step s (a :: as) = some u ↔ ∃ t, step s a = some t ∧ exec step t as = some u := by
  simp only [exec]
  cases h : step s a <;> simp

theorem exec_append {s u : σ} {as bs : List α} :
    exec step s (as ++ bs) = some u ↔
      ∃ t, exec step s as = some t ∧ exec step t bs = some u := by
  induction as generalizing s with
  | nil => simp [exec]
  | cons a as ih =>
    rw [List.cons_append, exec_cons]
    constructor
    · rintro ⟨t, hs, ht⟩
      obtain ⟨r, h1, h2⟩ := ih.1 ht
      exact ⟨r, exec_cons.2 ⟨t, hs, h1⟩, h2⟩
    · rintro ⟨r, h1, h2⟩
      obtain ⟨t, hs, ht⟩ := exec_cons.1 h1
      exact ⟨t, hs, ih.2 ⟨r, ht, h2⟩⟩

/-- **Invariant rule.** What every step meeting `C` preserves holds at the end
of every run whose steps all meet `C`. -/
theorem exec_inv_along {I : σ → Prop} {C : σ → α → Prop}
    (hstep : ∀ s a t, I s → C s a → step s a = some t → I t) :
    ∀ {as : List α} {s t : σ}, I s → Along step C s as → exec step s as = some t → I t := by
  intro as
  induction as with
  | nil =>
    intro s t hs _ h
    cases h
    exact hs
  | cons a as ih =>
    intro s t hs hC h
    obtain ⟨u, hu, ht⟩ := exec_cons.1 h
    exact ih (hstep s a u hs hC.1 hu) (hC.2 u hu) ht

theorem along_append {C : σ → α → Prop} {s t : σ} {as bs : List α}
    (hs : exec step s as = some t) :
    Along step C s (as ++ bs) ↔ Along step C s as ∧ Along step C t bs := by
  induction as generalizing s with
  | nil =>
    cases hs
    exact ⟨fun h => ⟨trivial, h⟩, fun h => h.2⟩
  | cons a as ih =>
    obtain ⟨u, hu, ht⟩ := exec_cons.1 hs
    simp only [List.cons_append, Along, hu, Option.some.injEq, forall_eq', ih ht, and_assoc]

theorem Along.mono {C D : σ → α → Prop} (hCD : ∀ s a, C s a → D s a) {s : σ} {as : List α}
    (h : Along step C s as) : Along step D s as := by
  induction as generalizing s with
  | nil => trivial
  | cons a as ih => exact ⟨hCD s a h.1, fun t ht => ih (h.2 t ht)⟩

theorem Along.and {C D : σ → α → Prop} {s : σ} {as : List α} (hC : Along step C s as)
    (hD : Along step D s as) : Along step (fun s a => C s a ∧ D s a) s as := by
  induction as generalizing s with
  | nil => trivial
  | cons a as ih => exact ⟨⟨hC.1, hD.1⟩, fun t ht => ih (hC.2 t ht) (hD.2 t ht)⟩

theorem Along.of_forall {C : α → Prop} {as : List α} (h : ∀ a ∈ as, C a) (s : σ) :
    Along step (fun _ => C) s as := by
  induction as generalizing s with
  | nil => trivial
  | cons a as ih =>
    exact ⟨h a (List.mem_cons_self ..),
      fun t _ => ih (fun b hb => h b (List.mem_cons_of_mem _ hb)) t⟩

/-- **Invariant of the history.** What a step extends by its action holds of the whole run. -/
theorem exec_hist {I : List α → σ → Prop} (hstep : ∀ as s a t, I as s → step s a = some t →
    I (as ++ [a]) t) {p : List α} {s t : σ} {as : List α} (hs : I p s)
    (h : exec step s as = some t) : I (p ++ as) t := by
  induction as generalizing s p with
  | nil =>
    cases h
    rwa [List.append_nil]
  | cons a as ih =>
    obtain ⟨u, hu, htail⟩ := exec_cons.1 h
    rw [List.append_cons]
    exact ih (hstep _ _ _ _ hs hu) htail

theorem exec_inv {I : σ → Prop} (hstep : ∀ s a t, I s → step s a = some t → I t)
    {as : List α} {s t : σ} (hs : I s) (h : exec step s as = some t) : I t :=
  exec_inv_along (fun s a t hi _ => hstep s a t hi) hs
    (Along.of_forall (C := fun _ => True) (fun _ _ => trivial) s) h

theorem Throughout.along {P : σ → Prop} {s : σ} {as : List α} (h : Throughout step P s as) :
    Along step (fun s _ => P s) s as := by
  induction as generalizing s with
  | nil => trivial
  | cons a as ih => exact ⟨h.1, fun t ht => ih (h.2 t ht)⟩

end Lts
