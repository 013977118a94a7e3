import Mathlib.Data.List.Infix
import Mathlib.Data.List.Basic

/-!
# Globs

A glob is a list of items, each one symbol or `many`, which stands for any word. Symbols denote
sets of letters through `sat`, so a glob can itself be the symbol of another glob. `inter` decides
whether two globs share a word. `leads` decides whether every word of a glob starts inside a given
sequence of symbols.
-/

namespace Glob

inductive Item (σ : Type*) where
  | one (s : σ)
  | many
  deriving DecidableEq, Repr

variable {σ τ α : Type*}

/-- The words of a glob, whose symbols stand for the letters `sat` gives them. -/
def Matches (sat : σ → α → Prop) : List (Item σ) → List α → Prop
  | [], w => w = []
  | .one s :: g, w => ∃ a v, w = a :: v ∧ sat s a ∧ Matches sat g v
  | .many :: g, w => ∃ u v, w = u ++ v ∧ Matches sat g v

/-! ## Words of a glob -/

section Words

variable {sat : σ → α → Prop}

theorem matches_one_cons {s : σ} {g : List (Item σ)} {a : α} {w : List α} :
    Matches sat (.one s :: g) (a :: w) ↔ sat s a ∧ Matches sat g w := by
  constructor
  · rintro ⟨b, v, hw, hb, hv⟩
    cases hw
    exact ⟨hb, hv⟩
  · rintro ⟨ha, hw⟩
    exact ⟨a, w, rfl, ha, hw⟩

theorem matches_many_cons {g : List (Item σ)} {a : α} {w : List α} :
    Matches sat (.many :: g) (a :: w) ↔ Matches sat g (a :: w) ∨ Matches sat (.many :: g) w := by
  constructor
  · rintro ⟨u, v, hw, hv⟩
    cases u with
    | nil => exact .inl (hw ▸ hv)
    | cons b u =>
      cases hw
      exact .inr ⟨u, v, rfl, hv⟩
  · rintro (hw | ⟨u, v, rfl, hv⟩)
    · exact ⟨[], a :: w, rfl, hw⟩
    · exact ⟨a :: u, v, rfl, hv⟩

theorem matches_many {g : List (Item σ)} {w : List α} (u : List α) (h : Matches sat g w) :
    Matches sat (.many :: g) (u ++ w) :=
  ⟨u, w, rfl, h⟩

theorem matches_nil {g : List (Item σ)} : Matches sat g [] ↔ ∀ i ∈ g, i = .many := by
  induction g with
  | nil => simp [Matches]
  | cons i g ih =>
    cases i with
    | one s => simp [Matches]
    | many => simp [Matches, ih]

theorem matches_of_all_many {g : List (Item σ)} (hne : g ≠ []) (h : ∀ i ∈ g, i = .many)
    (w : List α) : Matches sat g w := by
  cases g with
  | nil => exact absurd rfl hne
  | cons i g =>
    obtain rfl := h i (List.mem_cons_self ..)
    have hg : Matches sat g [] := matches_nil.2 fun j hj => h j (List.mem_cons_of_mem _ hj)
    simpa using matches_many w hg

theorem matches_append {g h : List (Item σ)} {u v : List α} (hg : Matches sat g u)
    (hh : Matches sat h v) : Matches sat (g ++ h) (u ++ v) := by
  induction g generalizing u with
  | nil =>
    cases hg
    exact hh
  | cons i g ih =>
    cases i with
    | one s =>
      obtain ⟨a, t, rfl, ha, ht⟩ := hg
      exact matches_one_cons.2 ⟨ha, ih ht⟩
    | many =>
      obtain ⟨p, t, rfl, ht⟩ := hg
      rw [List.append_assoc]
      exact matches_many p (ih ht)

theorem exists_matches (hsat : ∀ s, ∃ a, sat s a) (g : List (Item σ)) : ∃ w, Matches sat g w := by
  induction g with
  | nil => exact ⟨[], rfl⟩
  | cons i g ih =>
    obtain ⟨w, hw⟩ := ih
    cases i with
    | one s =>
      obtain ⟨a, ha⟩ := hsat s
      exact ⟨a :: w, matches_one_cons.2 ⟨ha, hw⟩⟩
    | many => exact ⟨w, matches_many [] hw⟩

theorem exists_matches_ne_nil [Nonempty α] (hsat : ∀ s, ∃ a, sat s a) {g : List (Item σ)}
    (hne : g ≠ []) : ∃ w, w ≠ [] ∧ Matches sat g w := by
  obtain ⟨w, hw⟩ := exists_matches hsat g
  by_cases hnil : w = []
  · subst hnil
    obtain ⟨a⟩ := ‹Nonempty α›
    exact ⟨[a], List.cons_ne_nil _ _, matches_of_all_many hne (matches_nil.1 hw) _⟩
  · exact ⟨w, hnil, hw⟩

/-- What follows a letter in a word of `g` is a word of a suffix of `g`. -/
theorem exists_suffix_of_matches_cons {g : List (Item σ)} {a : α} {w : List α}
    (h : Matches sat g (a :: w)) : ∃ g', g' <:+ g ∧ Matches sat g' w := by
  induction g with
  | nil => cases h
  | cons i g ih =>
    cases i with
    | one s => exact ⟨g, List.suffix_cons _ _, (matches_one_cons.1 h).2⟩
    | many =>
      rcases matches_many_cons.1 h with h | h
      · obtain ⟨g', hg', hw⟩ := ih h
        exact ⟨g', hg'.trans (List.suffix_cons _ _), hw⟩
      · exact ⟨_, List.suffix_refl _, h⟩

theorem exists_suffix_of_matches_append {g : List (Item σ)} {u w : List α}
    (h : Matches sat g (u ++ w)) : ∃ g', g' <:+ g ∧ Matches sat g' w := by
  induction u generalizing g with
  | nil => exact ⟨g, List.suffix_refl _, h⟩
  | cons a u ih =>
    obtain ⟨g₁, hg₁, h₁⟩ := exists_suffix_of_matches_cons h
    obtain ⟨g₂, hg₂, h₂⟩ := ih h₁
    exact ⟨g₂, hg₂.trans hg₁, h₂⟩

end Words

/-! ## Membership -/

section Accepts

variable (ok : σ → α → Bool)

def accepts : List (Item σ) → List α → Bool
  | [], w => w.isEmpty
  | .one _ :: _, [] => false
  | .one s :: g, a :: w => ok s a && accepts g w
  | .many :: g, w => w.tails.any (accepts g)

variable {ok}

theorem accepts_iff {g : List (Item σ)} {w : List α} :
    accepts ok g w = true ↔ Matches (fun s a => ok s a = true) g w := by
  induction g generalizing w with
  | nil => exact List.isEmpty_iff
  | cons i g ih =>
    cases i with
    | one s =>
      cases w with
      | nil => simp [accepts, Matches]
      | cons a w => rw [accepts, Bool.and_eq_true, ih, matches_one_cons]
    | many =>
      simp only [accepts, List.any_eq_true, List.mem_tails, ih]
      constructor
      · rintro ⟨v, ⟨u, rfl⟩, hv⟩
        exact matches_many u hv
      · rintro ⟨u, v, rfl, hv⟩
        exact ⟨v, List.suffix_append u v, hv⟩

end Accepts

/-! ## Common words -/

section Inter

variable (meet : σ → τ → Bool)

/-- `s` followed by what `rest` accepts shares a word with the glob. -/
def interOne (s : σ) (rest : List (Item τ) → Bool) : List (Item τ) → Bool
  | [] => false
  | .one t :: h => meet s t && rest h
  | .many :: h => rest (.many :: h) || interOne s rest h

/-- Whether two globs share a word. -/
def inter : List (Item σ) → List (Item τ) → Bool
  | [], h => h.all fun | .one _ => false | .many => true
  | .one s :: g, h => interOne meet s (inter g) h
  | .many :: g, h => h.tails.any (inter g)

variable {meet} {sat : σ → α → Prop} {sat' : τ → α → Prop}
  (hmeet : ∀ s t, meet s t = true ↔ ∃ a, sat s a ∧ sat' t a)
  (hsat : ∀ s, ∃ a, sat s a) (hsat' : ∀ t, ∃ a, sat' t a)
include hmeet hsat

theorem interOne_iff {s : σ} {g : List (Item σ)} {rest : List (Item τ) → Bool}
    (hrest : ∀ h, rest h = true ↔ ∃ w, Matches sat g w ∧ Matches sat' h w) (h : List (Item τ)) :
    interOne meet s rest h = true ↔ ∃ w, Matches sat (.one s :: g) w ∧ Matches sat' h w := by
  induction h with
  | nil =>
    simp only [interOne, Bool.false_eq_true, false_iff]
    rintro ⟨w, ⟨a, v, rfl, -⟩, hw⟩
    cases hw
  | cons i h ih =>
    cases i with
    | one t =>
      simp only [interOne, Bool.and_eq_true, hmeet, hrest]
      constructor
      · rintro ⟨⟨a, ha, ha'⟩, w, hw, hw'⟩
        exact ⟨a :: w, matches_one_cons.2 ⟨ha, hw⟩, matches_one_cons.2 ⟨ha', hw'⟩⟩
      · rintro ⟨w, ⟨a, v, rfl, ha, hv⟩, hw⟩
        obtain ⟨ha', hv'⟩ := matches_one_cons.1 hw
        exact ⟨⟨a, ha, ha'⟩, v, hv, hv'⟩
    | many =>
      -- the letter of `s` is either the first letter `many` takes or `many` takes none
      simp only [interOne, Bool.or_eq_true, hrest, ih]
      constructor
      · rintro (⟨w, hw, hw'⟩ | ⟨w, hw, hw'⟩)
        · obtain ⟨a, ha⟩ := hsat s
          exact ⟨a :: w, matches_one_cons.2 ⟨ha, hw⟩, matches_many_cons.2 (.inr hw')⟩
        · exact ⟨w, hw, matches_many [] hw'⟩
      · rintro ⟨w, ⟨a, v, rfl, ha, hv⟩, hw⟩
        rcases matches_many_cons.1 hw with hw | hw
        · exact .inr ⟨a :: v, matches_one_cons.2 ⟨ha, hv⟩, hw⟩
        · exact .inl ⟨v, hv, hw⟩

include hsat'

theorem inter_iff (g : List (Item σ)) (h : List (Item τ)) :
    inter meet g h = true ↔ ∃ w, Matches sat g w ∧ Matches sat' h w := by
  induction g generalizing h with
  | nil =>
    have hnil : inter meet [] h = true ↔ ∀ i ∈ h, i = .many := by
      simp only [inter, List.all_eq_true]
      refine forall₂_congr fun i _ => ?_
      cases i <;> simp
    have hword : Matches sat' h [] ↔ ∀ i ∈ h, i = .many := matches_nil
    rw [hnil, ← hword]
    exact ⟨fun h => ⟨[], rfl, h⟩, fun ⟨w, hw, hw'⟩ => hw ▸ hw'⟩
  | cons i g ih =>
    cases i with
    | one s => exact interOne_iff hmeet hsat ih h
    | many =>
      simp only [inter, List.any_eq_true, List.mem_tails, ih]
      constructor
      · rintro ⟨h', ⟨p, rfl⟩, w, hw, hw'⟩
        obtain ⟨u, hu⟩ := exists_matches hsat' p
        exact ⟨u ++ w, matches_many u hw, matches_append hu hw'⟩
      · rintro ⟨w, ⟨u, v, rfl, hv⟩, hw⟩
        obtain ⟨h', hh', hv'⟩ := exists_suffix_of_matches_append hw
        exact ⟨h', hh', v, hv, hv'⟩

/-- Globs with at least one item that share a word share a nonempty one. -/
theorem inter_iff_ne_nil [Nonempty α] {g : List (Item σ)} {h : List (Item τ)} (hg : g ≠ [])
    (hh : h ≠ []) :
    inter meet g h = true ↔ ∃ w, w ≠ [] ∧ Matches sat g w ∧ Matches sat' h w := by
  rw [inter_iff hmeet hsat hsat']
  constructor
  · rintro ⟨w, hw, hw'⟩
    by_cases hne : w = []
    · subst hne
      obtain ⟨a⟩ := ‹Nonempty α›
      exact ⟨[a], List.cons_ne_nil _ _, matches_of_all_many hg (matches_nil.1 hw) _,
        matches_of_all_many hh (matches_nil.1 hw') _⟩
    · exact ⟨w, hne, hw, hw'⟩
  · rintro ⟨w, -, hw, hw'⟩
    exact ⟨w, hw, hw'⟩

end Inter

/-! ## Words under a sequence of symbols -/

section Leads

variable (le : σ → τ → Bool)

/-- The glob starts with single symbols that lie under `ps`, one after the other. -/
def leads : List τ → List (Item σ) → Bool
  | [], _ => true
  | p :: ps, .one s :: g => le s p && leads ps g
  | _ :: _, _ => false

/-- The glob whose words start with letters of `ps`. -/
def under (ps : List τ) : List (Item τ) := ps.map .one ++ [.many]

variable {le} {sat : σ → α → Prop} {sat' : τ → α → Prop}

theorem matches_under_nil (w : List α) : Matches sat' (under []) w :=
  ⟨w, [], (List.append_nil w).symm, rfl⟩

/-- A long enough run of a letter that the last symbol refuses leaves `under ps`. -/
theorem not_matches_under_replicate {ps : List τ} (hps : ps ≠ []) {b : α}
    (hb : ¬ sat' (ps.getLast hps) b) (w : List α) :
    ¬ Matches sat' (under ps) (List.replicate ps.length b ++ w) := by
  induction ps with
  | nil => exact absurd rfl hps
  | cons p ps ih =>
    rintro ⟨a, v, hw, ha, hv⟩
    cases hw
    cases ps with
    | nil => exact hb ha
    | cons q ps => exact ih (List.cons_ne_nil _ _) hb hv

theorem matches_under_of_leads {ps : List τ}
    (hle : ∀ p ∈ ps, ∀ s, le s p = true → ∀ a, sat s a → sat' p a) {g : List (Item σ)}
    (h : leads le ps g = true) {w : List α} (hw : Matches sat g w) : Matches sat' (under ps) w := by
  induction ps generalizing g w with
  | nil => exact matches_under_nil w
  | cons p ps ih =>
    cases g with
    | nil => cases h
    | cons i g =>
      cases i with
      | many => cases h
      | one s =>
        obtain ⟨hs, hg⟩ := Bool.and_eq_true_iff.1 h
        obtain ⟨a, v, rfl, ha, hv⟩ := hw
        exact ⟨a, v, rfl, hle p (List.mem_cons_self ..) s hs a ha,
          ih (fun q hq => hle q (List.mem_cons_of_mem _ hq)) hg hv⟩

/-- A glob all of whose nonempty words start with letters of `ps` names them one by one: a `many`
among its first items could be filled until the last symbol of `ps` meets a letter it refuses. -/
theorem leads_of_matches_under (hsat : ∀ s, ∃ a, sat s a) {ps : List τ} (hps : ps ≠ [])
    (hle : ∀ p ∈ ps, ∀ s, (∀ a, sat s a → sat' p a) → le s p = true)
    (hlast : ∃ b, ¬ sat' (ps.getLast hps) b) {g : List (Item σ)} (hne : g ≠ [])
    (h : ∀ w, w ≠ [] → Matches sat g w → Matches sat' (under ps) w) : leads le ps g = true := by
  induction ps generalizing g with
  | nil => exact absurd rfl hps
  | cons p ps ih =>
    cases g with
    | nil => exact absurd rfl hne
    | cons i g =>
      obtain ⟨v, hv⟩ := exists_matches hsat g
      cases i with
      | many =>
        obtain ⟨b, hb⟩ := hlast
        have hw := h (List.replicate (ps.length + 1) b ++ v) (List.cons_ne_nil _ _)
          (matches_many _ hv)
        exact absurd hw (not_matches_under_replicate hps hb v)
      | one s =>
        have hhead : le s p = true := by
          refine hle p (List.mem_cons_self ..) s fun a ha => ?_
          exact (matches_one_cons.1 (h (a :: v) (List.cons_ne_nil _ _)
            (matches_one_cons.2 ⟨ha, hv⟩))).1
        refine Bool.and_eq_true_iff.2 ⟨hhead, ?_⟩
        obtain ⟨a, ha⟩ := hsat s
        have htail : ∀ w, Matches sat g w → Matches sat' (under ps) w := fun w hw =>
          (matches_one_cons.1 (h (a :: w) (List.cons_ne_nil _ _)
            (matches_one_cons.2 ⟨ha, hw⟩))).2
        cases ps with
        | nil => rfl
        | cons q ps =>
          refine ih (List.cons_ne_nil _ _) (fun r hr => hle r (List.mem_cons_of_mem _ hr)) hlast ?_
            fun w _ hw => htail w hw
          rintro rfl
          obtain ⟨_, _, hnil, -⟩ := htail [] rfl
          cases hnil

end Leads

/-! ## Literals -/

section Literal

theorem matches_literal_append {sat : σ → α → Prop} {f : α → σ} (hf : ∀ a b, sat (f a) b ↔ a = b)
    {l w : List α} {g : List (Item σ)} :
    Matches sat (l.map (fun a => .one (f a)) ++ g) w ↔ ∃ v, w = l ++ v ∧ Matches sat g v := by
  induction l generalizing w with
  | nil => exact ⟨fun h => ⟨w, rfl, h⟩, fun ⟨v, hv, h⟩ => hv ▸ h⟩
  | cons a l ih =>
    constructor
    · rintro ⟨b, v, rfl, hb, hv⟩
      obtain rfl := (hf a b).1 hb
      obtain ⟨u, rfl, hu⟩ := ih.1 hv
      exact ⟨u, rfl, hu⟩
    · rintro ⟨v, rfl, hv⟩
      exact matches_one_cons.2 ⟨(hf a a).2 rfl, ih.2 ⟨v, rfl, hv⟩⟩

theorem matches_map_one {l w : List α} : Matches Eq (l.map .one) w ↔ w = l := by
  have h := matches_literal_append (f := id) (fun a b : α => Iff.rfl) (l := l) (w := w) (g := [])
  rw [List.append_nil] at h
  refine h.trans ?_
  constructor
  · rintro ⟨v, rfl, rfl⟩
    exact List.append_nil l
  · rintro rfl
    exact ⟨[], (List.append_nil _).symm, rfl⟩

theorem exists_map_one {g : List (Item α)} (h : Item.many ∉ g) :
    ∃ l : List α, g = l.map .one := by
  induction g with
  | nil => exact ⟨[], rfl⟩
  | cons i g ih =>
    obtain ⟨hi, hg⟩ := not_or.1 (mt List.mem_cons.2 h)
    obtain ⟨l, rfl⟩ := ih hg
    cases i with
    | one a => exact ⟨a :: l, rfl⟩
    | many => exact absurd rfl hi

/-- A glob over single letters with one nonempty word only is that word, letter by letter. -/
theorem eq_map_one_of_matches [Nonempty α] {g : List (Item α)} (hne : g ≠ []) {l : List α}
    (h : ∀ w, w ≠ [] → Matches Eq g w → w = l) : g = l.map .one := by
  by_cases hmany : Item.many ∈ g
  · -- filled with one letter and with two, `many` gives two words
    obtain ⟨a⟩ := ‹Nonempty α›
    obtain ⟨p, q, rfl⟩ := List.append_of_mem hmany
    have hletter : ∀ s : α, ∃ b, s = b := fun s => ⟨s, rfl⟩
    obtain ⟨u, hu⟩ := exists_matches hletter p
    obtain ⟨v, hv⟩ := exists_matches hletter q
    have h₁ := h _ (by simp) (matches_append hu (matches_many [a] hv))
    have h₂ := h _ (by simp) (matches_append hu (matches_many [a, a] hv))
    have hlen := congrArg List.length (h₁.trans h₂.symm)
    simp at hlen
  · obtain ⟨l', rfl⟩ := exists_map_one hmany
    rw [h l' (fun hl => hne (by rw [hl]; rfl)) (matches_map_one.2 rfl)]

end Literal

end Glob
