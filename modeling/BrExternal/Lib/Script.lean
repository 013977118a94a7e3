import Mathlib.Data.List.Basic

/-!
# Scripts that stop at the first failing command

A script is a list of commands on a state; under `set -e` a command that fails
changes nothing and ends the run (`trace`, `final`, `completes`). A run that is
cut off after any of its commands is the run of an initial part of the script, so
a kill is `cs.take n`. `Triple P cs Q I` is the outline of a run that may be cut
off: started in `P`, the run leaves a state in `I` behind every command, and one
in `Q` when it reaches its end; `Chain` does the same for a relation between the
moments of a run. `history` strings runs together.
-/

namespace Script

variable {σ ρ : Type}

/-- A command: the state after it, `none` when it exits non-zero. -/
abbrev Cmd (σ : Type) := σ → Option σ

/-- The states behind the commands that ran. -/
def trace : List (Cmd σ) → σ → List σ
  | [], _ => []
  | c :: cs, s =>
    match c s with
    | none => []
    | some t => t :: trace cs t

/-- The state the run ends in. -/
def final : List (Cmd σ) → σ → σ
  | [], s => s
  | c :: cs, s =>
    match c s with
    | none => s
    | some t => final cs t

def completes : List (Cmd σ) → σ → Bool
  | [], _ => true
  | c :: cs, s =>
    match c s with
    | none => false
    | some t => completes cs t

/-! ## Single runs -/

theorem final_mem (cs : List (Cmd σ)) (s : σ) : final cs s ∈ s :: trace cs s := by
  induction cs generalizing s with
  | nil => simp [final]
  | cons c cs ih =>
    simp only [final, trace]
    cases h : c s with
    | none => simp
    | some t => exact List.mem_cons_of_mem _ (ih t)

theorem final_append (cs ds : List (Cmd σ)) (s : σ) :
    final (cs ++ ds) s = if completes cs s then final ds (final cs s) else final cs s := by
  induction cs generalizing s with
  | nil => simp [final, completes]
  | cons c cs ih =>
    cases h : c s with
    | none => simp [final, completes, h]
    | some t => simpa [final, completes, h] using ih t

theorem completes_append (cs ds : List (Cmd σ)) (s : σ) :
    completes (cs ++ ds) s = (completes cs s && completes ds (final cs s)) := by
  induction cs generalizing s with
  | nil => simp [final, completes]
  | cons c cs ih =>
    simp only [List.cons_append, final, completes]
    cases h : c s with
    | none => simp
    | some t => exact ih t

theorem trace_append (cs ds : List (Cmd σ)) (s : σ) :
    trace (cs ++ ds) s =
      trace cs s ++ if completes cs s then trace ds (final cs s) else [] := by
  induction cs generalizing s with
  | nil => simp [trace, final, completes]
  | cons c cs ih =>
    cases h : c s with
    | none => simp [trace, completes, h]
    | some t => simp [trace, final, completes, h, ih t]

theorem trace_take_sublist (cs : List (Cmd σ)) (n : Nat) (s : σ) :
    (trace (cs.take n) s).Sublist (trace cs s) := by
  induction cs generalizing s n with
  | nil => simp [trace]
  | cons c cs ih =>
    cases n with
    | zero => simp [trace]
    | succ n =>
      simp only [List.take_succ_cons, trace]
      cases h : c s with
      | none => simp
      | some t => exact (ih n t).cons_cons t

theorem completes_of_total {cs : List (Cmd σ)} (h : ∀ c ∈ cs, ∀ s, ∃ t, c s = some t) (s : σ) :
    completes cs s = true := by
  induction cs generalizing s with
  | nil => rfl
  | cons c cs ih =>
    obtain ⟨t, ht⟩ := h c (List.mem_cons_self ..) s
    simp only [completes, ht]
    exact ih (fun d hd => h d (List.mem_cons_of_mem _ hd)) t

/-- **Frame rule.** What no command changes, no state of the run changes. -/
theorem trace_frame {β : Type} (f : σ → β) {cs : List (Cmd σ)}
    (h : ∀ c ∈ cs, ∀ s t, c s = some t → f t = f s) {s : σ} :
    ∀ t ∈ s :: trace cs s, f t = f s := by
  induction cs generalizing s with
  | nil => simp [trace]
  | cons c cs ih =>
    intro t ht
    rcases List.mem_cons.1 ht with rfl | ht
    · rfl
    · simp only [trace] at ht
      cases hc : c s with
      | none => simp [hc] at ht
      | some u =>
        rw [hc] at ht
        rw [ih (fun d hd => h d (List.mem_cons_of_mem _ hd)) t ht]
        exact h c (List.mem_cons_self ..) s u hc

theorem final_frame {β : Type} (f : σ → β) {cs : List (Cmd σ)}
    (h : ∀ c ∈ cs, ∀ s t, c s = some t → f t = f s) (s : σ) : f (final cs s) = f s :=
  trace_frame f h _ (final_mem cs s)

/-! ## Crash triples -/

/-- From `P`, every state behind a command is in `I` and the end of the run in `Q`. -/
def Triple (P : σ → Prop) (cs : List (Cmd σ)) (Q I : σ → Prop) : Prop :=
  ∀ s, P s → (∀ t ∈ trace cs s, I t) ∧ (completes cs s = true → Q (final cs s))

variable {P Q R I : σ → Prop} {c : Cmd σ} {cs ds : List (Cmd σ)}

theorem Triple.nil : Triple P [] P I := fun _ hs => ⟨by simp [trace], fun _ => hs⟩

theorem Triple.cons (hc : ∀ s t, P s → c s = some t → R t ∧ I t) (h : Triple R cs Q I) :
    Triple P (c :: cs) Q I := by
  intro s hs
  simp only [trace, final, completes]
  cases ht : c s with
  | none => simp
  | some t =>
    obtain ⟨hR, hI⟩ := hc s t hs ht
    obtain ⟨htr, hfin⟩ := h t hR
    refine ⟨fun u hu => ?_, hfin⟩
    rcases List.mem_cons.1 hu with rfl | hu
    · exact hI
    · exact htr u hu

theorem Triple.append (h1 : Triple P cs R I) (h2 : Triple R ds Q I) :
    Triple P (cs ++ ds) Q I := by
  intro s hs
  obtain ⟨htr, hfin⟩ := h1 s hs
  rw [trace_append, final_append, completes_append]
  cases hc : completes cs s with
  | false => exact ⟨by simpa using htr, by simp⟩
  | true =>
    obtain ⟨htr', hfin'⟩ := h2 _ (hfin hc)
    refine ⟨fun t ht => ?_, by simpa using hfin'⟩
    rcases List.mem_append.1 ht with ht | ht
    · exact htr t ht
    · exact htr' t ht

/-- A run cut off anywhere keeps the crash condition. -/
theorem Triple.take (h : Triple P cs Q I) (n : Nat) {s : σ} (hs : P s) :
    ∀ t ∈ trace (cs.take n) s, I t :=
  fun t ht => (h s hs).1 t ((trace_take_sublist cs n s).subset ht)

/-- An invariant of every command is one of the run. -/
theorem Triple.of_inv (h : ∀ c ∈ cs, ∀ s t, I s → c s = some t → I t) : Triple I cs I I := by
  induction cs with
  | nil => exact .nil
  | cons c cs ih =>
    refine .cons (R := I) (fun s t hs ht => ?_) (ih fun d hd => h d (List.mem_cons_of_mem _ hd))
    have := h c (List.mem_cons_self ..) s t hs ht
    exact ⟨this, this⟩

/-! ## Total triples -/

/-- From `P` every command succeeds, every state behind a command is in `I` and the end of
the run in `Q`. -/
def TotalTriple (P : σ → Prop) (cs : List (Cmd σ)) (Q I : σ → Prop) : Prop :=
  ∀ s, P s → completes cs s = true ∧ (∀ t ∈ trace cs s, I t) ∧ Q (final cs s)

theorem TotalTriple.nil : TotalTriple P [] P I := fun _ hs => ⟨rfl, by simp [trace], hs⟩

theorem TotalTriple.cons (hc : ∀ s, P s → ∃ t, c s = some t ∧ R t ∧ I t)
    (h : TotalTriple R cs Q I) : TotalTriple P (c :: cs) Q I := by
  intro s hs
  obtain ⟨t, ht, hR, hI⟩ := hc s hs
  obtain ⟨hok, htr, hfin⟩ := h t hR
  simp only [completes, trace, final, ht]
  refine ⟨hok, fun u hu => ?_, hfin⟩
  rcases List.mem_cons.1 hu with rfl | hu
  · exact hI
  · exact htr u hu

theorem TotalTriple.append (h1 : TotalTriple P cs R I) (h2 : TotalTriple R ds Q I) :
    TotalTriple P (cs ++ ds) Q I := by
  intro s hs
  obtain ⟨hok, htr, hR⟩ := h1 s hs
  obtain ⟨hok', htr', hfin⟩ := h2 _ hR
  rw [completes_append, trace_append, final_append, hok]
  refine ⟨by simpa using hok', fun t ht => ?_, by simpa using hfin⟩
  rcases List.mem_append.1 ht with ht | ht
  · exact htr t ht
  · exact htr' t ht

/-! ## Chains -/

/-- From `P`, every state of the run is `R`-related to all later ones, and the end of the
run is in `Q`. -/
def Chain (R : σ → σ → Prop) (P : σ → Prop) (cs : List (Cmd σ)) (Q : σ → Prop) : Prop :=
  ∀ s, P s → (s :: trace cs s).Pairwise R ∧ (completes cs s = true → Q (final cs s))

variable {S : σ → σ → Prop}

theorem Chain.nil : Chain S P [] P := fun _ hs => ⟨by simp [trace], fun _ => hs⟩

theorem Chain.cons (htrans : ∀ a b c, S a b → S b c → S a c)
    (hc : ∀ s t, P s → c s = some t → R t ∧ S s t) (h : Chain S R cs Q) :
    Chain S P (c :: cs) Q := by
  intro s hs
  simp only [trace, final, completes]
  cases ht : c s with
  | none => simp
  | some t =>
    obtain ⟨hR, hst⟩ := hc s t hs ht
    obtain ⟨hpw, hfin⟩ := h t hR
    refine ⟨List.pairwise_cons.2 ⟨fun u hu => ?_, hpw⟩, hfin⟩
    rcases List.mem_cons.1 hu with rfl | hu
    · exact hst
    · exact htrans s t u hst ((List.pairwise_cons.1 hpw).1 u hu)

/-- Commands that keep `P` and are steps of `S` can precede a chain. -/
theorem Chain.append_of_steps (htrans : ∀ a b c, S a b → S b c → S a c)
    (hcs : ∀ c ∈ cs, ∀ s t, P s → c s = some t → P t ∧ S s t) (h : Chain S P ds Q) :
    Chain S P (cs ++ ds) Q := by
  induction cs with
  | nil => exact h
  | cons c cs ih =>
    exact .cons htrans (hcs c (List.mem_cons_self ..))
      (ih fun d hd => hcs d (List.mem_cons_of_mem _ hd))

/-- A run cut off anywhere is a chain. -/
theorem Chain.take (h : Chain S P cs Q) (n : Nat) {s : σ} (hs : P s) :
    (s :: trace (cs.take n) s).Pairwise S :=
  (h s hs).1.sublist ((trace_take_sublist cs n s).cons_cons s)

/-! ## Runs one after another -/

variable (prog : ρ → σ → List (Cmd σ))

/-- All states behind the commands of a sequence of runs, in order. -/
def history : σ → List ρ → List σ
  | _, [] => []
  | s, r :: rs => trace (prog r s) s ++ history (final (prog r s) s) rs

def after : σ → List ρ → σ
  | s, [] => s
  | s, r :: rs => after (final (prog r s) s) rs

/-- Every run meets `C`, a condition on the state it starts in. -/
def Each (C : σ → ρ → Prop) : σ → List ρ → Prop
  | _, [] => True
  | s, r :: rs => C s r ∧ Each C (final (prog r s) s) rs

variable {prog} {C : σ → ρ → Prop}

theorem after_append (s : σ) (rs qs : List ρ) :
    after prog s (rs ++ qs) = after prog (after prog s rs) qs := by
  induction rs generalizing s with
  | nil => rfl
  | cons r rs ih => exact ih _

theorem history_append (s : σ) (rs qs : List ρ) :
    history prog s (rs ++ qs) = history prog s rs ++ history prog (after prog s rs) qs := by
  induction rs generalizing s with
  | nil => rfl
  | cons r rs ih => simp only [List.cons_append, history, after, ih, List.append_assoc]

theorem after_mem (prog : ρ → σ → List (Cmd σ)) (s : σ) (rs : List ρ) :
    after prog s rs ∈ s :: history prog s rs := by
  induction rs generalizing s with
  | nil => simp [after]
  | cons r rs ih =>
    have hfin := final_mem (prog r s) s
    rcases List.mem_cons.1 (ih (final (prog r s) s)) with h | h
    · rw [after, h, history, ← List.cons_append]
      exact List.mem_append_left _ hfin
    · rw [history, ← List.cons_append]
      exact List.mem_append_right _ h

theorem Each.append {s : σ} {rs qs : List ρ} (h : Each prog C s (rs ++ qs)) :
    Each prog C s rs ∧ Each prog C (after prog s rs) qs := by
  induction rs generalizing s with
  | nil => exact ⟨trivial, h⟩
  | cons r rs ih => exact ⟨⟨h.1, (ih h.2).1⟩, (ih h.2).2⟩

theorem Each.of_forall {C : ρ → Prop} {rs : List ρ} (h : ∀ r ∈ rs, C r) (s : σ) :
    Each prog (fun _ => C) s rs := by
  induction rs generalizing s with
  | nil => trivial
  | cons r rs ih =>
    exact ⟨h r (List.mem_cons_self ..), ih (fun q hq => h q (List.mem_cons_of_mem _ hq)) _⟩

/-- **Invariant rule.** What runs meeting `C` keep behind every command holds at
every moment of a sequence of such runs. -/
theorem history_inv (hrun : ∀ s r, I s → C s r → ∀ t ∈ trace (prog r s) s, I t) {s : σ}
    {rs : List ρ} (hs : I s) (hC : Each prog C s rs) :
    (∀ t ∈ history prog s rs, I t) ∧ I (after prog s rs) := by
  induction rs generalizing s with
  | nil => exact ⟨by simp [history], hs⟩
  | cons r rs ih =>
    have htr := hrun s r hs hC.1
    have hfin : I (final (prog r s) s) := by
      rcases List.mem_cons.1 (final_mem (prog r s) s) with h | h
      · rw [h]; exact hs
      · exact htr _ h
    obtain ⟨hhist, haft⟩ := ih hfin hC.2
    refine ⟨fun t ht => ?_, haft⟩
    rcases List.mem_append.1 ht with h | h
    · exact htr t h
    · exact hhist t h

theorem final_of_pairwise (hrefl : ∀ a, S a a) {cs : List (Cmd σ)} {s : σ}
    (h : (s :: trace cs s).Pairwise S) : ∀ t ∈ s :: trace cs s, S t (final cs s) := by
  induction cs generalizing s with
  | nil =>
    intro t ht
    simp only [trace, List.mem_singleton] at ht
    rw [ht]
    exact hrefl s
  | cons c cs ih =>
    cases hc : c s with
    | none =>
      intro t ht
      simp only [trace, hc, List.mem_singleton] at ht
      simp only [final, hc, ht]
      exact hrefl s
    | some u =>
      simp only [trace, hc] at h
      intro t ht
      simp only [trace, final, hc] at ht ⊢
      obtain ⟨hs, hu⟩ := List.pairwise_cons.1 h
      rcases List.mem_cons.1 ht with rfl | ht
      · exact hs _ (final_mem cs u)
      · exact ih hu t ht

/-- **Monotonicity rule.** A preorder that every run meeting `C` respects from each of its
moments to the later ones is respected along the whole sequence. -/
theorem history_pairwise (hrefl : ∀ a, S a a) (htrans : ∀ a b c, S a b → S b c → S a c)
    (hrun : ∀ s r, I s → C s r →
      (s :: trace (prog r s) s).Pairwise S ∧ I (final (prog r s) s))
    {s : σ} {rs : List ρ} (hs : I s) (hC : Each prog C s rs) :
    (s :: history prog s rs).Pairwise S := by
  induction rs generalizing s with
  | nil => simp [history]
  | cons r rs ih =>
    obtain ⟨hpw, hI⟩ := hrun s r hs hC.1
    have hnext := ih hI hC.2
    rw [history, ← List.cons_append, List.pairwise_append]
    refine ⟨hpw, (List.pairwise_cons.1 hnext).2, fun a ha b hb => ?_⟩
    exact htrans a _ b (final_of_pairwise hrefl hpw a ha) ((List.pairwise_cons.1 hnext).1 b hb)

theorem after_of_pairwise (hrefl : ∀ a, S a a) {s : σ} {rs qs : List ρ}
    (h : (s :: history prog s (rs ++ qs)).Pairwise S) :
    S (after prog s rs) (after prog s (rs ++ qs)) := by
  rw [history_append, ← List.cons_append, List.pairwise_append] at h
  rw [after_append]
  rcases List.mem_cons.1 (after_mem prog (after prog s rs) qs) with he | hm
  · rw [he]
    exact hrefl _
  · exact h.2.2 _ (after_mem prog s rs) _ hm

end Script
