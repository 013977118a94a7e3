import BrExternal.Lib.Glob

/-!
# Shell commands under `set -e`

Commands of a POSIX shell over a state `σ`, and what `set -e` makes of a failure. A simple command
that fails ends the shell, unless its status is tested: in a condition, or on the left of `&&` and
`||`. `wp c tested Q s` says that `c`, started in `s`, does not end the shell and leaves a state
and a status in `Q`; it is exact (`wp_iff`), so the rules here turn a script into the condition on
its inputs under which it reaches a given place. `Keeps` is the frame rule.
-/

namespace Sh

/-! ## Results of external commands -/

structure Result where
  out : List Char
  status : Nat
  deriving DecidableEq

def stripNewlines (l : List Char) : List Char := (l.reverse.dropWhile (· = '\n')).reverse

theorem stripNewlines_append_newline (l : List Char) :
    stripNewlines (l ++ ['\n']) = stripNewlines l := by
  unfold stripNewlines
  rw [List.reverse_append]
  rfl

theorem stripNewlines_concat {c : Char} (hc : c ≠ '\n') (l : List Char) :
    stripNewlines (l ++ [c]) = l ++ [c] := by
  unfold stripNewlines
  rw [List.reverse_append, List.reverse_singleton, List.singleton_append,
    List.dropWhile_cons_of_neg (by simpa using hc), List.reverse_cons, List.reverse_reverse]

theorem stripNewlines_of_not_mem {l : List Char} (h : '\n' ∉ l) : stripNewlines l = l := by
  rcases List.eq_nil_or_concat l with rfl | ⟨l, c, rfl⟩
  · rfl
  · rw [List.concat_eq_append] at h ⊢
    refine stripNewlines_concat (fun hc => h ?_) l
    exact List.mem_append_right _ (List.mem_singleton.2 hc.symm)

/-- What `$(...)` puts in place of a command. -/
def Result.value (r : Result) : List Char := stripNewlines r.out

/-- A pipeline has the output and the status of its last command. -/
def pipeline (_ last : Result) : Result := last

/-- Two commands of a command substitution whose own failure is tested. Shells differ in whether
`set -e` ends the substitution at the first command (`stops`) or is ignored there. -/
def substitution (stops : Bool) (first last : Result) : Result :=
  if stops && first.status ≠ 0 then first else ⟨first.out ++ last.out, last.status⟩

/-! ## Patterns of `case` -/

/-- The items of a pattern without brackets and quotes. -/
def pattern (p : List Char) : List (Glob.Item (Option Char)) :=
  p.map fun c => if c = '*' then .many else if c = '?' then .one none else .one (some c)

def fits (p w : List Char) : Bool :=
  Glob.accepts (fun x c => x.all (· = c)) (pattern p) w

/-- A text that means itself in a pattern. -/
def Plain (l : List Char) : Prop := '*' ∉ l ∧ '?' ∉ l

instance (l : List Char) : Decidable (Plain l) := inferInstanceAs (Decidable (_ ∧ _))

theorem pattern_plain {l : List Char} (h : Plain l) :
    pattern l = l.map fun c => .one (some c) := by
  refine List.map_congr_left fun c hc => ?_
  have hstar : c ≠ '*' := fun he => h.1 (he ▸ hc)
  have hany : c ≠ '?' := fun he => h.2 (he ▸ hc)
  rw [if_neg hstar, if_neg hany]

theorem fits_plain_append {l p w : List Char} (h : Plain l) :
    fits (l ++ p) w = true ↔ ∃ v, w = l ++ v ∧ fits p v = true := by
  unfold fits
  simp only [Glob.accepts_iff]
  have happ : pattern (l ++ p) = (l.map fun c => .one (some c)) ++ pattern p := by
    rw [← pattern_plain h]
    exact List.map_append
  rw [happ]
  refine Glob.matches_literal_append fun a b => ?_
  simp

theorem fits_star_cons {p w : List Char} :
    fits ('*' :: p) w = true ↔ ∃ u v, w = u ++ v ∧ fits p v = true := by
  unfold fits
  simp only [Glob.accepts_iff]
  rfl

theorem fits_contains {l w : List Char} (h : Plain l) :
    fits ('*' :: (l ++ ['*'])) w = true ↔ l <:+: w := by
  have hrest : ∀ t, fits ['*'] t = true := fun t =>
    fits_star_cons.2 ⟨t, [], (List.append_nil t).symm, rfl⟩
  rw [fits_star_cons]
  constructor
  · rintro ⟨u, v, rfl, hv⟩
    obtain ⟨t, rfl, -⟩ := (fits_plain_append h).1 hv
    exact ⟨u, t, List.append_assoc ..⟩
  · rintro ⟨u, t, rfl⟩
    exact ⟨u, l ++ t, List.append_assoc .., (fits_plain_append h).2 ⟨t, rfl, hrest t⟩⟩

theorem fits_any_plain {l w : List Char} (h : Plain l) :
    fits ('?' :: l) w = true ↔ ∃ c, w = c :: l := by
  have htail : ∀ v, fits l v = true ↔ v = l := by
    intro v
    have happ := fits_plain_append h (p := []) (w := v)
    rw [List.append_nil] at happ
    rw [happ]
    constructor
    · rintro ⟨t, rfl, ht⟩
      rw [List.isEmpty_iff.1 ht, List.append_nil]
    · rintro rfl
      exact ⟨[], (List.append_nil _).symm, rfl⟩
  cases w with
  | nil => simp [fits, pattern, Glob.accepts]
  | cons a w =>
    show fits l w = true ↔ _
    rw [htail]
    simp

/-! ## Commands -/

inductive Cmd (σ : Type) where
  | simple (f : σ → σ × Nat)
  | exit (status : Nat)
  | seq (a b : Cmd σ)
  /-- The list `a && b`. -/
  | andThen (a b : Cmd σ)
  /-- The list `a || b`. -/
  | orElse (a b : Cmd σ)
  /-- The construct `if a; then b; fi`. -/
  | ifThen (a b : Cmd σ)
  /-- A `case` with one pattern and a default. -/
  | select (p : σ → Bool) (a b : Cmd σ)

/-- Where a command leaves the shell. -/
inductive Outcome (σ : Type) where
  | running (s : σ) (status : Nat)
  | exited (s : σ) (status : Nat)

variable {σ : Type}

def Outcome.state : Outcome σ → σ
  | .running s _ => s
  | .exited s _ => s

/-- Run a command; `tested` when its failure is looked at, so that `set -e` does not apply. -/
def run : Cmd σ → Bool → σ → Outcome σ
  | .simple f, tested, s =>
    if (f s).2 = 0 ∨ tested = true then .running (f s).1 (f s).2 else .exited (f s).1 (f s).2
  | .exit n, _, s => .exited s n
  | .seq a b, tested, s =>
    match run a tested s with
    | .running t _ => run b tested t
    | .exited t n => .exited t n
  | .andThen a b, tested, s =>
    match run a true s with
    | .running t n => if n = 0 then run b tested t else .running t n
    | .exited t n => .exited t n
  | .orElse a b, tested, s =>
    match run a true s with
    | .running t n => if n = 0 then .running t 0 else run b tested t
    | .exited t n => .exited t n
  | .ifThen a b, tested, s =>
    match run a true s with
    | .running t n => if n = 0 then run b tested t else .running t 0
    | .exited t n => .exited t n
  | .select p a b, tested, s => if p s then run a tested s else run b tested s

def block : List (Cmd σ) → Cmd σ
  | [] => .simple fun s => (s, 0)
  | [c] => c
  | c :: d :: cs => .seq c (block (d :: cs))

/-! ## Weakest preconditions -/

def wp : Cmd σ → Bool → (σ → Nat → Prop) → σ → Prop
  | .simple f, tested, Q, s => ((f s).2 = 0 ∨ tested = true) ∧ Q (f s).1 (f s).2
  | .exit _, _, _, _ => False
  | .seq a b, tested, Q, s => wp a tested (fun t _ => wp b tested Q t) s
  | .andThen a b, tested, Q, s =>
    wp a true (fun t n => if n = 0 then wp b tested Q t else Q t n) s
  | .orElse a b, tested, Q, s =>
    wp a true (fun t n => if n = 0 then Q t 0 else wp b tested Q t) s
  | .ifThen a b, tested, Q, s =>
    wp a true (fun t n => if n = 0 then wp b tested Q t else Q t 0) s
  | .select p a b, tested, Q, s => if p s then wp a tested Q s else wp b tested Q s

/-- The outcome is a running shell in `Q`. -/
def Outcome.Meets (Q : σ → Nat → Prop) : Outcome σ → Prop
  | .running s n => Q s n
  | .exited _ _ => False

theorem Outcome.meets_ite {Q : σ → Nat → Prop} (p : Prop) [Decidable p] (x y : Outcome σ) :
    (if p then x else y).Meets Q ↔ if p then x.Meets Q else y.Meets Q := by
  split <;> rfl

/-- **`wp` is exact.** -/
theorem wp_iff (c : Cmd σ) (tested : Bool) (Q : σ → Nat → Prop) (s : σ) :
    wp c tested Q s ↔ (run c tested s).Meets Q := by
  induction c generalizing tested Q s with
  | simple f =>
    unfold wp run
    by_cases h : (f s).2 = 0 ∨ tested = true
    · rw [if_pos h]
      exact ⟨fun hq => hq.2, fun hq => ⟨h, hq⟩⟩
    · rw [if_neg h]
      exact ⟨fun hq => h hq.1, fun hq => hq.elim⟩
  | exit n => rfl
  | seq a b iha ihb =>
    unfold wp run
    rw [iha]
    cases run a tested s with
    | running t n => exact ihb tested Q t
    | exited t n => rfl
  | andThen a b iha ihb | orElse a b iha ihb | ifThen a b iha ihb =>
    unfold wp run
    rw [iha]
    cases run a true s with
    | running t n =>
      rw [Outcome.meets_ite, ← ihb]
      rfl
    | exited t n => rfl
  | select p a b iha ihb =>
    unfold wp run
    rw [Outcome.meets_ite, iha, ihb]

/-! ## Checks

The shapes a script checks with: `c || die`, `c && die`, a plain command, and `case` with `die` in
one of its branches. -/

/-- The command never leaves the shell running. -/
def Dies (d : Cmd σ) : Prop := ∀ tested Q s, ¬ wp d tested Q s

variable {d : Cmd σ} {tested : Bool} {Q : σ → Nat → Prop} {s : σ}

theorem dies_seq_exit (a : Cmd σ) (n : Nat) : Dies (.seq a (.exit n)) := by
  intro tested Q s h
  rw [wp, wp_iff] at h
  cases hrun : run a tested s with
  | running t m =>
    rw [hrun] at h
    exact h
  | exited t m =>
    rw [hrun] at h
    exact h

theorem wp_simple {f : σ → σ × Nat} :
    wp (.simple f) false Q s ↔ (f s).2 = 0 ∧ Q (f s).1 0 := by
  unfold wp
  constructor
  · rintro ⟨h | h, hq⟩
    · exact ⟨h, h ▸ hq⟩
    · cases h
  · rintro ⟨h, hq⟩
    exact ⟨.inl h, by rwa [h]⟩

theorem wp_orElse_die (hd : Dies d) {f : σ → σ × Nat} :
    wp (.orElse (.simple f) d) tested Q s ↔ (f s).2 = 0 ∧ Q (f s).1 0 := by
  simp only [wp, or_true, true_and]
  by_cases h : (f s).2 = 0
  · simp only [h, if_true, true_and]
  · simp only [h, if_false, false_and, iff_false]
    exact hd _ _ _

theorem wp_andThen_die (hd : Dies d) {f : σ → σ × Nat} :
    wp (.andThen (.simple f) d) tested Q s ↔ (f s).2 ≠ 0 ∧ Q (f s).1 (f s).2 := by
  simp only [wp, or_true, true_and]
  by_cases h : (f s).2 = 0
  · simp only [h, if_true, ne_eq, not_true, false_and, iff_false]
    exact hd _ _ _
  · simp only [h, if_false, ne_eq, not_false_eq_true, true_and]

theorem wp_select_die (hd : Dies d) {p : σ → Bool} {c : Cmd σ} :
    wp (.select p c d) tested Q s ↔ p s = true ∧ wp c tested Q s := by
  show (if p s then wp c tested Q s else wp d tested Q s) ↔ _
  by_cases h : p s = true
  · simp only [h, if_true, true_and]
  · rw [if_neg h]
    exact ⟨fun hw => (hd _ _ _ hw).elim, fun hw => (h hw.1).elim⟩

theorem wp_die_select (hd : Dies d) {p : σ → Bool} {c : Cmd σ} :
    wp (.select p d c) tested Q s ↔ p s = false ∧ wp c tested Q s := by
  show (if p s then wp d tested Q s else wp c tested Q s) ↔ _
  by_cases h : p s = true
  · simp only [h, if_true, Bool.true_eq_false, false_and, iff_false]
    exact hd _ _ _
  · rw [if_neg h]
    exact ⟨fun hw => ⟨Bool.eq_false_iff.2 h, hw⟩, fun hw => hw.2⟩

/-! ## Commands that decide a condition -/

/-- Whatever the state, `c` leaves the shell running when `P` holds, and only then. -/
def Decides (c : Cmd σ) (P : Prop) : Prop :=
  ∀ s, ∃ t, ∀ R : σ → Prop, wp c false (fun t _ => R t) s ↔ P ∧ R t

theorem decides_seq {a b : Cmd σ} {P P' : Prop} (ha : Decides a P) (hb : Decides b P') :
    Decides (.seq a b) (P ∧ P') := by
  intro s
  obtain ⟨t, ht⟩ := ha s
  obtain ⟨u, hu⟩ := hb t
  refine ⟨u, fun R => ?_⟩
  rw [wp, ht, hu, and_assoc]

theorem Decides.congr {c : Cmd σ} {P P' : Prop} (h : Decides c P) (hiff : P ↔ P') :
    Decides c P' := by
  rwa [← hiff]

theorem Decides.meets_iff {c : Cmd σ} {P : Prop} (h : Decides c P) (s : σ) :
    (run c false s).Meets (fun _ _ => True) ↔ P := by
  obtain ⟨t, ht⟩ := h s
  rw [← wp_iff, ht fun _ => True, and_true]

/-! ## Frame -/

/-- No command of `c` changes `f`. -/
def Keeps {β : Type} (f : σ → β) : Cmd σ → Prop
  | .simple g => ∀ s, f (g s).1 = f s
  | .exit _ => True
  | .seq a b | .andThen a b | .orElse a b | .ifThen a b | .select _ a b => Keeps f a ∧ Keeps f b

/-- **Frame rule.** -/
theorem run_keeps {β : Type} {f : σ → β} {c : Cmd σ} (h : Keeps f c) (tested : Bool) (s : σ) :
    f (run c tested s).state = f s := by
  induction c generalizing tested s with
  | simple g =>
    unfold run
    split
    · exact h s
    · exact h s
  | exit n => rfl
  | seq a b iha ihb =>
    have ha := iha h.1 tested s
    unfold run
    cases hrun : run a tested s with
    | running t n =>
      rw [hrun] at ha
      exact (ihb h.2 tested t).trans ha
    | exited t n =>
      rw [hrun] at ha
      exact ha
  | andThen a b iha ihb | orElse a b iha ihb | ifThen a b iha ihb =>
    have ha := iha h.1 true s
    unfold run
    cases hrun : run a true s with
    | running t n =>
      rw [hrun] at ha
      dsimp only
      split
      · first | exact (ihb h.2 tested t).trans ha | exact ha
      · first | exact (ihb h.2 tested t).trans ha | exact ha
    | exited t n =>
      rw [hrun] at ha
      exact ha
  | select p a b iha ihb =>
    unfold run
    split
    · exact iha h.1 tested s
    · exact ihb h.2 tested s

end Sh
