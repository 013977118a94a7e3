import Mathlib.Data.List.Sort
import Mathlib.Data.Nat.Cast.Basic

/-!
# Lines, separators and `grep -o`

Two ways a flat text gives its fields back. A separator that a field does not
contain ends it (`append_sep_inj`, `terminated_inj`, `fieldsOf_terminated`); `sorted`
makes a canonical form of the fields, and `tr_terminated` exchanges the separator.
`grepRuns lit cls least` is the scan of `grep -o` for a literal followed by at least
`least` bytes of a class: the leftmost matches, each as long as possible and not
overlapping the one before, reported without the literal. Its lemmas consume a text
piece by piece: a piece without a match (`grepFrom_quiet`, `grepFrom_free`,
`grepFrom_none`) and a match (`grepFrom_hit`). `strsep sep` gives the words between the
separators of a class.
-/

namespace Text

variable {α : Type}

/-! ## Separators -/

theorem append_sep_inj {c : α} {a b r t : List α} (ha : c ∉ a) (hb : c ∉ b)
    (h : a ++ c :: r = b ++ c :: t) : a = b ∧ r = t := by
  induction a generalizing b with
  | nil =>
    cases b with
    | nil => simpa using h
    | cons y b =>
      simp only [List.nil_append, List.cons_append, List.cons.injEq] at h
      exact absurd (List.mem_cons.2 (.inl h.1)) hb
  | cons x a ih =>
    cases b with
    | nil =>
      simp only [List.nil_append, List.cons_append, List.cons.injEq] at h
      exact absurd (List.mem_cons.2 (.inl h.1.symm)) ha
    | cons y b =>
      simp only [List.cons_append, List.cons.injEq] at h
      obtain ⟨hab, hrt⟩ := ih (fun hm => ha (List.mem_cons_of_mem _ hm))
        (fun hm => hb (List.mem_cons_of_mem _ hm)) h.2
      exact ⟨by rw [h.1, hab], hrt⟩

def terminated (c : α) (fields : List (List α)) : List α := fields.flatMap (· ++ [c])

theorem terminated_cons (c : α) (f : List α) (fs : List (List α)) :
    terminated c (f :: fs) = f ++ c :: terminated c fs := by
  simp [terminated]

theorem terminated_inj {c : α} : ∀ {fs gs : List (List α)}, (∀ f ∈ fs, c ∉ f) →
    (∀ g ∈ gs, c ∉ g) → terminated c fs = terminated c gs → fs = gs
  | [], [], _, _, _ => rfl
  | [], g :: gs, _, _, h => by
    rw [terminated_cons] at h
    exact absurd (congrArg List.length h) (by simp [terminated])
  | f :: fs, [], _, _, h => by
    rw [terminated_cons] at h
    exact absurd (congrArg List.length h) (by simp [terminated])
  | f :: fs, g :: gs, hf, hg, h => by
    rw [terminated_cons, terminated_cons] at h
    obtain ⟨hfg, hrest⟩ := append_sep_inj (hf f (List.mem_cons_self ..))
      (hg g (List.mem_cons_self ..)) h
    rw [hfg, terminated_inj (fun x hx => hf x (List.mem_cons_of_mem _ hx))
      (fun x hx => hg x (List.mem_cons_of_mem _ hx)) hrest]

/-- The fields of a text in which `c` ends each; the last one may lack it. -/
def fieldsOf [DecidableEq α] (c : α) : List α → List (List α)
  | [] => []
  | a :: s =>
    if a = c then [] :: fieldsOf c s
    else
      match fieldsOf c s with
      | [] => [[a]]
      | f :: fs => (a :: f) :: fs

theorem fieldsOf_append [DecidableEq α] {c : α} {f : List α} (hf : c ∉ f) (s : List α) :
    fieldsOf c (f ++ c :: s) = f :: fieldsOf c s := by
  induction f with
  | nil => simp [fieldsOf]
  | cons a f ih =>
    have ha : a ≠ c := fun he => hf (List.mem_cons.2 (.inl he.symm))
    rw [List.cons_append, fieldsOf, if_neg ha, ih fun hm => hf (List.mem_cons_of_mem _ hm)]

theorem fieldsOf_terminated [DecidableEq α] {c : α} {fs : List (List α)} (h : ∀ f ∈ fs, c ∉ f) :
    fieldsOf c (terminated c fs) = fs := by
  induction fs with
  | nil => rfl
  | cons f fs ih =>
    rw [terminated_cons, fieldsOf_append (h f (List.mem_cons_self ..)),
      ih fun g hg => h g (List.mem_cons_of_mem _ hg)]

/-! ## `strsep` -/

/-- The words between the separators, without the empty ones. -/
def strsep (sep : α → Bool) (s : List α) : List (List α) :=
  (s.splitOnP sep).filter (!·.isEmpty)

theorem exists_mem_strsep {sep : α → Bool} {c : α} {s : List α} (hc : c ∈ s)
    (hsep : sep c = false) : ∃ w ∈ strsep sep s, c ∈ w := by
  have hsplit : ∃ w ∈ s.splitOnP sep, c ∈ w := by
    induction s with
    | nil => cases hc
    | cons a s ih =>
      rw [List.splitOnP_cons_eq_if_modifyHead]
      obtain ⟨v, vs, hv⟩ := List.exists_cons_of_ne_nil (List.splitOnP_ne_nil sep s)
      by_cases ha : sep a = true
      · rw [if_pos ha]
        have hne : c ≠ a := fun he => by rw [he, ha] at hsep; cases hsep
        obtain ⟨w, hw, hcw⟩ := ih ((List.mem_cons.1 hc).resolve_left hne)
        exact ⟨w, List.mem_cons_of_mem _ hw, hcw⟩
      · rw [if_neg ha, hv, List.modifyHead_cons]
        rcases List.mem_cons.1 hc with rfl | hc
        · exact ⟨c :: v, List.mem_cons_self, List.mem_cons_self⟩
        · obtain ⟨w, hw, hcw⟩ := ih hc
          rw [hv] at hw
          rcases List.mem_cons.1 hw with rfl | hw
          · exact ⟨a :: w, List.mem_cons_self, List.mem_cons_of_mem _ hcw⟩
          · exact ⟨w, List.mem_cons_of_mem _ hw, hcw⟩
  obtain ⟨w, hw, hcw⟩ := hsplit
  refine ⟨w, List.mem_filter.2 ⟨hw, ?_⟩, hcw⟩
  cases w with
  | nil => cases hcw
  | cons _ _ => rfl

theorem strsep_concat {sep : α → Bool} {c : α} (hc : sep c = true) (s : List α) :
    strsep sep (s ++ [c]) = strsep sep s := by
  unfold strsep
  rw [List.splitOnP_append_cons s [] hc, List.filter_append, List.splitOnP_nil]
  exact List.append_nil _

theorem sum_splitOnP (sep : α → Bool) (s : List α) :
    ((s.splitOnP sep).map (·.length + 1)).sum = s.length + 1 := by
  induction s with
  | nil => rfl
  | cons x s ih =>
    rw [List.splitOnP_cons_eq_if_modifyHead]
    split
    · simp only [List.map_cons, List.sum_cons, ih, List.length_nil, List.length_cons]
      omega
    · cases hs : s.splitOnP sep with
      | nil => exact absurd hs (List.splitOnP_ne_nil sep s)
      | cons w ws =>
        rw [hs, List.map_cons, List.sum_cons] at ih
        simp only [List.modifyHead_cons, List.map_cons, List.sum_cons, List.length_cons]
        omega

theorem sum_filter_le (f : α → Nat) (p : α → Bool) (l : List α) :
    ((l.filter p).map f).sum ≤ (l.map f).sum := by
  induction l with
  | nil => exact Nat.le_refl _
  | cons x l ih =>
    rw [List.filter_cons, List.map_cons, List.sum_cons]
    split
    · rw [List.map_cons, List.sum_cons]
      omega
    · omega

theorem sum_strsep_le (sep : α → Bool) (s : List α) :
    ((strsep sep s).map (·.length + 1)).sum ≤ s.length + 1 := by
  rw [← sum_splitOnP sep s]
  exact sum_filter_le _ _ _

theorem two_mul_length_le_sum {ws : List (List α)} (h : ∀ w ∈ ws, w ≠ []) :
    2 * ws.length ≤ (ws.map (·.length + 1)).sum := by
  induction ws with
  | nil => exact Nat.le_refl _
  | cons w ws ih =>
    have hw := List.length_pos_iff.2 (h w List.mem_cons_self)
    have hrest := ih fun v hv => h v (List.mem_cons_of_mem _ hv)
    rw [List.length_cons, List.map_cons, List.sum_cons]
    omega

theorem two_mul_length_strsep_le (sep : α → Bool) (s : List α) :
    2 * (strsep sep s).length ≤ s.length + 1 := by
  refine (two_mul_length_le_sum fun w hw => ?_).trans (sum_strsep_le sep s)
  have hne := (List.mem_filter.1 hw).2
  rintro rfl
  exact Bool.noConfusion hne

/-! ## `sort` and `tr` -/

def sorted (o : LinearOrder α) (l : List α) : List α :=
  @List.insertionSort α o.le o.toDecidableLE l

theorem sorted_perm (o : LinearOrder α) (l : List α) : (sorted o l).Perm l :=
  @List.perm_insertionSort α o.le o.toDecidableLE l

theorem sorted_pairwise (o : LinearOrder α) (l : List α) : (sorted o l).Pairwise o.le :=
  @List.pairwise_insertionSort α o.le o.toDecidableLE _ _ l

/-- Sorting is a canonical form of the lists with the same members. -/
theorem sorted_eq_iff (o : LinearOrder α) {l m : List α} : sorted o l = sorted o m ↔ l.Perm m := by
  constructor
  · intro h
    exact (sorted_perm o l).symm.trans (h ▸ sorted_perm o m)
  · intro h
    have hperm := (sorted_perm o l).trans (h.trans (sorted_perm o m).symm)
    exact hperm.eq_of_pairwise (fun a b _ _ => o.le_antisymm a b) (sorted_pairwise o l)
      (sorted_pairwise o m)

def tr [DecidableEq α] (c d : α) (s : List α) : List α := s.map fun a => if a = c then d else a

theorem tr_terminated [DecidableEq α] {c d : α} {fs : List (List α)} (h : ∀ f ∈ fs, c ∉ f) :
    tr c d (terminated c fs) = terminated d fs := by
  have hfield : ∀ f ∈ fs, tr c d f = f := by
    intro f hf
    refine (List.map_congr_left fun a ha => if_neg fun he => ?_).trans (List.map_id f)
    exact h f hf (he ▸ ha)
  induction fs with
  | nil => rfl
  | cons f fs ih =>
    have htail := ih (fun g hg => h g (List.mem_cons_of_mem _ hg))
      fun g hg => hfield g (List.mem_cons_of_mem _ hg)
    have hhead := hfield f (List.mem_cons_self ..)
    unfold tr at *
    rw [terminated_cons, terminated_cons, List.map_append, List.map_cons, if_pos rfl, hhead, htail]

/-! ## Scanning for a literal -/

/-- What follows `lit`, when the text starts with it. -/
def stripLit : List Char → List Char → Option (List Char)
  | [], s => some s
  | _ :: _, [] => none
  | a :: lit, b :: s => if a = b then stripLit lit s else none

theorem stripLit_eq_some {lit s r : List Char} : stripLit lit s = some r ↔ s = lit ++ r := by
  induction lit generalizing s with
  | nil => simp [stripLit]
  | cons a lit ih =>
    cases s with
    | nil => simp [stripLit]
    | cons b s =>
      by_cases h : a = b
      · subst h; simp [stripLit, ih]
      · simp [stripLit, h, Ne.symm h]

variable (lit : List Char) (cls : Char → Bool) (least : Nat)

/-- The class bytes behind the literal, when the text starts with a match. -/
def runAt (s : List Char) : Option (List Char) :=
  match stripLit lit s with
  | none => none
  | some r => if least ≤ (r.takeWhile cls).length then some (r.takeWhile cls) else none

/-- Scan the text after skipping its first bytes. -/
def grepFrom : Nat → List Char → List (List Char)
  | _, [] => []
  | k + 1, _ :: cs => grepFrom k cs
  | 0, c :: cs =>
    match runAt lit cls least (c :: cs) with
    | none => grepFrom 0 cs
    | some run => run :: grepFrom (lit.length + run.length - 1) cs

/-- `grep -o` for `lit` and a run of class bytes. -/
def grepRuns (s : List Char) : List (List Char) := grepFrom lit cls least 0 s

/-- The text cannot start with `lit`, whatever follows it. -/
def mismatch : List Char → List Char → Bool
  | a :: lit, b :: s => a ≠ b || mismatch lit s
  | _, _ => false

/-- No match starts inside the text, whatever follows it. -/
def quiet : List Char → Bool
  | [] => true
  | c :: cs => mismatch lit (c :: cs) && quiet cs

variable {lit cls least}

theorem grepFrom_skip (u r : List Char) :
    grepFrom lit cls least u.length (u ++ r) = grepFrom lit cls least 0 r := by
  induction u with
  | nil => rfl
  | cons c u ih => exact ih

theorem runAt_eq_none {s : List Char} (h : ∀ r, s ≠ lit ++ r) : runAt lit cls least s = none := by
  unfold runAt
  cases hs : stripLit lit s with
  | none => rfl
  | some r => exact absurd (stripLit_eq_some.1 hs) (h r)

theorem grepFrom_miss {c : Char} {s : List Char} (h : ∀ r, c :: s ≠ lit ++ r) :
    grepFrom lit cls least 0 (c :: s) = grepFrom lit cls least 0 s := by
  simp [grepFrom, runAt_eq_none h]

theorem grepFrom_none {s : List Char} (h : ¬ lit <:+: s) : grepFrom lit cls least 0 s = [] := by
  induction s with
  | nil => rfl
  | cons c s ih =>
    have hmiss : ∀ r, c :: s ≠ lit ++ r := fun r he => h ⟨[], r, he.symm⟩
    rw [grepFrom_miss hmiss, ih fun hs => h (hs.trans (List.suffix_cons c s).isInfix)]

theorem ne_of_mismatch {lit s : List Char} (h : mismatch lit s = true) (t r : List Char) :
    s ++ t ≠ lit ++ r := by
  induction lit generalizing s with
  | nil => cases s <;> simp [mismatch] at h
  | cons a lit ih =>
    cases s with
    | nil => simp [mismatch] at h
    | cons b s =>
      simp only [mismatch, Bool.or_eq_true, decide_eq_true_eq] at h
      intro he
      simp only [List.cons_append, List.cons.injEq] at he
      rcases h with h | h
      · exact h he.1.symm
      · exact ih h he.2

theorem grepFrom_quiet {u : List Char} (h : quiet lit u = true) (r : List Char) :
    grepFrom lit cls least 0 (u ++ r) = grepFrom lit cls least 0 r := by
  induction u with
  | nil => rfl
  | cons c u ih =>
    simp only [quiet, Bool.and_eq_true] at h
    have hmiss : ∀ t, c :: (u ++ r) ≠ lit ++ t := fun t => ne_of_mismatch (s := c :: u) h.1 r t
    rw [List.cons_append, grepFrom_miss hmiss, ih h.2]

theorem grepFrom_free {a : Char} {u : List Char} (h : a ∉ u) (r : List Char) :
    grepFrom (a :: lit) cls least 0 (u ++ r) = grepFrom (a :: lit) cls least 0 r := by
  induction u with
  | nil => rfl
  | cons c u ih =>
    have hc : c ≠ a := fun he => h (List.mem_cons.2 (.inl he.symm))
    rw [List.cons_append, grepFrom_miss (fun t he => hc (List.cons.inj he).1),
      ih (fun hm => h (List.mem_cons_of_mem _ hm))]

theorem takeWhile_run {run r : List Char} (hrun : ∀ c ∈ run, cls c = true)
    (hr : ∀ c ∈ r.head?, cls c = false) : (run ++ r).takeWhile cls = run := by
  induction run with
  | nil =>
    cases r with
    | nil => rfl
    | cons c r => simp [hr c (by simp)]
  | cons c run ih =>
    simp [hrun c (by simp), ih fun d hd => hrun d (List.mem_cons_of_mem _ hd)]

/-- A match is reported and the scan goes on behind it. -/
theorem grepFrom_hit {a : Char} {run r : List Char} (hrun : ∀ c ∈ run, cls c = true)
    (hleast : least ≤ run.length) (hr : ∀ c ∈ r.head?, cls c = false) :
    grepFrom (a :: lit) cls least 0 (a :: lit ++ (run ++ r)) =
      run :: grepFrom (a :: lit) cls least 0 r := by
  have hstrip : stripLit (a :: lit) (a :: lit ++ (run ++ r)) = some (run ++ r) :=
    stripLit_eq_some.2 rfl
  have hat : runAt (a :: lit) cls least (a :: lit ++ (run ++ r)) = some run := by
    unfold runAt
    rw [hstrip]
    simp only [takeWhile_run hrun hr, hleast, ↓reduceIte]
  rw [List.cons_append] at hat ⊢
  simp only [grepFrom, hat]
  have hskip : grepFrom (a :: lit) cls least (lit ++ run).length ((lit ++ run) ++ r) =
      grepFrom (a :: lit) cls least 0 r := grepFrom_skip _ _
  rw [List.append_assoc, List.length_append] at hskip
  rw [show (a :: lit).length + run.length - 1 = lit.length + run.length by
    simp only [List.length_cons]; omega, hskip]

end Text
