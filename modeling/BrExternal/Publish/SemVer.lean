import BrExternal.Publish.VersionSort

/-!
# Release tags

The tags `release.yml` builds are `v` followed by a SemVer version: a core
`MAJOR.MINOR.PATCH` and, after a dash, dot-separated pre-release identifiers.
`SemVer.cmp` is the precedence of the SemVer specification. The section on
version sort computes what `sort -V` makes of such tags: it orders them by their
cores (`versionCmp_of_core_lt`), and it puts a release below every one of its own
pre-releases (`versionCmp_release_pre`), the reverse of precedence.
-/

namespace BrExternal.Publish

open Std PadLex

/-- A tag as the workflows handle it: letters, digits, dots and dashes. -/
structure Tag where
  text : String
  legal : ∀ c ∈ text.toList, c.isAlphanum = true ∨ c = '.' ∨ c = '-'
  nonempty : text.toList ≠ []
  deriving DecidableEq

structure Core where
  major : Nat
  minor : Nat
  patch : Nat
  deriving DecidableEq, Repr

/-- Numerically, major first. -/
def Core.cmp : Core → Core → Ordering :=
  compareLex (compareOn Core.major) (compareLex (compareOn Core.minor) (compareOn Core.patch))

/-- `vMAJOR.MINOR.PATCH`. -/
def Core.text (c : Core) : String :=
  "v" ++ toString c.major ++ "." ++ toString c.minor ++ "." ++ toString c.patch

structure AlnumId where
  chars : List Char
  legal : ∀ c ∈ chars, c.isAlphanum = true ∨ c = '-'
  nondigit : ∃ c ∈ chars, c.isDigit = false
  deriving DecidableEq

inductive Ident where
  | num (n : Nat)
  | alnum (a : AlnumId)
  deriving DecidableEq

def Ident.text : Ident → String
  | .num n => toString n
  | .alnum a => String.ofList a.chars

/-- Numeric identifiers numerically and below alphanumeric ones, those in ASCII order. -/
def Ident.cmp : Ident → Ident → Ordering
  | .num m, .num n => compare m n
  | .num _, .alnum _ => .lt
  | .alnum _, .num _ => .gt
  | .alnum a, .alnum b => compare a.chars b.chars

structure SemVer where
  core : Core
  /-- The pre-release identifiers; none for a release. -/
  pre : List Ident
  deriving DecidableEq

/-- A release ranks above its pre-releases, which compare identifier by identifier. -/
def preCmp : List Ident → List Ident → Ordering
  | [], [] => .eq
  | [], _ :: _ => .gt
  | _ :: _, [] => .lt
  | p :: ps, q :: qs => List.compareLex Ident.cmp (p :: ps) (q :: qs)

def SemVer.cmp (a b : SemVer) : Ordering := (Core.cmp a.core b.core).then (preCmp a.pre b.pre)

def dotted (p : Ident) : List Ident → String
  | [] => p.text
  | q :: qs => p.text ++ "." ++ dotted q qs

/-- What follows the core in a tag. -/
def preText : List Ident → String
  | [] => ""
  | p :: ps => "-" ++ dotted p ps

def SemVer.text (v : SemVer) : String := v.core.text ++ preText v.pre

/-- `m` is of greatest precedence among `vs`. -/
def SemVer.Greatest (m : SemVer) (vs : List SemVer) : Prop :=
  m ∈ vs ∧ ∀ v ∈ vs, (v.cmp m).isLE

instance : TransCmp Core.cmp :=
  inferInstanceAs (TransCmp (compareLex (compareOn Core.major)
    (compareLex (compareOn Core.minor) (compareOn Core.patch))))

theorem Core.eq_of_cmp {a b : Core} (h : Core.cmp a b = .eq) : a = b := by
  simp only [Core.cmp, compareLex_eq_eq, compareOn, Nat.compare_eq_eq] at h
  obtain ⟨h1, h2, h3⟩ := h
  cases a; cases b
  simp_all

instance : LawfulEqCmp Core.cmp := ⟨Core.eq_of_cmp⟩

theorem Core.cmp_self (a : Core) : Core.cmp a a = .eq := ReflCmp.compare_self

/-! ## The tags' characters -/

def Core.chars (c : Core) : List Char :=
  'v' :: (Nat.toDigits 10 c.major ++ '.' :: (Nat.toDigits 10 c.minor ++
    '.' :: Nat.toDigits 10 c.patch))

theorem Core.text_toList (c : Core) : c.text.toList = c.chars := by
  simp [Core.text, Core.chars]

theorem isAlphanum_of_isDigit {c : Char} (h : c.isDigit = true) : c.isAlphanum = true := by
  simp [Char.isAlphanum, h]

theorem legal_toDigits {n : Nat} {c : Char} (hc : c ∈ Nat.toDigits 10 n) :
    c.isAlphanum = true ∨ c = '.' ∨ c = '-' :=
  .inl (isAlphanum_of_isDigit (Nat.isDigit_of_mem_toDigits (by decide) (by decide) hc))

theorem Core.chars_legal (v : Core) : ∀ c ∈ v.chars, c.isAlphanum = true ∨ c = '.' ∨ c = '-' := by
  intro c hc
  simp only [Core.chars, List.mem_cons, List.mem_append] at hc
  rcases hc with rfl | hc | rfl | hc | rfl | hc
  · exact .inl (by decide)
  · exact legal_toDigits hc
  · exact .inr (.inl rfl)
  · exact legal_toDigits hc
  · exact .inr (.inl rfl)
  · exact legal_toDigits hc

theorem Ident.text_legal (p : Ident) :
    ∀ c ∈ p.text.toList, c.isAlphanum = true ∨ c = '.' ∨ c = '-' := by
  intro c hc
  cases p with
  | num n => exact legal_toDigits (by simpa [Ident.text] using hc)
  | alnum a =>
    rcases a.legal c (by simpa [Ident.text] using hc) with h | h
    · exact .inl h
    · exact .inr (.inr h)

theorem dotted_legal (ps : List Ident) : ∀ p : Ident,
    ∀ c ∈ (dotted p ps).toList, c.isAlphanum = true ∨ c = '.' ∨ c = '-' := by
  induction ps with
  | nil => exact fun p => p.text_legal
  | cons q ps ih =>
    intro p c hc
    simp only [dotted, String.toList_append, List.mem_append] at hc
    rcases hc with (hc | hc) | hc
    · exact p.text_legal c hc
    · exact .inr (.inl (by simpa using hc))
    · exact ih q c hc

theorem preText_legal (ps : List Ident) :
    ∀ c ∈ (preText ps).toList, c.isAlphanum = true ∨ c = '.' ∨ c = '-' := by
  intro c hc
  cases ps with
  | nil => simp [preText] at hc
  | cons p ps =>
    simp only [preText, String.toList_append, List.mem_append] at hc
    rcases hc with hc | hc
    · exact .inr (.inr (by simpa using hc))
    · exact dotted_legal ps p c hc

/-- A tail that cannot continue the number before it. -/
def TailOk : List Char → Prop
  | [] => True
  | c :: _ => c = '-'

theorem preText_tailOk (ps : List Ident) : TailOk (preText ps).toList := by
  cases ps with
  | nil => simp [preText, TailOk]
  | cons p ps => simp [preText, TailOk]

theorem SemVer.text_toList (v : SemVer) :
    v.text.toList = v.core.chars ++ (preText v.pre).toList := by
  simp [SemVer.text, Core.text_toList]

def SemVer.tag (v : SemVer) : Tag where
  text := v.text
  legal := by
    intro c hc
    rw [SemVer.text_toList, List.mem_append] at hc
    rcases hc with hc | hc
    · exact v.core.chars_legal c hc
    · exact preText_legal v.pre c hc
  nonempty := by simp [SemVer.text_toList, Core.chars]

def Core.tag (c : Core) : Tag := (SemVer.mk c []).tag

theorem Core.tag_text (c : Core) : c.tag.text = c.text := by
  simp [Core.tag, SemVer.tag, SemVer.text, preText]

/-! ## Version sort on tags -/

theorem partsFrom_digits (run : List Char) (rest : List Char) :
    ∀ (ds : List Char) (n : Nat), (∀ c ∈ ds, c.isDigit = true) →
      partsFrom run (some n) (ds ++ rest) = partsFrom run (some (Nat.ofDigitChars 10 ds n)) rest
  | [], n, _ => by simp [Nat.ofDigitChars_nil]
  | c :: ds, n, h => by
    have hc : c.isDigit = true := h c (List.mem_cons_self ..)
    have hds : ∀ d ∈ ds, d.isDigit = true := fun d hd => h d (List.mem_cons_of_mem _ hd)
    rw [List.cons_append, partsFrom, if_pos hc, partsFrom_digits run rest ds _ hds,
      Nat.ofDigitChars_cons]
    rfl

theorem partsFrom_toDigits (run : List Char) (n : Nat) (rest : List Char) :
    partsFrom run none (Nat.toDigits 10 n ++ rest) = partsFrom run (some n) rest := by
  have hdig : ∀ c ∈ Nat.toDigits 10 n, c.isDigit = true := fun c hc =>
    Nat.isDigit_of_mem_toDigits (by decide) (by decide) hc
  have hval : Nat.ofDigitChars 10 (Nat.toDigits 10 n) 0 = n := Nat.ofDigitChars_ten_toDigits
  have hstart : partsFrom run none (Nat.toDigits 10 n ++ rest) =
      partsFrom run (some 0) (Nat.toDigits 10 n ++ rest) := by
    cases hd : Nat.toDigits 10 n with
    | nil => exact absurd hd Nat.toDigits_ne_nil
    | cons c cs =>
      have hc : c.isDigit = true := hdig c (by rw [hd]; exact List.mem_cons_self ..)
      simp [partsFrom, hc]
  rw [hstart, partsFrom_digits run rest _ 0 hdig, hval]

def tailParts : List Char → List (List Char × Nat)
  | [] => []
  | c :: cs => partsFrom [c] none cs

theorem parts_core (c : Core) {t : List Char} (ht : TailOk t) :
    parts (c.chars ++ t) = (['v'], c.major) :: (['.'], c.minor) :: (['.'], c.patch) ::
      tailParts t := by
  have hv : ('v').isDigit = false := by decide
  have hdot : ('.').isDigit = false := by decide
  have hpatch : partsFrom ['.'] (some c.patch) t = (['.'], c.patch) :: tailParts t := by
    cases t with
    | nil => rfl
    | cons d t =>
      have hd : d = '-' := ht
      have hdash : ('-').isDigit = false := by decide
      subst hd
      simp [partsFrom, hdash, tailParts]
  simp only [parts, Core.chars, List.cons_append, List.append_assoc, partsFrom, hv,
    Bool.false_eq_true, ↓reduceIte, List.nil_append]
  rw [partsFrom_toDigits]
  simp only [partsFrom, hdot, Bool.false_eq_true, ↓reduceIte]
  rw [partsFrom_toDigits]
  simp only [partsFrom, hdot, Bool.false_eq_true, ↓reduceIte]
  rw [partsFrom_toDigits, hpatch]

theorem partCmp_same_run (r : List Char) (m n : Nat) : partCmp (r, m) (r, n) = compare m n := by
  have hr : runCmp r r = .eq := ReflCmp.compare_self
  simp [partCmp, compareLex, via, hr, compareOn]

/-- Cores decide first, then the tails. -/
theorem verrevcmp_core (a b : Core) {t u : List Char} (ht : TailOk t) (hu : TailOk u) :
    verrevcmp (a.chars ++ t) (b.chars ++ u) =
      (Core.cmp a b).then (padCmp partCmp ([], 0) (tailParts t) (tailParts u)) := by
  simp only [verrevcmp, via, parts_core a ht, parts_core b hu, padCmp_cons_cons, partCmp_same_run,
    Core.cmp, compareLex, compareOn, Ordering.then_assoc]

theorem suffixFrom_digit {c : Char} (hc : c.isDigit = true) (cs : List Char) :
    suffixFrom .boundary (c :: cs) = false := by
  have : c ≠ '.' := by rintro rfl; exact absurd hc (by decide)
  simp [suffixFrom, this]

theorem isAlpha_of_isDigit {c : Char} (hc : c.isDigit = true) : c.isAlpha = false := by
  rw [← Bool.not_eq_true]
  intro ha
  delta Char.isAlpha Char.isUpper Char.isLower at ha
  simp only [Char.isDigit, Bool.or_eq_true, Bool.and_eq_true, decide_eq_true_eq,
    UInt32.le_iff_toNat_le, ge_iff_le] at hc ha
  have : 'A'.val.toNat = 65 := rfl
  have : 'a'.val.toNat = 97 := rfl
  have : '9'.val.toNat = 57 := rfl
  omega

theorem suffixFrom_dot_digit {c : Char} (hc : c.isDigit = true) (cs : List Char) :
    suffixFrom .boundary ('.' :: c :: cs) = false := by
  have h2 : c ≠ '~' := by rintro rfl; exact absurd hc (by decide)
  simp [suffixFrom, isAlpha_of_isDigit hc, h2]

theorem filePrefix_cons {c : Char} {cs : List Char}
    (h : cs = [] ∨ suffixFrom .boundary cs = false) :
    filePrefix (c :: cs) = c :: filePrefix cs := by
  rcases h with rfl | h
  · rfl
  · simp [filePrefix, h]

/-- No suffix starts among the digits of a number. -/
theorem filePrefix_digits {rest : List Char}
    (hrest : rest = [] ∨ suffixFrom .boundary rest = false) : ∀ ds : List Char,
    (∀ c ∈ ds, c.isDigit = true) → filePrefix (ds ++ rest) = ds ++ filePrefix rest
  | [], _ => rfl
  | c :: ds, h => by
    have hds : ∀ d ∈ ds, d.isDigit = true := fun d hd => h d (List.mem_cons_of_mem _ hd)
    have hnext : ds ++ rest = [] ∨ suffixFrom .boundary (ds ++ rest) = false := by
      cases ds with
      | nil => exact hrest
      | cons d ds => exact .inr (suffixFrom_digit (hds d (List.mem_cons_self ..)) _)
    rw [List.cons_append, filePrefix_cons hnext, filePrefix_digits hrest ds hds, List.cons_append]

theorem filePrefix_toDigits (n : Nat) {rest : List Char}
    (hrest : rest = [] ∨ suffixFrom .boundary rest = false) :
    filePrefix (Nat.toDigits 10 n ++ rest) = Nat.toDigits 10 n ++ filePrefix rest :=
  filePrefix_digits hrest _ fun _ hc => Nat.isDigit_of_mem_toDigits (by decide) (by decide) hc

/-- A dot before a number starts no suffix, nor does the number. -/
theorem suffixFrom_number (n : Nat) (rest : List Char) :
    suffixFrom .boundary (Nat.toDigits 10 n ++ rest) = false ∧
      suffixFrom .boundary ('.' :: (Nat.toDigits 10 n ++ rest)) = false := by
  cases hd : Nat.toDigits 10 n with
  | nil => exact absurd hd Nat.toDigits_ne_nil
  | cons c cs =>
    have hc : c.isDigit = true :=
      Nat.isDigit_of_mem_toDigits (b := 10) (n := n) (by decide) (by decide)
        (by rw [hd]; exact List.mem_cons_self ..)
    exact ⟨suffixFrom_digit hc _, suffixFrom_dot_digit hc _⟩

/-- The suffix set aside never reaches into the core. -/
theorem filePrefix_core (c : Core) {t : List Char} (ht : TailOk t) :
    filePrefix (c.chars ++ t) = c.chars ++ filePrefix t := by
  have htail : t = [] ∨ suffixFrom .boundary t = false := by
    cases t with
    | nil => exact .inl rfl
    | cons d t =>
      have hd : d = '-' := ht
      subst hd
      exact .inr (by simp [suffixFrom])
  simp only [Core.chars, List.cons_append, List.append_assoc]
  rw [filePrefix_cons (.inr (suffixFrom_number _ _).1),
    filePrefix_toDigits _ (.inr (suffixFrom_number _ _).2),
    filePrefix_cons (.inr (suffixFrom_number _ _).1),
    filePrefix_toDigits _ (.inr (suffixFrom_number _ _).2),
    filePrefix_cons (.inr (suffixFrom_number _ _).1),
    filePrefix_toDigits _ htail]

theorem filePrefix_tailOk {t : List Char} (ht : TailOk t) : TailOk (filePrefix t) := by
  cases t with
  | nil => trivial
  | cons c t => exact ht

/-- What `sort -V` compares of two tags. -/
theorem versionCmp_core (a b : Core) {t u : List Char} (ht : TailOk t) (hu : TailOk u) :
    versionCmp (a.chars ++ t) (b.chars ++ u) =
      ((Core.cmp a b).then
        (padCmp partCmp ([], 0) (tailParts (filePrefix t)) (tailParts (filePrefix u)))).then
      (((Core.cmp a b).then (padCmp partCmp ([], 0) (tailParts t) (tailParts u))).then
        (compare (a.chars ++ t) (b.chars ++ u))) := by
  have hclass : ∀ (c : Core) (t : List Char), nameClass (c.chars ++ t) = 4 := fun _ _ => rfl
  simp only [versionCmp, compareLex, compareOn, hclass, via, filePrefix_core a ht,
    filePrefix_core b hu, verrevcmp_core a b ht hu,
    verrevcmp_core a b (filePrefix_tailOk ht) (filePrefix_tailOk hu)]
  simp

/-- Tags with different cores are ordered by their cores. -/
theorem versionCmp_of_core_lt {a b : SemVer} (h : Core.cmp a.core b.core = .lt) :
    versionCmp a.text.toList b.text.toList = .lt := by
  rw [SemVer.text_toList, SemVer.text_toList,
    versionCmp_core _ _ (preText_tailOk a.pre) (preText_tailOk b.pre), h]
  rfl

theorem partsFrom_head (run : List Char) : ∀ (s : List Char) (num : Option Nat),
    ∃ r n ps, partsFrom run num s = (run ++ r, n) :: ps
  | [], num => ⟨[], num.getD 0, [], by simp [partsFrom]⟩
  | c :: s, num => by
    by_cases hc : c.isDigit = true
    · obtain ⟨r, n, ps, h⟩ := partsFrom_head run s (some (10 * num.getD 0 + (c.toNat - '0'.toNat)))
      exact ⟨r, n, ps, by simp only [partsFrom, hc, ↓reduceIte, h]⟩
    · cases num with
      | none =>
        obtain ⟨r, n, ps, h⟩ := partsFrom_head (run ++ [c]) s none
        exact ⟨c :: r, n, ps, by rw [partsFrom, if_neg hc]; simpa using h⟩
      | some k => exact ⟨[], k, partsFrom [c] none s, by rw [partsFrom, if_neg hc]; simp⟩

/-- A tail that starts with a dash sorts above no tail at all. -/
theorem padCmp_nil_dash (t : List Char) :
    padCmp partCmp ([], 0) (tailParts []) (tailParts ('-' :: t)) = .lt := by
  obtain ⟨r, n, ps, h⟩ := partsFrom_head ['-'] t none
  have hdash : order '-' = 301 := by decide
  have hrun : runCmp [] ('-' :: r) = .lt := by
    simp [runCmp, via, padCmp, padNil, hdash, compare, compareOfLessAndEq]
  have hpart : partCmp ([], 0) ('-' :: r, n) = .lt := by
    simp [partCmp, compareLex, via, hrun]
  simp [tailParts, h, padCmp, padNil, hpart]

/-- A release sorts below each of its own pre-releases. -/
theorem versionCmp_release_pre (c : Core) (p : Ident) (ps : List Ident) :
    versionCmp (SemVer.mk c []).text.toList (SemVer.mk c (p :: ps)).text.toList = .lt := by
  obtain ⟨t, ht⟩ : ∃ t, (preText (p :: ps)).toList = '-' :: t :=
    ⟨_, by simp only [preText, String.toList_append]; rfl⟩
  have hpre : filePrefix ('-' :: t) =
      '-' :: (if suffixFrom .boundary t then [] else filePrefix t) :=
    rfl
  rw [SemVer.text_toList, SemVer.text_toList,
    versionCmp_core _ _ (preText_tailOk []) (preText_tailOk _),
    Core.cmp_self, ht, hpre]
  simp [preText, filePrefix, padCmp_nil_dash]

/-- On plain tags `sort -V` is the numeric order. -/
theorem versionCmp_plain (a b : Core) : versionCmp a.text.toList b.text.toList = Core.cmp a b := by
  have h := versionCmp_core a b (t := []) (u := []) trivial trivial
  simp only [List.append_nil] at h
  rw [Core.text_toList, Core.text_toList, h]
  cases hc : Core.cmp a b with
  | lt => rfl
  | gt => rfl
  | eq =>
    obtain rfl := Core.eq_of_cmp hc
    simp [tailParts, filePrefix, padCmp, padNil]

theorem Core.tag_injective {a b : Core} (h : a.tag = b.tag) : a = b := by
  have htext : a.text = b.text := by rw [← Core.tag_text, ← Core.tag_text, h]
  have hcmp := versionCmp_plain a b
  rw [htext] at hcmp
  exact Core.eq_of_cmp (hcmp.symm.trans ReflCmp.compare_self)

end BrExternal.Publish
