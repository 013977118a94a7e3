import Mathlib.Data.List.Sort
import BrExternal.Lib.PadLex

/-!
# `sort -V`

The comparison behind GNU `sort -V`, as the coreutils manual gives it. A string
is cut into a non-digit run and a digit run, again and again (`parts`); runs are
compared in the rank `order` of their bytes (letters before other bytes, the
tilde before everything, the end of a run in between) and digit runs as numbers.
`versionCmp` compares the names with their file-extension-like suffix set aside
first, then in full, and falls back on the bytes, so that it is a linear order on
strings (`versionCmp_eq`).
-/

namespace BrExternal.Publish

open Std PadLex

/-! ## Parts of a version string -/

/-- The rank of a non-digit byte; the end of a run ranks `0`. -/
def order (c : Char) : Int :=
  if c.isAlpha then c.toNat else if c = '~' then -1 else c.toNat + 256

/-- Cut the rest of a string, `run` and `num` being the part under way. -/
def partsFrom (run : List Char) (num : Option Nat) : List Char → List (List Char × Nat)
  | [] => [(run, num.getD 0)]
  | c :: cs =>
    if c.isDigit then partsFrom run (some (10 * num.getD 0 + (c.toNat - '0'.toNat))) cs
    else match num with
      | none => partsFrom (run ++ [c]) none cs
      | some n => (run, n) :: partsFrom [c] none cs

/-- The non-digit and digit runs of a string, in pairs; an absent number is `0`. -/
def parts (s : List Char) : List (List Char × Nat) := partsFrom [] none s

/-- Non-digit runs, byte by byte. -/
def runCmp : List Char → List Char → Ordering := via (padCmp compare 0) (List.map order)

def partCmp : List Char × Nat → List Char × Nat → Ordering :=
  compareLex (via runCmp Prod.fst) (compareOn Prod.snd)

/-- Part by part, an exhausted string counting as empty runs and zeros. -/
def verrevcmp : List Char → List Char → Ordering := via (padCmp partCmp ([], 0)) parts

/-! ## File suffixes -/

/-- Where a scan of `(\.[A-Za-z~][A-Za-z0-9~]*)*$` stands. -/
inductive SuffixAt where
  | boundary
  | dot
  | body

/-- The rest of the name completes a suffix. -/
def suffixFrom : SuffixAt → List Char → Bool
  | .boundary, [] => true
  | .dot, [] => false
  | .body, [] => true
  | .boundary, c :: cs => c = '.' && suffixFrom .dot cs
  | .dot, c :: cs => (c.isAlpha || c = '~') && suffixFrom .body cs
  | .body, c :: cs =>
    if c = '.' then suffixFrom .dot cs else (c.isAlphanum || c = '~') && suffixFrom .body cs

/-- The name without its suffix; at least one byte stays. -/
def filePrefix : List Char → List Char
  | [] => []
  | c :: cs => c :: (if suffixFrom .boundary cs then [] else filePrefix cs)

/-- The names `sort -V` puts first: empty, `.`, `..`, then the hidden ones. -/
def nameClass : List Char → Nat
  | [] => 0
  | ['.'] => 1
  | ['.', '.'] => 2
  | '.' :: _ => 3
  | _ => 4

/-- The comparison of `sort -V`, the bytewise last resort included. -/
def versionCmp : List Char → List Char → Ordering :=
  compareLex (compareOn nameClass)
    (compareLex (via verrevcmp filePrefix) (compareLex verrevcmp compare))

def versionLe (s t : String) : Bool := (versionCmp s.toList t.toList).isLE

def sortV (lines : List String) : List String :=
  lines.insertionSort (fun s t => versionLe s t = true)

/-- `printf '%s\n%s\n' "$CUR" "$TAG" | sort -V | tail -1`. -/
def newest (cur tag : String) : String := (sortV [cur, tag]).getLastD ""

/-! ## A linear order -/

instance : TransCmp runCmp := inferInstanceAs (TransCmp (via (padCmp compare 0) (List.map order)))

instance : TransCmp partCmp :=
  inferInstanceAs (TransCmp (compareLex (via runCmp Prod.fst) (compareOn Prod.snd)))

instance : TransCmp verrevcmp := inferInstanceAs (TransCmp (via (padCmp partCmp ([], 0)) parts))

instance : TransCmp versionCmp :=
  inferInstanceAs (TransCmp (compareLex (compareOn nameClass)
    (compareLex (via verrevcmp filePrefix) (compareLex verrevcmp compare))))

/-- Only equal strings tie. -/
theorem versionCmp_eq {s t : List Char} (h : versionCmp s t = .eq) : s = t := by
  unfold versionCmp at h
  simp only [compareLex_eq_eq] at h
  exact LawfulEqOrd.eq_of_compare h.2.2.2

instance : LawfulEqCmp versionCmp := ⟨versionCmp_eq⟩

theorem newest_eq (cur tag : String) :
    newest cur tag = if versionLe cur tag then tag else cur := by
  unfold newest sortV
  by_cases h : versionLe cur tag = true
  · simp [List.insertionSort, h]
  · simp [List.insertionSort, List.orderedInsert, h]

example : sortV ["v1.10.0", "v1.9.0", "v1.0.0-rc1", "v1.0.0"] =
    ["v1.0.0", "v1.0.0-rc1", "v1.9.0", "v1.10.0"] := by decide +kernel

end BrExternal.Publish
