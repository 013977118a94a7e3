import BrExternal.Lib.Text

/-!
# JSON texts without escapes

Objects, strings and natural numbers, laid out without blanks. A string ends at the next
quote: there are no escape sequences, so what is printed from strings without quotes is
read back (`parse_print`).
-/

inductive Json where
  | str (s : List Char)
  | num (n : Nat)
  | obj (members : List (List Char × Json))

namespace Json

/-! ## Printing -/

mutual

def print : Json → List Char
  | .str s => '"' :: (s ++ ['"'])
  | .num n => Nat.toDigits 10 n
  | .obj ms => '\x7b' :: printMembers [] ms

def printMembers : List Char → List (List Char × Json) → List Char
  | _, [] => ['\x7d']
  | sep, (key, value) :: ms =>
    sep ++ '"' :: (key ++ '"' :: ':' :: (print value ++ printMembers [','] ms))

end

/-! ## Reading -/

/-- The text up to the next quote, and what follows the quote. -/
def readString : List Char → Option (List Char × List Char)
  | [] => none
  | c :: cs => if c = '"' then some ([], cs) else (readString cs).map fun p => (c :: p.1, p.2)

def readNat (s : List Char) : Option (Nat × List Char) :=
  match s.takeWhile Char.isDigit with
  | [] => none
  | d :: ds => some (Nat.ofDigitChars 10 (d :: ds) 0, s.dropWhile Char.isDigit)

mutual

/-- A value, and what follows it. The length of the text is always enough fuel. -/
def read : Nat → List Char → Option (Json × List Char)
  | 0, _ => none
  | _ + 1, '"' :: s => (readString s).map fun p => (.str p.1, p.2)
  | n + 1, '\x7b' :: s => (readMembers n [] s).map fun p => (.obj p.1, p.2)
  | _ + 1, s => (readNat s).map fun p => (.num p.1, p.2)

/-- Members behind the separator, up to the closing brace. -/
def readMembers : Nat → List Char → List Char → Option (List (List Char × Json) × List Char)
  | 0, _, _ => none
  | _ + 1, _, '\x7d' :: s => some ([], s)
  | n + 1, sep, s =>
    match (Text.stripLit (sep ++ ['"']) s).bind readString with
    | some (key, ':' :: s) =>
      match read n s with
      | some (value, s) => (readMembers n [','] s).map fun p => ((key, value) :: p.1, p.2)
      | none => none
    | _ => none

end

def parse (s : List Char) : Option Json := (read s.length s).map Prod.fst

def get (key : String) : Json → Option Json
  | .obj ms => ms.lookup key.toList
  | _ => none

def string : Json → Option String
  | .str s => some (String.ofList s)
  | _ => none

def nat : Json → Option Nat
  | .num n => some n
  | _ => none

/-! ## The round trip -/

mutual

/-- No string of the value holds a quote. -/
def Clean : Json → Prop
  | .str s => '"' ∉ s
  | .num _ => True
  | .obj ms => CleanMembers ms

def CleanMembers : List (List Char × Json) → Prop
  | [] => True
  | (key, value) :: ms => '"' ∉ key ∧ Clean value ∧ CleanMembers ms

end

theorem readString_quote {s : List Char} (hs : '"' ∉ s) (r : List Char) :
    readString (s ++ '"' :: r) = some (s, r) := by
  induction s with
  | nil => simp [readString]
  | cons c s ih =>
    have hc : c ≠ '"' := fun he => hs (he ▸ List.mem_cons_self ..)
    simp [readString, hc, ih fun hm => hs (List.mem_cons_of_mem _ hm)]

/-- A number is told from what follows it by a character that is no digit. -/
def Ends (r : List Char) : Prop := ∀ c ∈ r.head?, c.isDigit = false

theorem isDigit_toDigits {n : Nat} : ∀ c ∈ Nat.toDigits 10 n, c.isDigit = true :=
  fun _ hc => Nat.isDigit_of_mem_toDigits (by decide) (by decide) hc

theorem readNat_toDigits (n : Nat) {r : List Char} (hr : Ends r) :
    readNat (Nat.toDigits 10 n ++ r) = some (n, r) := by
  have hdrop : (Nat.toDigits 10 n ++ r).dropWhile Char.isDigit = r := by
    rw [List.dropWhile_append_of_pos isDigit_toDigits]
    cases r with
    | nil => rfl
    | cons c r => exact List.dropWhile_cons_of_neg (by simp [hr c rfl])
  unfold readNat
  rw [Text.takeWhile_run isDigit_toDigits hr, hdrop]
  cases hd : Nat.toDigits 10 n with
  | nil => exact absurd hd Nat.toDigits_ne_nil
  | cons d ds => simp only [← hd, Nat.ofDigitChars_ten_toDigits]

theorem read_num {n : Nat} {r : List Char} (hr : Ends r) (fuel : Nat) :
    read (fuel + 1) (Nat.toDigits 10 n ++ r) = some (.num n, r) := by
  have hread := readNat_toDigits n hr
  cases hd : Nat.toDigits 10 n with
  | nil => exact absurd hd Nat.toDigits_ne_nil
  | cons d ds =>
    rw [hd] at hread
    have hdigit : d.isDigit = true := isDigit_toDigits d (hd ▸ List.mem_cons_self ..)
    rw [List.cons_append, read]
    · rw [← List.cons_append, hread]
      rfl
    · rintro s ⟨⟩
      exact absurd hdigit (by decide)
    · rintro s ⟨⟩
      exact absurd hdigit (by decide)

theorem ends_printMembers (ms : List (List Char × Json)) (r : List Char) :
    Ends (printMembers [','] ms ++ r) := by
  cases ms with
  | nil => simp [printMembers, Ends]
  | cons m ms => simp [printMembers, Ends]

theorem printMembers_ne_nil (sep : List Char) (ms : List (List Char × Json)) :
    printMembers sep ms ≠ [] := by
  cases ms with
  | nil => simp [printMembers]
  | cons m ms => simp [printMembers]

mutual

/-- Reading takes a printed value off the text, with the length of the value as fuel. -/
theorem read_print (j : Json) (hj : j.Clean) {n : Nat} {r : List Char} (hr : Ends r)
    (hfuel : j.print.length ≤ n) : read n (j.print ++ r) = some (j, r) := by
  cases n with
  | zero =>
    have hnil := List.eq_nil_of_length_eq_zero (Nat.le_zero.1 hfuel)
    cases j with
    | str s => simp [print] at hnil
    | num m => exact absurd hnil Nat.toDigits_ne_nil
    | obj ms => simp [print] at hnil
  | succ n =>
    cases j with
    | str s =>
      simp only [Clean] at hj
      simp [print, read, readString_quote hj]
    | num m => exact read_num hr n
    | obj ms =>
      simp only [Clean] at hj
      simp only [print, List.length_cons, Nat.add_le_add_iff_right] at hfuel
      simp [print, read, readMembers_print [] (by simp) ms hj hfuel]

theorem readMembers_print (sep : List Char) (hsep : sep.head? ≠ some '\x7d')
    (ms : List (List Char × Json)) (hms : CleanMembers ms) {n : Nat} {r : List Char}
    (hfuel : (printMembers sep ms).length ≤ n) :
    readMembers n sep (printMembers sep ms ++ r) = some (ms, r) := by
  cases n with
  | zero =>
    exact absurd (List.eq_nil_of_length_eq_zero (Nat.le_zero.1 hfuel)) (printMembers_ne_nil sep ms)
  | succ n =>
    cases ms with
    | nil => simp [printMembers, readMembers]
    | cons m ms =>
      obtain ⟨key, value⟩ := m
      obtain ⟨hkey, hvalue, hms⟩ := hms
      simp only [printMembers, List.length_append, List.length_cons] at hfuel
      have hv := read_print value hvalue (n := n) (ends_printMembers ms r) (by omega)
      have hrest := readMembers_print [','] (by simp) ms hms (n := n) (r := r) (by omega)
      have hkeyed : (Text.stripLit (sep ++ ['"']) (printMembers sep ((key, value) :: ms) ++ r)).bind
          readString = some (key, ':' :: (value.print ++ (printMembers [','] ms ++ r))) := by
        have hstrip : Text.stripLit (sep ++ ['"']) (printMembers sep ((key, value) :: ms) ++ r) =
            some (key ++ '"' :: ':' :: (value.print ++ (printMembers [','] ms ++ r))) :=
          Text.stripLit_eq_some.2 (by simp [printMembers])
        rw [hstrip]
        exact readString_quote hkey _
      rw [readMembers]
      · simp only [hkeyed, hv, hrest, Option.map_some]
      · intro s hs
        cases sep with
        | nil => simp [printMembers] at hs
        | cons c sep =>
          simp only [printMembers, List.cons_append, List.cons.injEq] at hs
          exact hsep (by rw [hs.1]; rfl)

end

/-- **Round trip.** -/
theorem parse_print {j : Json} (hj : j.Clean) {r : List Char} (hr : Ends r) :
    parse (j.print ++ r) = some j := by
  unfold parse
  rw [read_print j hj hr (by simp)]
  rfl

end Json
