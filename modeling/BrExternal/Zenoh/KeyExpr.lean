import BrExternal.Lib.Glob
import Mathlib.Data.Set.Basic

/-!
# Key expressions

The keys of zenoh and the expressions that denote sets of them. A key is a path of chunks. In an
expression `*` stands for one chunk, `**` for any number of chunks and `$*` for any part of a
chunk, so an expression is a glob of chunk expressions, which are globs of characters. `parse`
reads the text of an expression and reads every printed expression back (`parse_text`). Two
expressions have a common key exactly when `meets` says so (`meets_iff`).
-/

namespace BrExternal.Zenoh

open Glob

/-- The characters that cannot stand in a chunk of a key. -/
def reserved : List Char := ['/', '*', '$', '?', '#']

structure KeyChar where
  char : Char
  free : char ∉ reserved
  deriving DecidableEq

instance : Nonempty KeyChar := ⟨⟨'a', by decide⟩⟩

structure Chunk where
  chars : List KeyChar
  ne : chars ≠ []

instance : Nonempty Chunk := ⟨⟨[Classical.arbitrary KeyChar], List.cons_ne_nil _ _⟩⟩

structure Key where
  chunks : List Chunk
  ne : chunks ≠ []

/-- One chunk of an expression, `$*` being `many`. -/
structure ChunkExpr where
  items : List (Item KeyChar)
  ne : items ≠ []
  deriving DecidableEq

/-- An expression, `**` being `many`. -/
structure KeyExpr where
  items : List (Item ChunkExpr)
  ne : items ≠ []
  deriving DecidableEq

/-- `*`, which as a part of a chunk is `$*`. -/
def ChunkExpr.star : ChunkExpr := ⟨[.many], List.cons_ne_nil _ _⟩

def ChunkExpr.Matches (e : ChunkExpr) (c : Chunk) : Prop := Glob.Matches Eq e.items c.chars

/-- The keys an expression denotes. -/
def KeyExpr.keys (k : KeyExpr) : Set Key :=
  {key | Glob.Matches ChunkExpr.Matches k.items key.chunks}

/-! ## Texts -/

def KeyChar.parse (c : Char) : Option KeyChar :=
  if h : c ∉ reserved then some ⟨c, h⟩ else none

def ChunkExpr.parseItems : List Char → Option (List (Item KeyChar))
  | [] => some []
  | '$' :: '*' :: cs => (parseItems cs).map (.many :: ·)
  | c :: cs => (KeyChar.parse c).bind fun a => (parseItems cs).map (.one a :: ·)

def ChunkExpr.parse (cs : List Char) : Option ChunkExpr :=
  if cs = ['*'] then some .star
  else (parseItems cs).bind fun items => if h : items ≠ [] then some ⟨items, h⟩ else none

def KeyExpr.parseItem (cs : List Char) : Option (Item ChunkExpr) :=
  if cs = ['*', '*'] then some .many else (ChunkExpr.parse cs).map .one

def KeyExpr.parseItems : List (List Char) → Option (List (Item ChunkExpr))
  | [] => some []
  | cs :: css => (parseItem cs).bind fun i => (parseItems css).map (i :: ·)

/-- The expression with the given text. -/
def KeyExpr.parse (s : String) : Option KeyExpr :=
  (parseItems (s.toList.splitOn '/')).bind fun items =>
    if h : items ≠ [] then some ⟨items, h⟩ else none

def ChunkExpr.itemText : Item KeyChar → List Char
  | .one a => [a.char]
  | .many => ['$', '*']

def ChunkExpr.text (e : ChunkExpr) : List Char :=
  if e = .star then ['*'] else e.items.flatMap itemText

def KeyExpr.itemText : Item ChunkExpr → List Char
  | .one e => e.text
  | .many => ['*', '*']

def KeyExpr.text (k : KeyExpr) : String :=
  String.ofList (['/'].intercalate (k.items.map itemText))

theorem KeyChar.parse_char (a : KeyChar) : KeyChar.parse a.char = some a :=
  dif_pos a.free

theorem KeyChar.ne_dollar (a : KeyChar) : a.char ≠ '$' := fun h =>
  a.free (h ▸ by decide)

theorem ChunkExpr.parseItems_text (items : List (Item KeyChar)) :
    parseItems (items.flatMap itemText) = some items := by
  induction items with
  | nil => rfl
  | cons i items ih =>
    cases i with
    | many =>
      show (parseItems (items.flatMap itemText)).map _ = _
      rw [ih]
      rfl
    | one a =>
      have hcons : parseItems (a.char :: items.flatMap itemText) =
          (KeyChar.parse a.char).bind fun b =>
            (parseItems (items.flatMap itemText)).map (.one b :: ·) := by
        rw [parseItems]
        rintro cs h -
        exact a.ne_dollar h
      show parseItems (a.char :: items.flatMap itemText) = _
      rw [hcons, KeyChar.parse_char, ih]
      rfl

/-- Only `*` itself is printed with a leading `*`. -/
theorem ChunkExpr.text_head (items : List (Item KeyChar)) (cs : List Char) :
    items.flatMap itemText ≠ '*' :: cs := by
  intro h
  cases items with
  | nil => cases h
  | cons i items =>
    cases i with
    | many => cases h
    | one a => exact a.free ((List.cons.inj h).1 ▸ by decide)

theorem ChunkExpr.parse_text (e : ChunkExpr) : parse e.text = some e := by
  unfold text
  split
  · rename_i h
    rw [h]
    rfl
  · unfold parse
    rw [if_neg (text_head _ _), parseItems_text]
    exact dif_pos e.ne

theorem KeyExpr.parseItem_text (i : Item ChunkExpr) : parseItem (itemText i) = some i := by
  cases i with
  | many => rfl
  | one e =>
    have hne : e.text ≠ ['*', '*'] := by
      unfold ChunkExpr.text
      split
      · decide
      · exact ChunkExpr.text_head _ _
    show parseItem e.text = _
    unfold parseItem
    rw [if_neg hne, ChunkExpr.parse_text]
    rfl

theorem KeyExpr.parseItems_text (items : List (Item ChunkExpr)) :
    parseItems (items.map itemText) = some items := by
  induction items with
  | nil => rfl
  | cons i items ih =>
    show (parseItem (itemText i)).bind _ = _
    rw [parseItem_text, Option.bind_some, ih]
    rfl

theorem KeyExpr.slash_notMem_itemText (i : Item ChunkExpr) : '/' ∉ itemText i := by
  cases i with
  | many => decide
  | one e =>
    show '/' ∉ e.text
    unfold ChunkExpr.text
    split
    · decide
    · intro h
      obtain ⟨j, -, hj⟩ := List.mem_flatMap.1 h
      cases j with
      | many => exact absurd hj (by decide)
      | one a => exact a.free (List.mem_singleton.1 hj ▸ by decide)

/-- **Every expression is the meaning of its own text.** -/
theorem KeyExpr.parse_text (k : KeyExpr) : parse k.text = some k := by
  have hsplit : (['/'].intercalate (k.items.map itemText)).splitOn '/' = k.items.map itemText := by
    refine List.splitOn_intercalate '/' (fun l hl => ?_) (mt List.map_eq_nil_iff.1 k.ne)
    obtain ⟨i, -, rfl⟩ := List.mem_map.1 hl
    exact slash_notMem_itemText i
  unfold parse text
  rw [String.toList_ofList, hsplit, parseItems_text]
  exact dif_pos k.ne

/-! ## Common keys -/

theorem ChunkExpr.exists_matches (e : ChunkExpr) : ∃ c, e.Matches c := by
  obtain ⟨w, hw, h⟩ := exists_matches_ne_nil (fun a : KeyChar => ⟨a, rfl⟩) e.ne
  exact ⟨⟨w, hw⟩, h⟩

theorem KeyExpr.keys_nonempty (k : KeyExpr) : k.keys.Nonempty := by
  obtain ⟨w, hw, h⟩ := exists_matches_ne_nil ChunkExpr.exists_matches k.ne
  exact ⟨⟨w, hw⟩, h⟩

/-- Whether two chunk expressions have a chunk in common. -/
def ChunkExpr.meets (d e : ChunkExpr) : Bool :=
  inter (fun a b : KeyChar => decide (a = b)) d.items e.items

def KeyExpr.meets (k g : KeyExpr) : Bool := inter ChunkExpr.meets k.items g.items

theorem ChunkExpr.meets_iff (d e : ChunkExpr) :
    d.meets e = true ↔ ∃ c, d.Matches c ∧ e.Matches c := by
  have hchar : ∀ a b : KeyChar, decide (a = b) = true ↔ ∃ c, a = c ∧ b = c := by
    intro a b
    simp [eq_comm]
  have hsat : ∀ a : KeyChar, ∃ c, a = c := fun a => ⟨a, rfl⟩
  unfold meets
  rw [inter_iff_ne_nil hchar hsat hsat d.ne e.ne]
  constructor
  · rintro ⟨w, hw, hd, he⟩
    exact ⟨⟨w, hw⟩, hd, he⟩
  · rintro ⟨c, hd, he⟩
    exact ⟨c.chars, c.ne, hd, he⟩

theorem KeyExpr.meets_iff (k g : KeyExpr) : k.meets g = true ↔ (k.keys ∩ g.keys).Nonempty := by
  unfold meets
  rw [inter_iff_ne_nil ChunkExpr.meets_iff ChunkExpr.exists_matches ChunkExpr.exists_matches
    k.ne g.ne]
  constructor
  · rintro ⟨w, hw, hk, hg⟩
    exact ⟨⟨w, hw⟩, hk, hg⟩
  · rintro ⟨key, hk, hg⟩
    exact ⟨key.chunks, key.ne, hk, hg⟩

/-! ## Keys below fixed chunks

The expressions of the access rules name their first chunks, each with `*` or letter by letter,
and end with `**`. -/

/-- A chunk expression that is `*` or has no wildcard. -/
def ChunkExpr.Plain (e : ChunkExpr) : Prop := e = .star ∨ Item.many ∉ e.items

instance (e : ChunkExpr) : Decidable e.Plain := inferInstanceAs (Decidable (_ ∨ _))

/-- An expression that ends with its only `**`, behind plain chunks the last of which is not `*`. -/
structure Subtree where
  heads : List ChunkExpr
  ne : heads ≠ []
  plain : ∀ e ∈ heads, e.Plain
  named : heads.getLast ne ≠ .star
  deriving DecidableEq

def Subtree.expr (t : Subtree) : KeyExpr :=
  ⟨under t.heads, List.append_ne_nil_of_right_ne_nil _ (List.cons_ne_nil _ _)⟩

/-- `d` is spelled as the plain expression `e` asks. -/
def ChunkExpr.spells (d e : ChunkExpr) : Bool := decide (e = .star) || decide (d = e)

/-- The expression spells out the first chunks of the subtree: its first items are single chunks,
equal to those of the subtree except where the subtree has `*`. -/
def KeyExpr.spells (k : KeyExpr) (t : Subtree) : Bool := leads ChunkExpr.spells t.heads k.items

theorem ChunkExpr.matches_star (c : Chunk) : ChunkExpr.star.Matches c :=
  matches_of_all_many (List.cons_ne_nil _ _) (by simp) _

theorem ChunkExpr.exists_literal {e : ChunkExpr} (h : Item.many ∉ e.items) :
    ∃ l : List KeyChar, e.items = l.map .one ∧ ∀ c, e.Matches c ↔ c.chars = l := by
  obtain ⟨l, hl⟩ := exists_map_one h
  refine ⟨l, hl, fun c => ?_⟩
  unfold Matches
  rw [hl, matches_map_one]

theorem ChunkExpr.spells_iff {e : ChunkExpr} (he : e.Plain) (d : ChunkExpr) :
    d.spells e = true ↔ ∀ c, d.Matches c → e.Matches c := by
  unfold spells
  rw [Bool.or_eq_true, decide_eq_true_iff, decide_eq_true_iff]
  constructor
  · rintro (rfl | rfl)
    · exact fun c _ => matches_star c
    · exact fun _ h => h
  · intro h
    rcases he with he | he
    · exact .inl he
    · obtain ⟨l, hl, hmatch⟩ := exists_literal he
      have hd : d.items = l.map .one :=
        eq_map_one_of_matches d.ne fun w hw hdw => (hmatch ⟨w, hw⟩).1 (h ⟨w, hw⟩ hdw)
      right
      cases d
      cases e
      simp_all

theorem ChunkExpr.exists_not_matches {e : ChunkExpr} (he : e.Plain) (hne : e ≠ .star) :
    ∃ c, ¬ e.Matches c := by
  obtain ⟨l, -, hmatch⟩ := exists_literal (he.resolve_left hne)
  refine ⟨⟨Classical.arbitrary KeyChar :: l, List.cons_ne_nil _ _⟩, fun h => ?_⟩
  exact List.cons_ne_self _ _ ((hmatch _).1 h)

/-- **An expression stays inside a subtree exactly when it spells out its first chunks.** -/
theorem Subtree.keys_subset_iff (t : Subtree) (k : KeyExpr) :
    k.keys ⊆ t.expr.keys ↔ k.spells t = true := by
  constructor
  · intro h
    refine leads_of_matches_under ChunkExpr.exists_matches t.ne
      (fun e he d => (ChunkExpr.spells_iff (t.plain e he) d).2)
      (ChunkExpr.exists_not_matches (t.plain _ (List.getLast_mem t.ne)) t.named) k.ne ?_
    exact fun w hw hk => h (show (⟨w, hw⟩ : Key) ∈ k.keys from hk)
  · intro h key hkey
    exact matches_under_of_leads (fun e he d => (ChunkExpr.spells_iff (t.plain e he) d).1) h hkey

end BrExternal.Zenoh
