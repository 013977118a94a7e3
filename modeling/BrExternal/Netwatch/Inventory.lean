import Mathlib.Data.Multiset.Sort
import Mathlib.Data.List.Lex
import Mathlib.Data.Char
import BrExternal.Lib.Text

/-!
# The LAN inventory and its snapshot

For `end0` and `wlan0`: whether the interface exists, its operstate and its IPv4 and IPv6
addresses. `snapshot` is the line `zenohd-netwatch.sh` prints of it, with the addresses
sorted; two inventories with the same line are the same (`snapshot_injective`).
-/

namespace BrExternal.Netwatch

open Text

structure Operstate where
  word : List Char
  lower : ∀ c ∈ word, c.isLower = true
  /-- The script's own word for an absent interface. -/
  notMissing : word ≠ "missing".toList
  deriving DecidableEq

/-- An address family: the literal and the characters of `grep -o 'LITERAL[CHARACTERS]*'`. -/
structure Family where
  lit : List Char
  cls : Char → Bool

def inet : Family := ⟨"inet ".toList, fun c => c.isDigit || c = '.'⟩

def inet6 : Family where
  lit := "inet6 ".toList
  cls := fun c => c.isDigit || ('a' ≤ c && c ≤ 'f') || ('A' ≤ c && c ≤ 'F') || c = ':'

structure Addr (f : Family) where
  text : List Char
  legal : ∀ c ∈ text, f.cls c = true
  deriving DecidableEq

structure Iface where
  state : Operstate
  v4 : Multiset (Addr inet)
  v6 : Multiset (Addr inet6)
  deriving DecidableEq

/-- What the watcher looks at; `none` for an interface that does not exist. -/
structure Inventory where
  end0 : Option Iface
  wlan0 : Option Iface
  deriving DecidableEq

/-! ## The printed line -/

/-- What `grep -o` prints of an address. -/
def Addr.line {f : Family} (a : Addr f) : List Char := f.lit ++ a.text

/-- `sort | tr '\n' ','`. -/
def joined (lines : Multiset (List Char)) : List Char := terminated ',' (lines.sort (· ≤ ·))

/-- `printf '%s:state:%s|v4:%s|v6:%s;'`. -/
def field (name state v4 v6 : List Char) : List Char :=
  name ++ (":state:".toList ++ (state ++ ("|v4:".toList ++ (v4 ++ ("|v6:".toList ++
    (v6 ++ [';']))))))

def stateWord : Option Iface → List Char
  | none => "missing".toList
  | some i => i.state.word

def v4Of : Option Iface → Multiset (Addr inet)
  | none => 0
  | some i => i.v4

def v6Of : Option Iface → Multiset (Addr inet6)
  | none => 0
  | some i => i.v6

/-- The line's part on one interface. -/
def ifaceText (name : List Char) (i : Option Iface) : List Char :=
  field name (stateWord i) (joined ((v4Of i).map Addr.line)) (joined ((v6Of i).map Addr.line))

/-- `snapshot`, without the newline that the command substitution drops. -/
def snapshot (v : Inventory) : String :=
  String.ofList (ifaceText "end0".toList v.end0 ++ ifaceText "wlan0".toList v.wlan0)

/-! ## It tells the inventory -/

theorem not_mem_terminated {c d : Char} (hcd : c ≠ d) {lines : List (List Char)}
    (h : ∀ l ∈ lines, c ∉ l) : c ∉ terminated d lines := by
  intro hm
  obtain ⟨l, hl, hc⟩ := List.mem_flatMap.1 hm
  rcases List.mem_append.1 hc with hc | hc
  · exact h l hl hc
  · exact hcd (List.mem_singleton.1 hc)

theorem joined_inj {s t : Multiset (List Char)} (hs : ∀ l ∈ s, ',' ∉ l) (ht : ∀ l ∈ t, ',' ∉ l)
    (h : joined s = joined t) : s = t := by
  have hsort : s.sort (· ≤ ·) = t.sort (· ≤ ·) :=
    terminated_inj (fun l hl => hs l ((Multiset.mem_sort _).1 hl))
      (fun l hl => ht l ((Multiset.mem_sort _).1 hl)) h
  rw [← Multiset.sort_eq s (· ≤ ·), ← Multiset.sort_eq t (· ≤ ·), hsort]

theorem joined_free {c : Char} (hc : c ≠ ',') {s : Multiset (List Char)} (hs : ∀ l ∈ s, c ∉ l) :
    c ∉ joined s :=
  not_mem_terminated hc fun l hl => hs l ((Multiset.mem_sort _).1 hl)

theorem field_append (name a v x r : List Char) : field name a v x ++ r =
    name ++ (":state:".toList ++ (a ++ '|' :: ("v4:".toList ++ (v ++ '|' :: ("v6:".toList ++
      (x ++ ';' :: r)))))) := by
  have h4 : "|v4:".toList = '|' :: "v4:".toList := by decide
  have h6 : "|v6:".toList = '|' :: "v6:".toList := by decide
  delta field
  rw [h4, h6]
  simp only [List.append_assoc, List.cons_append, List.nil_append]

theorem field_inj {name a b v w x y r t : List Char} (ha : '|' ∉ a) (hb : '|' ∉ b) (hv : '|' ∉ v)
    (hw : '|' ∉ w) (hx : ';' ∉ x) (hy : ';' ∉ y)
    (h : field name a v x ++ r = field name b w y ++ t) : a = b ∧ v = w ∧ x = y ∧ r = t := by
  rw [field_append, field_append] at h
  obtain ⟨hab, h⟩ := append_sep_inj ha hb (List.append_cancel_left (List.append_cancel_left h))
  obtain ⟨hvw, h⟩ := append_sep_inj hv hw (List.append_cancel_left h)
  obtain ⟨hxy, h⟩ := append_sep_inj hx hy (List.append_cancel_left h)
  exact ⟨hab, hvw, hxy, h⟩

theorem stateWord_free (i : Option Iface) : '|' ∉ stateWord i := by
  cases i with
  | none => decide
  | some i => exact fun h => absurd (i.state.lower _ h) (by decide)

section
variable {f : Family}

theorem Addr.line_injective : Function.Injective (Addr.line (f := f)) := by
  intro a b h
  have htext := List.append_cancel_left h
  cases a; cases b
  simp_all

theorem lines_free {c : Char} (hlit : c ∉ f.lit) (hcls : f.cls c = false)
    (s : Multiset (Addr f)) : ∀ l ∈ s.map Addr.line, c ∉ l := by
  intro l hl
  obtain ⟨a, -, rfl⟩ := Multiset.mem_map.1 hl
  intro h
  rcases List.mem_append.1 h with h | h
  · exact hlit h
  · rw [a.legal c h] at hcls
    cases hcls

theorem addrs_inj {s t : Multiset (Addr f)} (hlit : ',' ∉ f.lit) (hcls : f.cls ',' = false)
    (h : joined (s.map Addr.line) = joined (t.map Addr.line)) : s = t :=
  Multiset.map_injective Addr.line_injective
    (joined_inj (lines_free hlit hcls s) (lines_free hlit hcls t) h)

end

/-- An interface's part of the line, followed by anything, tells the interface. -/
theorem ifaceText_inj {name r t : List Char} {i j : Option Iface}
    (h : ifaceText name i ++ r = ifaceText name j ++ t) : i = j ∧ r = t := by
  have h4 : ∀ i : Option Iface, '|' ∉ joined ((v4Of i).map Addr.line) := fun i =>
    joined_free (by decide) (lines_free (by decide) (by decide) _)
  have h6 : ∀ i : Option Iface, ';' ∉ joined ((v6Of i).map Addr.line) := fun i =>
    joined_free (by decide) (lines_free (by decide) (by decide) _)
  obtain ⟨hstate, ht4, ht6, hr⟩ :=
    field_inj (stateWord_free i) (stateWord_free j) (h4 i) (h4 j) (h6 i) (h6 j) h
  refine ⟨?_, hr⟩
  have hv4 := addrs_inj (by decide) (by decide) ht4
  have hv6 := addrs_inj (by decide) (by decide) ht6
  cases i with
  | none =>
    cases j with
    | none => rfl
    | some j => exact absurd hstate.symm j.state.notMissing
  | some i =>
    cases j with
    | none => exact absurd hstate i.state.notMissing
    | some j =>
      obtain ⟨⟨word, _, _⟩, v4, v6⟩ := i
      obtain ⟨⟨word', _, _⟩, v4', v6'⟩ := j
      obtain rfl : word = word' := hstate
      obtain rfl : v4 = v4' := hv4
      obtain rfl : v6 = v6' := hv6
      rfl

theorem snapshot_toList (v : Inventory) : (snapshot v).toList =
    ifaceText "end0".toList v.end0 ++ ifaceText "wlan0".toList v.wlan0 :=
  String.toList_ofList

/-- **The line tells the inventory.** -/
theorem snapshot_injective : Function.Injective snapshot := by
  intro v w h
  have hl := congrArg String.toList h
  rw [snapshot_toList, snapshot_toList] at hl
  obtain ⟨hend, hrest⟩ := ifaceText_inj hl
  obtain ⟨hwlan, -⟩ := ifaceText_inj (congrArg (· ++ []) hrest)
  cases v; cases w
  simp_all

/-- The line is never empty, as `BASE` is at first. -/
theorem snapshot_ne_empty (v : Inventory) : snapshot v ≠ "" := by
  intro h
  have hl := congrArg String.toList h
  rw [snapshot_toList] at hl
  have hname : "end0".toList = [] := (List.append_eq_nil_iff.1 (List.append_eq_nil_iff.1 hl).1).1
  exact absurd hname (by decide)

end BrExternal.Netwatch
