import BrExternal.Lib.Shell
import BrExternal.Netwatch.Inventory

/-!
# `snapshot()` from the texts it reads

The pipelines of `snapshot()` on what `ip addr show` prints: one line for each address, in any
order and among other lines. The line it prints is a canonical form of the inventory
(`View.snapshot_eq_iff`), for whatever total order `sort` uses, as long as no operstate is the
script's own word `missing` and nothing behind an address looks like another one. With the
lexicographic order it is the `snapshot` of the inventory (`View.snapshot_shows`).
-/

namespace BrExternal.Netwatch

open Text Sh

/-! ## What the commands print -/

/-- A line of `ip addr show` with an address. -/
structure AddrLine (f : Family) where
  indent : Nat
  addr : Addr f
  /-- The length of the network part and the fields behind it. -/
  rest : List Char
  oneLine : '\n' ∉ rest

structure OtherLine where
  text : List Char
  oneLine : '\n' ∉ text
  noAddress : ¬ "inet".toList <:+: text

inductive Line (f : Family) where
  | addr (l : AddrLine f)
  | other (l : OtherLine)

/-- An interface that exists: its operstate and the lines of `ip -4` and `ip -6`. -/
structure IfaceView where
  state : List Char
  lower : ∀ c ∈ state, c.isLower = true
  v4 : List (Line inet)
  v6 : List (Line inet6)

structure View where
  end0 : Option IfaceView
  wlan0 : Option IfaceView

section
variable {f : Family}

def Line.text : Line f → List Char
  | .addr l => List.replicate l.indent ' ' ++ (f.lit ++ (l.addr.text ++ '/' :: l.rest))
  | .other l => l.text

def Line.addr? : Line f → Option (Addr f)
  | .addr l => some l.addr
  | .other _ => none

def addrs (lines : List (Line f)) : List (Addr f) := lines.filterMap Line.addr?

def ipText (lines : List (Line f)) : List Char := terminated '\n' (lines.map Line.text)

end

/-- `cat .../operstate || echo missing`. -/
def stateText : Option IfaceView → List Char
  | none => "missing\n".toList
  | some i => i.state ++ ['\n']

def v4Lines : Option IfaceView → List (Line inet)
  | none => []
  | some i => i.v4

def v6Lines : Option IfaceView → List (Line inet6)
  | none => []
  | some i => i.v6

/-! ## The script -/

def grepOnly (f : Family) (text : List Char) : List Char :=
  terminated '\n' ((fieldsOf '\n' text).flatMap fun line =>
    (grepRuns f.lit f.cls 0 line).map (f.lit ++ ·))

section
variable (o : LinearOrder (List Char))

def sortText (text : List Char) : List Char := terminated '\n' (sorted o (fieldsOf '\n' text))

/-- `$(ip addr show | grep -o ... | sort | tr '\n' ',')`. -/
def addrField (f : Family) (text : List Char) : List Char :=
  stripNewlines (tr '\n' ',' (sortText o (grepOnly f text)))

def ifaceOut (name : List Char) (i : Option IfaceView) : List Char :=
  field name (stripNewlines (stateText i)) (addrField o inet (ipText (v4Lines i)))
    (addrField o inet6 (ipText (v6Lines i)))

def View.snapshot (v : View) : List Char :=
  ifaceOut o "end0".toList v.end0 ++ ifaceOut o "wlan0".toList v.wlan0 ++ ['\n']

end

/-! ## The pipelines -/

/-- The marks around an address are no part of it. -/
structure Family.Readable (f : Family) : Prop where
  word : "inet".toList <+: f.lit
  lit_newline : '\n' ∉ f.lit
  cls_newline : f.cls '\n' = false
  cls_slash : f.cls '/' = false

theorem inet_readable : inet.Readable := ⟨by decide, by decide, by decide, by decide⟩

theorem inet6_readable : inet6.Readable := ⟨by decide, by decide, by decide, by decide⟩

/-- Nothing behind the address looks like another one. -/
def Line.Plain {f : Family} : Line f → Prop
  | .addr l => ¬ f.lit <:+: l.rest
  | .other _ => True

section
variable {f : Family}

theorem Addr.newline_not_mem (hf : f.Readable) (a : Addr f) : '\n' ∉ a.text := by
  intro h
  have hcls := a.legal _ h
  rw [hf.cls_newline] at hcls
  cases hcls

theorem Line.oneLine (hf : f.Readable) (l : Line f) : '\n' ∉ l.text := by
  cases l with
  | other l => exact l.oneLine
  | addr l =>
    intro h
    rcases List.mem_append.1 h with h | h
    · exact absurd (List.eq_of_mem_replicate h) (by decide)
    rcases List.mem_append.1 h with h | h
    · exact hf.lit_newline h
    rcases List.mem_append.1 h with h | h
    · exact l.addr.newline_not_mem hf h
    rcases List.mem_cons.1 h with h | h
    · exact absurd h (by decide)
    · exact l.oneLine h

theorem Family.Readable.lit_cons (hf : f.Readable) : ∃ t, f.lit = 'i' :: t := by
  obtain ⟨t, ht⟩ := hf.word
  exact ⟨"net".toList ++ t, ht.symm⟩

theorem Line.grepRuns_text (hf : f.Readable) {l : Line f} (hl : l.Plain) :
    grepRuns f.lit f.cls 0 l.text = (l.addr?.map Addr.text).toList := by
  cases l with
  | other l => exact grepFrom_none fun h => l.noAddress (hf.word.isInfix.trans h)
  | addr l =>
    obtain ⟨t, ht⟩ := hf.lit_cons
    have hindent : 'i' ∉ List.replicate l.indent ' ' := fun h =>
      absurd (List.eq_of_mem_replicate h) (by decide)
    have hrest : ¬ f.lit <:+: '/' :: l.rest := by
      intro h
      rcases List.infix_cons_iff.1 h with h | h
      · rw [ht] at h
        exact absurd (List.cons_prefix_cons.1 h).1 (by decide)
      · exact hl h
    show grepFrom f.lit f.cls 0 0
      (List.replicate l.indent ' ' ++ (f.lit ++ (l.addr.text ++ '/' :: l.rest))) = [l.addr.text]
    rw [ht, grepFrom_free hindent, grepFrom_hit l.addr.legal (Nat.zero_le _), ← ht,
      grepFrom_none hrest]
    intro c hc
    cases hc
    exact hf.cls_slash

theorem grepOnly_ipText (hf : f.Readable) {lines : List (Line f)} (hl : ∀ l ∈ lines, l.Plain) :
    grepOnly f (ipText lines) = terminated '\n' ((addrs lines).map Addr.line) := by
  have htexts : ∀ x ∈ lines.map Line.text, '\n' ∉ x := by
    intro x hx
    obtain ⟨l, -, rfl⟩ := List.mem_map.1 hx
    exact l.oneLine hf
  unfold grepOnly ipText
  rw [fieldsOf_terminated htexts, List.flatMap_map]
  congr 1
  induction lines with
  | nil => rfl
  | cons l lines ih =>
    have hline := Line.grepRuns_text hf (hl l (List.mem_cons_self ..))
    have htail := ih (fun x hx => hl x (List.mem_cons_of_mem _ hx))
      fun x hx => htexts x (List.mem_cons_of_mem _ hx)
    rw [List.flatMap_cons, hline, htail]
    cases l with
    | other l => rfl
    | addr l => rfl

theorem addrLines_free {c : Char} (hlit : c ∉ f.lit) (hcls : f.cls c = false)
    (lines : List (Line f)) : ∀ x ∈ (addrs lines).map Addr.line, c ∉ x :=
  lines_free hlit hcls (addrs lines : Multiset (Addr f))

variable (o : LinearOrder (List Char))

theorem sortedLines_free {c : Char} (hlit : c ∉ f.lit) (hcls : f.cls c = false)
    (lines : List (Line f)) : ∀ x ∈ sorted o ((addrs lines).map Addr.line), c ∉ x :=
  fun x hx => addrLines_free hlit hcls lines x ((sorted_perm o _).mem_iff.1 hx)

theorem addrField_ipText (hf : f.Readable) {lines : List (Line f)} (hl : ∀ l ∈ lines, l.Plain) :
    addrField o f (ipText lines) = terminated ',' (sorted o ((addrs lines).map Addr.line)) := by
  have hsorted := sortedLines_free o hf.lit_newline hf.cls_newline lines
  unfold addrField sortText
  rw [grepOnly_ipText hf hl, fieldsOf_terminated (addrLines_free hf.lit_newline hf.cls_newline _),
    tr_terminated hsorted]
  exact stripNewlines_of_not_mem (not_mem_terminated (by decide) hsorted)

theorem addrField_free (hf : f.Readable) {lines : List (Line f)} (hl : ∀ l ∈ lines, l.Plain)
    {c : Char} (hc : c ≠ ',') (hlit : c ∉ f.lit) (hcls : f.cls c = false) :
    c ∉ addrField o f (ipText lines) := by
  rw [addrField_ipText o hf hl]
  exact not_mem_terminated hc (sortedLines_free o hlit hcls lines)

/-- The field tells the addresses, and not their order. -/
theorem addrField_eq_iff (hf : f.Readable) (hlit : ',' ∉ f.lit) (hcls : f.cls ',' = false)
    {lines lines' : List (Line f)} (hl : ∀ l ∈ lines, l.Plain) (hl' : ∀ l ∈ lines', l.Plain) :
    addrField o f (ipText lines) = addrField o f (ipText lines') ↔
      (addrs lines : Multiset (Addr f)) = addrs lines' := by
  rw [addrField_ipText o hf hl, addrField_ipText o hf hl', Multiset.coe_eq_coe]
  have hsorted : terminated ',' (sorted o ((addrs lines).map Addr.line)) =
      terminated ',' (sorted o ((addrs lines').map Addr.line)) ↔
      sorted o ((addrs lines).map Addr.line) = sorted o ((addrs lines').map Addr.line) :=
    ⟨terminated_inj (sortedLines_free o hlit hcls _) (sortedLines_free o hlit hcls _),
      congrArg _⟩
  rw [hsorted, sorted_eq_iff, List.map_perm_map_iff Addr.line_injective]

end

/-! ## Canonical form -/

def stateOf : Option IfaceView → List Char
  | none => "missing".toList
  | some i => i.state

theorem stripNewlines_stateText (i : Option IfaceView) :
    stripNewlines (stateText i) = stateOf i := by
  cases i with
  | none => rfl
  | some i =>
    refine (stripNewlines_append_newline i.state).trans (stripNewlines_of_not_mem fun h => ?_)
    exact absurd (i.lower _ h) (by decide)

theorem stateOf_free (i : Option IfaceView) : '|' ∉ stateOf i := by
  cases i with
  | none => decide
  | some i => exact fun h => absurd (i.lower _ h) (by decide)

/-- The operstate is not the script's word for an absent interface, and nothing behind an address
looks like another one. -/
structure IfaceView.Plain (i : IfaceView) : Prop where
  notMissing : i.state ≠ "missing".toList
  v4 : ∀ l ∈ i.v4, l.Plain
  v6 : ∀ l ∈ i.v6, l.Plain

structure View.Plain (v : View) : Prop where
  end0 : ∀ i ∈ v.end0, i.Plain
  wlan0 : ∀ i ∈ v.wlan0, i.Plain

/-- Both absent, or the same operstate and the same addresses. -/
def SameIface : Option IfaceView → Option IfaceView → Prop
  | none, none => True
  | some i, some j => i.state = j.state ∧ (addrs i.v4 : Multiset (Addr inet)) = addrs j.v4 ∧
    (addrs i.v6 : Multiset (Addr inet6)) = addrs j.v6
  | _, _ => False

/-- The two views are of one inventory. -/
def View.Same (v w : View) : Prop := SameIface v.end0 w.end0 ∧ SameIface v.wlan0 w.wlan0

theorem sameIface_iff {i j : Option IfaceView} (hi : ∀ x ∈ i, x.Plain) (hj : ∀ x ∈ j, x.Plain) :
    SameIface i j ↔ stateOf i = stateOf j ∧
      (addrs (v4Lines i) : Multiset (Addr inet)) = addrs (v4Lines j) ∧
      (addrs (v6Lines i) : Multiset (Addr inet6)) = addrs (v6Lines j) := by
  cases i with
  | none =>
    cases j with
    | none => exact iff_of_true trivial ⟨rfl, rfl, rfl⟩
    | some j => exact iff_of_false id fun h => (hj j rfl).notMissing h.1.symm
  | some i =>
    cases j with
    | none => exact iff_of_false id fun h => (hi i rfl).notMissing h.1
    | some j => exact Iff.rfl

theorem lines_plain {i : Option IfaceView} (hi : ∀ x ∈ i, x.Plain) :
    (∀ l ∈ v4Lines i, l.Plain) ∧ ∀ l ∈ v6Lines i, l.Plain := by
  cases i with
  | none => exact ⟨fun l hl => absurd hl List.not_mem_nil, fun l hl => absurd hl List.not_mem_nil⟩
  | some i => exact ⟨(hi i rfl).v4, (hi i rfl).v6⟩

/-- An interface's part of the text, followed by anything, is its canonical form. -/
theorem ifaceOut_append_eq_iff (o : LinearOrder (List Char)) {name r t : List Char}
    {i j : Option IfaceView} (hi : ∀ x ∈ i, x.Plain) (hj : ∀ x ∈ j, x.Plain) :
    ifaceOut o name i ++ r = ifaceOut o name j ++ t ↔ SameIface i j ∧ r = t := by
  have hv4 := addrField_eq_iff o inet_readable (by decide) (by decide) (lines_plain hi).1
    (lines_plain hj).1
  have hv6 := addrField_eq_iff o inet6_readable (by decide) (by decide) (lines_plain hi).2
    (lines_plain hj).2
  have hbar : ∀ {i : Option IfaceView}, (∀ x ∈ i, x.Plain) →
      '|' ∉ addrField o inet (ipText (v4Lines i)) := fun hi =>
    addrField_free o inet_readable (lines_plain hi).1 (by decide) (by decide) (by decide)
  have hsemi : ∀ {i : Option IfaceView}, (∀ x ∈ i, x.Plain) →
      ';' ∉ addrField o inet6 (ipText (v6Lines i)) := fun hi =>
    addrField_free o inet6_readable (lines_plain hi).2 (by decide) (by decide) (by decide)
  rw [sameIface_iff hi hj, ← hv4, ← hv6]
  unfold ifaceOut
  rw [stripNewlines_stateText, stripNewlines_stateText]
  constructor
  · intro h
    obtain ⟨hstate, h4, h6, hr⟩ := field_inj (stateOf_free i) (stateOf_free j) (hbar hi) (hbar hj)
      (hsemi hi) (hsemi hj) h
    exact ⟨⟨hstate, h4, h6⟩, hr⟩
  · rintro ⟨⟨hstate, h4, h6⟩, hr⟩
    rw [hstate, h4, h6, hr]

/-- **The text is a canonical form of the inventory.** -/
theorem View.snapshot_eq_iff (o : LinearOrder (List Char)) {v w : View} (hv : v.Plain)
    (hw : w.Plain) : v.snapshot o = w.snapshot o ↔ v.Same w := by
  unfold View.snapshot View.Same
  rw [List.append_assoc, List.append_assoc, ifaceOut_append_eq_iff o hv.end0 hw.end0,
    ifaceOut_append_eq_iff o hv.wlan0 hw.wlan0, and_iff_left rfl]

def inetLine (text rest : List Char) (legal : text.all inet.cls = true) (oneLine : '\n' ∉ rest) :
    Line inet :=
  .addr ⟨4, ⟨text, List.all_eq_true.1 legal⟩, rest, oneLine⟩

/-- `end0` with an operstate and IPv4 lines, no `wlan0`. -/
def wired (state : List Char) (lower : state.all Char.isLower = true) (v4 : List (Line inet)) :
    View :=
  ⟨some ⟨state, List.all_eq_true.1 lower, v4, []⟩, none⟩

/-- A leased address, and a link-local one. -/
def leased : Line inet :=
  inetLine "10.0.0.2".toList "24 brd 10.0.0.255 scope global end0".toList (by decide) (by decide)

def linkLocal : Line inet :=
  inetLine "169.254.7.1".toList "16 scope link end0".toList (by decide) (by decide)

theorem wired_plain {state : List Char} {lower : state.all Char.isLower = true}
    {v4 : List (Line inet)} (hstate : state ≠ "missing".toList) (h : ∀ l ∈ v4, l.Plain) :
    (wired state lower v4).Plain := by
  refine ⟨fun i hi => ?_, fun i hi => ?_⟩
  · cases hi
    exact ⟨hstate, h, fun l hl => absurd hl List.not_mem_nil⟩
  · cases hi

theorem snapshot_eq_iff_reordered :
    (wired "up".toList (by decide) [leased, linkLocal]).snapshot inferInstance =
      (wired "up".toList (by decide) [linkLocal, leased]).snapshot inferInstance := by
  have hleased : leased.Plain := by
    unfold leased inetLine Line.Plain
    decide
  have hlinkLocal : linkLocal.Plain := by
    unfold linkLocal inetLine Line.Plain
    decide
  refine (View.snapshot_eq_iff inferInstance (wired_plain (by decide) ?_)
    (wired_plain (by decide) ?_)).2 ⟨⟨rfl, ?_, rfl⟩, trivial⟩
  · simp [hleased, hlinkLocal]
  · simp [hleased, hlinkLocal]
  · exact Multiset.coe_eq_coe.2 (List.Perm.swap ..)

/-- A leased address with a second one in the fields behind it, and the second on its own. -/
def doubled : Line inet :=
  inetLine "10.0.0.2".toList "24 inet 10.0.0.3".toList (by decide) (by decide)

def second : Line inet := inetLine "10.0.0.3".toList "24".toList (by decide) (by decide)

/-- The operstate `missing` is printed as an absent interface is, and an address in the fields
behind another one as if it had its own line. -/
theorem snapshot_collides :
    ((wired "missing".toList (by decide) []).snapshot inferInstance =
        View.snapshot inferInstance ⟨none, none⟩ ∧
      ¬ (wired "missing".toList (by decide) []).Same ⟨none, none⟩) ∧
    ((wired "up".toList (by decide) [doubled]).snapshot inferInstance =
        (wired "up".toList (by decide) [leased, second]).snapshot inferInstance ∧
      ¬ (wired "up".toList (by decide) [doubled]).Same
        (wired "up".toList (by decide) [leased, second])) := by
  have hgrep : grepOnly inet (ipText [doubled]) = grepOnly inet (ipText [leased, second]) := by
    decide
  have hfield : ∀ o, addrField o inet (ipText [doubled]) =
      addrField o inet (ipText [leased, second]) := fun o => by
    unfold addrField
    rw [hgrep]
  refine ⟨⟨rfl, fun h => h.1⟩, ?_, fun h => ?_⟩
  · show field _ _ (addrField _ inet (ipText [doubled])) _ ++ _ ++ _ = _
    rw [hfield]
    rfl
  · exact absurd (congrArg Multiset.card h.1.2.1) (by decide)

/-! ## The abstract snapshot -/

def ShowsIface : Option IfaceView → Option Iface → Prop
  | none, none => True
  | some i, some j => i.state = j.state.word ∧ (addrs i.v4 : Multiset (Addr inet)) = j.v4 ∧
    (addrs i.v6 : Multiset (Addr inet6)) = j.v6
  | _, _ => False

/-- The view shows the inventory. -/
def View.Shows (v : View) (inv : Inventory) : Prop :=
  ShowsIface v.end0 inv.end0 ∧ ShowsIface v.wlan0 inv.wlan0

theorem terminated_sorted (l : List (List Char)) :
    terminated ',' (sorted inferInstance l) = joined (l : Multiset (List Char)) := by
  unfold joined
  congr 1
  have hperm : (sorted inferInstance l).Perm ((l : Multiset (List Char)).sort (· ≤ ·)) :=
    (sorted_perm _ l).trans (Multiset.coe_eq_coe.1 (Multiset.sort_eq _ _)).symm
  exact hperm.eq_of_pairwise (fun _ _ _ _ => le_antisymm) (sorted_pairwise _ l)
    (Multiset.pairwise_sort _ _)

theorem ShowsIface.fields {i : Option IfaceView} {j : Option Iface} (h : ShowsIface i j) :
    stateOf i = stateWord j ∧ (addrs (v4Lines i) : Multiset (Addr inet)) = v4Of j ∧
      (addrs (v6Lines i) : Multiset (Addr inet6)) = v6Of j := by
  cases i with
  | none =>
    cases j with
    | none => exact ⟨rfl, rfl, rfl⟩
    | some j => exact h.elim
  | some i =>
    cases j with
    | none => exact h.elim
    | some j => exact h

theorem ifaceOut_shows {name : List Char} {i : Option IfaceView} {j : Option Iface}
    (hi : ∀ x ∈ i, x.Plain) (h : ShowsIface i j) :
    ifaceOut inferInstance name i = ifaceText name j := by
  obtain ⟨hstate, h4, h6⟩ := h.fields
  unfold ifaceOut ifaceText
  rw [stripNewlines_stateText, addrField_ipText _ inet_readable (lines_plain hi).1,
    addrField_ipText _ inet6_readable (lines_plain hi).2, terminated_sorted, terminated_sorted,
    ← Multiset.map_coe, ← Multiset.map_coe, hstate, h4, h6]

/-- **The text refines the abstract line.** `CUR=$(snapshot)` holds it without the newline. -/
theorem View.snapshot_shows {v : View} {inv : Inventory} (hv : v.Plain) (h : v.Shows inv) :
    stripNewlines (v.snapshot inferInstance) = (Netwatch.snapshot inv).toList := by
  unfold View.snapshot
  rw [stripNewlines_append_newline, ifaceOut_shows hv.end0 h.1, ifaceOut_shows hv.wlan0 h.2,
    snapshot_toList]
  unfold ifaceText field
  simp only [← List.append_assoc]
  exact stripNewlines_concat (by decide) _

end BrExternal.Netwatch
