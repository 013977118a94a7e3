import BrExternal.Bluetooth.ReadConfig

/-!
# The firmware image

What the tool reads from a firmware file: the project at its end, an extension section that is
walked backwards, and the table of patches of the older format at its start. The image is a buffer
of known length. A read outside of it is `fault`.
-/

namespace Bluetooth.Fwc

/-! ## Reading -/

/-- `n` bytes from `p` on. -/
def slice (fw : List Byte) (p n : Nat) : Outcome (List Byte) :=
  if ((fw.drop p).take n).length = n then .ok ((fw.drop p).take n) else .fault

def read8 (fw : List Byte) (p : Nat) : Outcome Byte := do
  let s ← slice fw p 1
  pure (s.getD 0 0)

def read16 (fw : List Byte) (p : Nat) : Outcome (BitVec 16) := do
  let s ← slice fw p 2
  pure (le16 (s.getD 0 0) (s.getD 1 0))

def read32 (fw : List Byte) (p : Nat) : Outcome (BitVec 32) := do
  let s ← slice fw p 4
  pure (getUnalignedLe32 s)

def le32Bytes (n : BitVec 32) : List Byte :=
  [n.setWidth 8, (n >>> 8).setWidth 8, (n >>> 16).setWidth 8, (n >>> 24).setWidth 8]

theorem getUnalignedLe32_le32Bytes (n : BitVec 32) : getUnalignedLe32 (le32Bytes n) = n := by
  apply BitVec.eq_of_toNat_eq
  have hn := n.isLt
  simp only [getUnalignedLe32, le32Bytes, List.getD_cons_zero, List.getD_cons_succ,
    BitVec.toNat_add, BitVec.toNat_shiftLeft, BitVec.toNat_setWidth, BitVec.toNat_ushiftRight,
    Nat.shiftLeft_eq, Nat.shiftRight_eq_div_pow]
  omega

section

variable {fw a rest : List Byte} {p n : Nat}

theorem slice_eq (h : fw.drop p = a ++ rest) (hn : a.length = n) : slice fw p n = .ok a := by
  have : (fw.drop p).take n = a := by rw [h, ← hn, List.take_left]
  rw [slice, this, if_pos hn]

theorem slice_of_le (h : n ≤ (fw.drop p).length) : slice fw p n = .ok ((fw.drop p).take n) := by
  rw [slice, if_pos (List.length_take_of_le h)]

theorem drop_next (h : fw.drop p = a ++ rest) (hn : a.length = n) : fw.drop (p + n) = rest := by
  rw [← List.drop_drop, h, ← hn, List.drop_left]

theorem read16_eq {v : BitVec 16} (h : fw.drop p = le16Bytes v ++ rest) :
    read16 fw p = .ok v := by
  rw [read16, slice_eq (n := 2) h rfl]
  exact congrArg Outcome.ok (le16_le16Bytes v)

theorem read32_eq {v : BitVec 32} (h : fw.drop p = le32Bytes v ++ rest) :
    read32 fw p = .ok v := by
  rw [read32, slice_eq (n := 4) h rfl]
  exact congrArg Outcome.ok (getUnalignedLe32_le32Bytes v)

end

/-! ## The project -/

def extensionSignature : List Byte := [0x51, 0x04, 0xFD, 0x77]

/-- The loop of `rtb_get_fw_project_id`, over the bytes from `p_buf` back to the start. -/
def projectLoop : List Byte → Outcome Byte
  | opcode :: len :: rest =>
    if opcode = 0x00#8 ∧ len = 1#8 then
      match rest.head? with
      | none => .fault
      | some data => .ok data
    else
      match (rest.drop len.toNat).head? with
      | none => .fault
      | some b => if b = 0xFF#8 then .ok 0 else projectLoop (rest.drop len.toNat)
  | _ => .fault
termination_by back => back.length
decreasing_by
  rw [List.length_drop, List.length_cons, List.length_cons]
  omega

/-- `rtb_get_fw_project_id`, called with the byte before the signature. -/
def getFwProjectId (fw : List Byte) : Outcome Byte :=
  projectLoop (fw.take (fw.length - 4)).reverse

def projectId : List (BitVec 16) :=
  [0x1200, 0x8723, 0x8821, 0x8761, 0x87b3, 0x8763, 0x8703, 0x87c3, 0x8822, 0x8723, 0x8821,
    0x0000, 0x0000, 0x8822, 0x8761, 0x0000, 0x0000, 0x0000, 0x8852, 0x8723, 0x8852,
    0x0000, 0x0000, 0x0000, 0x0000, 0x8852, 0x0000, 0x0000, 0x0000, 0x0000, 0x0000, 0x0000,
    0x0000, 0x8822, 0x8852, 0x0000, 0x8851]

structure ExtEntry where
  opcode : Byte
  data : List Byte
  short : data.length < 256

/-- The entry as it is met from behind. -/
def ExtEntry.back (e : ExtEntry) : List Byte :=
  e.opcode :: BitVec.ofNat 8 e.data.length :: e.data.reverse

/-- The extension section, its entries in the order in which they are met from behind. -/
def extBytes (es : List ExtEntry) : List Byte :=
  (es.flatMap ExtEntry.back ++ [0xff]).reverse ++ extensionSignature

/-- The project an extension section names; 0 if it names none. -/
def projectOf (es : List ExtEntry) : Byte :=
  match es.find? fun e => e.opcode = 0x00#8 ∧ e.data.length = 1 with
  | some e => e.data.headD 0
  | none => 0

/-- The walk finds the project, whatever stands before the section. -/
theorem projectLoop_back {es : List ExtEntry} (hne : es ≠ []) (hop : ∀ e ∈ es, e.opcode ≠ 0xff#8)
    (r : List Byte) : projectLoop (es.flatMap ExtEntry.back ++ 0xff :: r) = .ok (projectOf es) := by
  induction es with
  | nil => exact absurd rfl hne
  | cons e es ih =>
    have hlen : (BitVec.ofNat 8 e.data.length : Byte).toNat = e.data.length := by
      rw [BitVec.toNat_ofNat]
      exact Nat.mod_eq_of_lt e.short
    have hone : (BitVec.ofNat 8 e.data.length : Byte) = 1#8 ↔ e.data.length = 1 := by
      rw [← BitVec.toNat_inj, hlen]
      rfl
    have hback : (e :: es).flatMap ExtEntry.back ++ 0xff :: r = e.opcode ::
        BitVec.ofNat 8 e.data.length ::
          (e.data.reverse ++ (es.flatMap ExtEntry.back ++ 0xff :: r)) := by
      simp [ExtEntry.back]
    rw [hback, projectLoop]
    by_cases hp : e.opcode = 0x00#8 ∧ e.data.length = 1
    · obtain ⟨d, hd⟩ := List.length_eq_one_iff.1 hp.2
      rw [if_pos ⟨hp.1, hone.2 hp.2⟩, projectOf, List.find?_cons_of_pos (by simpa using hp)]
      dsimp only
      rw [hd]
      rfl
    · have hproj : projectOf (e :: es) = projectOf es := by
        rw [projectOf, List.find?_cons_of_neg (by simpa using hp), projectOf]
      rw [if_neg fun h => hp ⟨h.1, hone.1 h.2⟩, hproj, hlen, ← List.length_reverse, List.drop_left]
      cases es with
      | nil => rfl
      | cons e' es =>
        have hhead : ((e' :: es).flatMap ExtEntry.back ++ 0xff :: r).head? = some e'.opcode := rfl
        rw [hhead]
        dsimp only
        rw [if_neg (hop e' (by simp))]
        exact ih (List.cons_ne_nil _ _) fun x hx => hop x (List.mem_cons_of_mem _ hx)

theorem getFwProjectId_extBytes {es : List ExtEntry} (hne : es ≠ [])
    (hop : ∀ e ∈ es, e.opcode ≠ 0xff#8) (pre : List Byte) :
    getFwProjectId (pre ++ extBytes es) = .ok (projectOf es) := by
  have hlen : (pre ++ extBytes es).length - 4 =
      (pre ++ (es.flatMap ExtEntry.back ++ [0xff]).reverse).length := by
    simp only [extBytes, extensionSignature, List.length_append, List.length_reverse,
      List.length_cons, List.length_nil]
    omega
  rw [getFwProjectId, hlen, extBytes, ← List.append_assoc, List.take_left, List.reverse_append,
    List.reverse_reverse, List.append_assoc]
  exact projectLoop_back hne hop pre.reverse

/-! ## The table of the older format -/

/-- `rtb_patch_entry`, without the versions that are only logged. -/
structure PatchEntry where
  chipId : BitVec 16
  patchLen : BitVec 16
  soffset : BitVec 32
  deriving DecidableEq

/-- An entry once the versions at the end of its patch are read for the log. -/
def logVersions (fw : List Byte) (e : PatchEntry) : Outcome PatchEntry :=
  if e.soffset.toNat + e.patchLen.toNat < 12 then .fault
  else do
    let _ ← slice fw (e.soffset.toNat + e.patchLen.toNat - 12) 8
    pure e

/-- The loop of `rtb_get_patch_entry`, with `k` entries left. -/
def patchEntryLoop (fw : List Byte) (eversion : Byte) (n : Nat) : Nat → Nat → Outcome PatchEntry
  | 0, _ => .error
  | k + 1, i => do
    let chipId ← read16 fw (14 + 2 * i)
    if chipId.toNat = eversion.toNat + 1 then
      let patchLen ← read16 fw (14 + 2 * n + 2 * i)
      let soffset ← read32 fw (14 + 2 * n + 2 * n + 4 * i)
      logVersions fw ⟨chipId, patchLen, soffset⟩
    else patchEntryLoop fw eversion n k (i + 1)

def rtbGetPatchEntry (fw : List Byte) (eversion : Byte) : Outcome PatchEntry := do
  let n ← read16 fw 12
  patchEntryLoop fw eversion n.toNat n.toNat 0

/-- The header of an image of the older format, without the signature. -/
def tableBytes (version : List Byte) (es : List PatchEntry) : List Byte :=
  version ++ le16Bytes (BitVec.ofNat 16 es.length) ++ es.flatMap (le16Bytes ·.chipId) ++
    es.flatMap (le16Bytes ·.patchLen) ++ es.flatMap (le32Bytes ·.soffset)

theorem flatMap_length_const {α : Type} {f : α → List Byte} {k : Nat} (hf : ∀ x, (f x).length = k)
    (l : List α) : (l.flatMap f).length = k * l.length := by
  induction l with
  | nil => rfl
  | cons x l ih =>
    rw [List.flatMap_cons, List.length_append, hf, ih, List.length_cons, Nat.mul_succ, Nat.add_comm]

section

variable {fw : List Byte} {es : List PatchEntry} {r1 r2 r3 : List Byte}

theorem patchEntryLoop_eq (h1 : fw.drop 14 = es.flatMap (le16Bytes ·.chipId) ++ r1)
    (h2 : fw.drop (14 + 2 * es.length) = es.flatMap (le16Bytes ·.patchLen) ++ r2)
    (h3 : fw.drop (14 + 2 * es.length + 2 * es.length) = es.flatMap (le32Bytes ·.soffset) ++ r3)
    {eversion : Byte} {pre l : List PatchEntry} (hes : es = pre ++ l) :
    patchEntryLoop fw eversion es.length l.length pre.length =
      match l.find? (·.chipId.toNat = eversion.toNat + 1) with
      | none => .error
      | some e => logVersions fw e := by
  induction l generalizing pre with
  | nil => rfl
  | cons e l ih =>
    have hpre : ∀ (f : PatchEntry → List Byte) (k p : Nat) (r : List Byte),
        (∀ x, (f x).length = k) → fw.drop p = es.flatMap f ++ r →
        fw.drop (p + k * pre.length) = f e ++ (l.flatMap f ++ r) := by
      intro f k p r hf hp
      rw [hes, List.flatMap_append, List.flatMap_cons, List.append_assoc] at hp
      rw [drop_next hp (flatMap_length_const hf pre), List.append_assoc]
    have hid := read16_eq (hpre _ 2 14 _ (fun _ => rfl) h1)
    have hlen := read16_eq (hpre _ 2 _ _ (fun _ => rfl) h2)
    have hoff := read32_eq (hpre _ 4 _ _ (fun _ => rfl) h3)
    rw [List.length_cons, patchEntryLoop, hid, Outcome.ok_bind]
    by_cases he : e.chipId.toNat = eversion.toNat + 1
    · rw [if_pos he, hlen, Outcome.ok_bind, hoff, Outcome.ok_bind,
        List.find?_cons_of_pos (by simpa using he)]
    · have hes' : es = (pre ++ [e]) ++ l := by rw [hes, List.append_assoc]; rfl
      have hrest := ih hes'
      rw [List.length_append] at hrest
      rw [if_neg he, List.find?_cons_of_neg (by simpa using he)]
      exact hrest

end

theorem rtbGetPatchEntry_table {signature version : List Byte} (hs : signature.length = 8)
    (hv : version.length = 4) {es : List PatchEntry} (hes : es.length < 0x10000) (body : List Byte)
    (eversion : Byte) :
    rtbGetPatchEntry (signature ++ tableBytes version es ++ body) eversion =
      match es.find? (·.chipId.toNat = eversion.toNat + 1) with
      | none => .error
      | some e => logVersions (signature ++ tableBytes version es ++ body) e := by
  generalize hfw : signature ++ tableBytes version es ++ body = fw
  have hn : (BitVec.ofNat 16 es.length).toNat = es.length := by
    rw [BitVec.toNat_ofNat]
    exact Nat.mod_eq_of_lt hes
  have h12 : fw.drop (8 + 4) = le16Bytes (BitVec.ofNat 16 es.length) ++
      (es.flatMap (le16Bytes ·.chipId) ++ (es.flatMap (le16Bytes ·.patchLen) ++
        (es.flatMap (le32Bytes ·.soffset) ++ body))) := by
    have h8 : fw.drop 8 = version ++ (le16Bytes (BitVec.ofNat 16 es.length) ++
        (es.flatMap (le16Bytes ·.chipId) ++ (es.flatMap (le16Bytes ·.patchLen) ++
          (es.flatMap (le32Bytes ·.soffset) ++ body)))) := by
      rw [← hfw, ← hs, tableBytes]
      simp only [List.append_assoc, List.drop_left]
    exact drop_next h8 hv
  have h14 := drop_next (n := 2) h12 rfl
  have h2 := drop_next h14 (flatMap_length_const (k := 2) (fun _ => rfl) es)
  have h3 := drop_next h2 (flatMap_length_const (k := 2) (fun _ => rfl) es)
  rw [rtbGetPatchEntry, read16_eq h12, Outcome.ok_bind, hn]
  exact patchEntryLoop_eq h14 h2 h3 (List.nil_append es).symm

end Bluetooth.Fwc
