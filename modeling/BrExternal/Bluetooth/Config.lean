import BrExternal.Bluetooth.Frame
import Mathlib.Data.List.Basic

/-!
# The config of the controller

`rtb_read_config` reads the vendor's config file, a list of items `offset, length, data` behind a
magic word and a length, merges the settings of a text file and the Bluetooth address into it, and
writes it out again in the same format. The counters are the 16 bit ones of the source. A read or a
write outside its buffer is `fault`.
-/

namespace Bluetooth.Fwc

/-- `cfg_list_item`. The length is a byte. -/
@[ext]
structure CfgItem where
  offset : BitVec 16
  data : List Byte
  short : data.length < 256
  deriving DecidableEq

/-- What a function of the source comes to. -/
inductive Outcome (α : Type) where
  | ok (a : α)
  /-- The error return. -/
  | error
  | fault
  deriving DecidableEq, Repr

instance : Monad Outcome where
  pure := .ok
  bind x f := match x with
    | .ok a => f a
    | .error => .error
    | .fault => .fault

@[simp] theorem Outcome.ok_bind {α β : Type} (a : α) (f : α → Outcome β) :
    (Outcome.ok a >>= f) = f a := rfl

@[simp] theorem Outcome.pure_eq_ok {α : Type} (a : α) : (pure a : Outcome α) = .ok a := rfl

def cfgMagic : List Byte := [0x55, 0xab, 0x23, 0x87]

def le16 (lo hi : Byte) : BitVec 16 := H5.be16 hi lo

/-- A 16 bit number, low byte first. -/
def le16Bytes (n : BitVec 16) : List Byte := [n.setWidth 8, (n >>> 8).setWidth 8]

namespace CfgItem

def bytes (n : CfgItem) : List Byte :=
  le16Bytes n.offset ++ [BitVec.ofNat 8 n.data.length] ++ n.data

def size (n : CfgItem) : Nat := 3 + n.data.length

end CfgItem

def sizes (items : List CfgItem) : Nat := (items.map (·.size)).sum

/-- The loop of `rtb_parse_config` over the bytes from `entry` on. -/
def parseItems (cfgLen i : Nat) : List Byte → Outcome (List CfgItem)
  | o0 :: o1 :: len :: rest =>
    if i < cfgLen then
      if len.toNat ≤ rest.length then do
        let item : CfgItem := ⟨le16 o0 o1, rest.take len.toNat, by
          rw [List.length_take]; have := len.isLt; omega⟩
        let items ← parseItems cfgLen ((i + (len.toNat + 3)) % 0x10000) (rest.drop len.toNat)
        pure (item :: items)
      else .fault
    else .ok []
  | _ => if i < cfgLen then .fault else .ok []
termination_by rest => rest.length
decreasing_by
  simp only [List.length_drop, List.length_cons]
  omega

def parseConfig (buf : List Byte) : Outcome (List CfgItem) :=
  match buf with
  | m0 :: m1 :: m2 :: m3 :: l0 :: l1 :: entries =>
    if [m0, m1, m2, m3] ≠ cfgMagic then .error
    else
      let cfgLen := (le16 l0 l1).toNat
      if cfgLen ≠ entries.length then .error else parseItems cfgLen 0 entries
  | _ => .error

def configBytes (items : List CfgItem) : List Byte :=
  cfgMagic ++ le16Bytes (BitVec.ofNat 16 (sizes items)) ++ items.flatMap (·.bytes)

/-- The end of `rtb_read_config`: `config_len` bytes are allocated, and all items written. -/
def writeConfig (items : List CfgItem) : Outcome (List Byte) :=
  let configLen := (6 + sizes items) % 0x10000
  if (configBytes items).length ≤ configLen then .ok (configBytes items) else .fault

theorem le16_le16Bytes (n : BitVec 16) : le16 (n.setWidth 8) ((n >>> 8).setWidth 8) = n :=
  H5.be16_crcBytes n

theorem CfgItem.bytes_length (n : CfgItem) : n.bytes.length = n.size := by
  simp [bytes, size, le16Bytes]
  omega

theorem sizes_cons (n : CfgItem) (items : List CfgItem) :
    sizes (n :: items) = n.size + sizes items := rfl

theorem sizes_append (items items' : List CfgItem) :
    sizes (items ++ items') = sizes items + sizes items' := by
  rw [sizes, List.map_append, List.sum_append]
  rfl

theorem flatMap_bytes_length (items : List CfgItem) :
    (items.flatMap (·.bytes)).length = sizes items := by
  induction items with
  | nil => rfl
  | cons n items ih =>
    rw [List.flatMap_cons, List.length_append, ih, n.bytes_length]
    rfl

theorem configBytes_length (items : List CfgItem) :
    (configBytes items).length = 6 + sizes items := by
  simp only [configBytes, List.length_append, flatMap_bytes_length]
  rfl

theorem parseItems_bytes (items : List CfgItem) (cfgLen i : Nat) (hlen : cfgLen < 0x10000)
    (hi : i + sizes items = cfgLen) :
    parseItems cfgLen i (items.flatMap (·.bytes)) = .ok items := by
  induction items generalizing i with
  | nil =>
    have : i = cfgLen := hi
    rw [List.flatMap_nil, parseItems, if_neg (by omega)]
    simp
  | cons n items ih =>
    have hsize : i + (n.size + sizes items) = cfgLen := hi
    have hshort := n.short
    have hn : (BitVec.ofNat 8 n.data.length : Byte).toNat = n.data.length := by
      rw [BitVec.toNat_ofNat]
      omega
    have hstep : (i + (n.data.length + 3)) % 0x10000 = i + n.size := by
      unfold CfgItem.size at hsize ⊢
      omega
    have hrest := ih (i + n.size) (by omega)
    rw [List.flatMap_cons, CfgItem.bytes, le16Bytes]
    simp only [List.cons_append, List.nil_append]
    rw [parseItems, if_pos (by unfold CfgItem.size at hsize; omega),
      if_pos (by rw [hn, List.length_append]; omega)]
    simp only [hn, List.drop_left, List.take_left, hstep, hrest, le16_le16Bytes, Outcome.ok_bind,
      Outcome.pure_eq_ok]

theorem parseConfig_configBytes {items : List CfgItem} (h : sizes items < 0x10000) :
    parseConfig (configBytes items) = .ok items := by
  have hl : (BitVec.ofNat 16 (sizes items)).toNat = sizes items := by
    rw [BitVec.toNat_ofNat]
    omega
  have hbytes : configBytes items = 0x55 :: 0xab :: 0x23 :: 0x87 ::
    (BitVec.ofNat 16 (sizes items)).setWidth 8 ::
    (BitVec.ofNat 16 (sizes items) >>> 8).setWidth 8 :: items.flatMap (·.bytes) := rfl
  rw [hbytes, parseConfig, if_neg (by decide)]
  dsimp only
  rw [le16_le16Bytes, hl, flatMap_bytes_length, if_neg (not_not.2 rfl)]
  exact parseItems_bytes items _ 0 h (Nat.zero_add _)

example : parseConfig (cfgMagic ++ [0x03, 0x00, 0x8f, 0x00, 0x01]) = .fault := by decide +kernel

/-- The items of the `rtl8821c_config` that is shipped. -/
def shipped : List CfgItem :=
  [⟨0x000c, [0x02, 0x80, 0x92, 0x04, 0x50, 0xc5, 0xea, 0x19, 0xe1, 0x1b, 0xfd, 0xaf, 0x5f, 0x01,
      0xa4, 0x0b], by decide⟩,
    ⟨0x00d9, [0x0f], by decide⟩, ⟨0x00e4, [0x08], by decide⟩, ⟨0x008d, [0xfa], by decide⟩,
    ⟨0x008f, [0xbf], by decide⟩]

/-! ## Merging -/

/-- One pass of the outer loop of `merge_configs`; `none` when no item has the offset. A longer item
is overwritten at its start, and the loop is left. A shorter one is replaced and the loop goes on,
so that at a further item with the offset the new one moves there. -/
def mergeItem (extra : CfgItem) : List CfgItem → Option (List CfgItem)
  | [] => none
  | n :: items =>
    if extra.offset = n.offset then
      if extra.data.length < n.data.length then
        some (⟨n.offset, extra.data ++ n.data.drop extra.data.length, by
          have := n.short
          have := extra.short
          rw [List.length_append, List.length_drop]
          omega⟩ :: items)
      else some ((mergeItem extra items).getD (extra :: items))
    else (mergeItem extra items).map (n :: ·)

/-- The outer loop: the merged list and the items that remain. -/
def mergeLoop : List CfgItem → List CfgItem → List CfgItem × List CfgItem
  | head, [] => (head, [])
  | head, extra :: head2 =>
    match mergeItem extra head with
    | some head => mergeLoop head head2
    | none =>
      let (head, rest) := mergeLoop head head2
      (head, extra :: rest)

def mergeConfigs (head head2 : List CfgItem) : List CfgItem :=
  if head2 = [] then head
  else if head = [] then head2
  else
    let (head, rest) := mergeLoop head head2
    head ++ rest

/-- What the items make of an offset when they are written there one after the other. -/
def value (items : List CfgItem) (o : BitVec 16) : List Byte :=
  (items.filter (·.offset = o)).foldl (fun acc n => n.data ++ acc.drop n.data.length) []

/-- No offset is set twice. -/
def Distinct (items : List CfgItem) : Prop := items.Pairwise fun m n => m.offset ≠ n.offset

instance (items : List CfgItem) : Decidable (Distinct items) :=
  inferInstanceAs (Decidable (List.Pairwise _ _))

theorem value_append (items items' : List CfgItem) (o : BitVec 16) :
    value (items ++ items') o =
      (items'.filter (·.offset = o)).foldl (fun acc n => n.data ++ acc.drop n.data.length)
        (value items o) := by
  rw [value, List.filter_append, List.foldl_append]
  rfl

theorem value_concat (items : List CfgItem) (n : CfgItem) (o : BitVec 16) :
    value (items ++ [n]) o =
      if n.offset = o then n.data ++ (value items o).drop n.data.length else value items o := by
  rw [value_append]
  by_cases h : n.offset = o
  · simp [h]
  · simp [h]

theorem filter_offset_eq_nil {items : List CfgItem} {o : BitVec 16}
    (h : ∀ n ∈ items, n.offset ≠ o) : items.filter (·.offset = o) = [] :=
  List.filter_eq_nil_iff.2 fun n hn => by simp [h n hn]

theorem mergeItem_eq_none {extra : CfgItem} {items : List CfgItem} :
    mergeItem extra items = none ↔ ∀ n ∈ items, n.offset ≠ extra.offset := by
  induction items with
  | nil => simp [mergeItem]
  | cons n items ih =>
    rw [mergeItem]
    split
    · rename_i h
      split <;> simp [h.symm]
    · rename_i h
      simp [ih, Ne.symm h]

theorem mergeItem_offsets {extra : CfgItem} {items items' : List CfgItem} (hd : Distinct items)
    (h : mergeItem extra items = some items') : items'.map (·.offset) = items.map (·.offset) := by
  induction items generalizing items' with
  | nil => cases h
  | cons n items ih =>
    obtain ⟨hn, hd⟩ := List.pairwise_cons.1 hd
    rw [mergeItem] at h
    split at h
    · rename_i ho
      have hnone : mergeItem extra items = none :=
        mergeItem_eq_none.2 fun m hm => ho ▸ (hn m hm).symm
      split at h
      · cases h
        rfl
      · rw [hnone] at h
        cases h
        simp [ho]
    · obtain ⟨r, hr, rfl⟩ := Option.map_eq_some_iff.1 h
      rw [List.map_cons, ih hd hr, List.map_cons]

theorem mergeItem_value {extra : CfgItem} {items items' : List CfgItem} (hd : Distinct items)
    (h : mergeItem extra items = some items') (o : BitVec 16) :
    value items' o = value (items ++ [extra]) o := by
  induction items generalizing items' with
  | nil => cases h
  | cons n items ih =>
    obtain ⟨hn, hd⟩ := List.pairwise_cons.1 hd
    rw [value_concat]
    rw [mergeItem] at h
    split at h
    · rename_i ho
      have hother : ∀ m ∈ items, m.offset ≠ extra.offset := fun m hm => ho ▸ (hn m hm).symm
      have hnone : mergeItem extra items = none := mergeItem_eq_none.2 hother
      by_cases he : extra.offset = o
      · have hrest : items.filter (·.offset = o) = [] :=
          filter_offset_eq_nil fun m hm => he ▸ hother m hm
        have hold : value (n :: items) o = n.data := by
          simp [value, ← ho, he, hrest]
        rw [if_pos he, hold]
        split at h
        · cases h
          simp [value, ← ho, he, hrest]
        · rename_i hlen
          rw [hnone] at h
          cases h
          rw [List.drop_eq_nil_iff.2 (Nat.le_of_not_lt hlen), List.append_nil]
          simp [value, he, hrest]
      · rw [if_neg he]
        split at h
        · cases h
          simp [value, ← ho, he]
        · rw [hnone] at h
          cases h
          simp [value, ← ho, he]
    · rename_i ho
      obtain ⟨r, hr, rfl⟩ := Option.map_eq_some_iff.1 h
      have hrec := ih hd hr
      rw [value_concat] at hrec
      by_cases hno : n.offset = o
      · have he : extra.offset ≠ o := fun he => ho (he.trans hno.symm)
        have hrest : items.filter (·.offset = o) = [] :=
          filter_offset_eq_nil fun m hm => hno ▸ (hn m hm).symm
        have hrest' : r.filter (·.offset = o) = [] := by
          refine filter_offset_eq_nil fun m hm => ?_
          have hmem : m.offset ∈ items.map (·.offset) := by
            rw [← mergeItem_offsets hd hr]
            exact List.mem_map_of_mem hm
          obtain ⟨m', hm', he'⟩ := List.mem_map.1 hmem
          exact he' ▸ hno ▸ (hn m' hm').symm
        rw [if_neg he]
        simp [value, hno, hrest, hrest']
      · have hcons : ∀ l, value (n :: l) o = value l o := fun l => by simp [value, hno]
        rw [hcons, hcons]
        exact hrec

theorem Distinct.of_offsets {items items' : List CfgItem} (h : Distinct items)
    (ho : items'.map (·.offset) = items.map (·.offset)) : Distinct items' := by
  have key : ∀ l : List CfgItem, Distinct l ↔ (l.map (·.offset)).Pairwise (· ≠ ·) := fun l =>
    List.pairwise_map.symm
  rw [key] at h ⊢
  rwa [ho]

theorem mergeLoop_offsets {head : List CfgItem} (hd : Distinct head) (head2 : List CfgItem) :
    (mergeLoop head head2).1.map (·.offset) = head.map (·.offset) := by
  induction head2 generalizing head with
  | nil => rfl
  | cons extra head2 ih =>
    rw [mergeLoop]
    split
    · rename_i head' h
      have ho := mergeItem_offsets hd h
      rw [ih (hd.of_offsets ho), ho]
    · exact ih hd

/-- Items for an offset the list does not have all remain. -/
theorem mergeLoop_rest {head : List CfgItem} (hd : Distinct head) (head2 : List CfgItem)
    {o : BitVec 16} (ho : ∀ n ∈ head, n.offset ≠ o) :
    (mergeLoop head head2).2.filter (·.offset = o) = head2.filter (·.offset = o) := by
  induction head2 generalizing head with
  | nil => rfl
  | cons extra head2 ih =>
    rw [mergeLoop]
    split
    · rename_i head' h
      have hoff := mergeItem_offsets hd h
      have hhas : ∃ n ∈ head, n.offset = extra.offset := by
        by_contra hno
        rw [mergeItem_eq_none.2 fun n hn he => hno ⟨n, hn, he⟩] at h
        cases h
      obtain ⟨n, hn, he⟩ := hhas
      rw [ih (hd.of_offsets hoff) fun m hm => ?_,
        List.filter_cons_of_neg (by simpa using he ▸ ho n hn)]
      have hmem : m.offset ∈ head.map (·.offset) := by
        rw [← hoff]
        exact List.mem_map_of_mem hm
      obtain ⟨m', hm', hm''⟩ := List.mem_map.1 hmem
      exact hm'' ▸ ho m' hm'
    · simp only [List.filter_cons]
      rw [ih hd ho]

theorem mergeLoop_value {head : List CfgItem} (hd : Distinct head) (head2 : List CfgItem)
    (o : BitVec 16) :
    value ((mergeLoop head head2).1 ++ (mergeLoop head head2).2) o = value (head ++ head2) o := by
  induction head2 generalizing head with
  | nil => rfl
  | cons extra head2 ih =>
    rw [mergeLoop]
    split
    · rename_i head' h
      rw [ih (hd.of_offsets (mergeItem_offsets hd h)), List.append_cons, value_append,
        value_append (head ++ [extra]), mergeItem_value hd h]
    · rename_i h
      have hother := mergeItem_eq_none.1 h
      have hrec := ih hd
      by_cases he : extra.offset = o
      · -- nothing was there, so only the items that remain count
        have hhead : ∀ n ∈ head, n.offset ≠ o := he ▸ hother
        have hmerged : ∀ n ∈ (mergeLoop head head2).1, n.offset ≠ o := by
          intro n hn
          have hmem : n.offset ∈ head.map (·.offset) := by
            rw [← mergeLoop_offsets hd head2]
            exact List.mem_map_of_mem hn
          obtain ⟨m, hm, hm'⟩ := List.mem_map.1 hmem
          exact hm' ▸ hhead m hm
        simp only [value, List.filter_append, filter_offset_eq_nil hhead,
          filter_offset_eq_nil hmerged, List.filter_cons, mergeLoop_rest hd head2 hhead]
      · rw [value_append] at hrec ⊢
        rw [value_append] at hrec ⊢
        rw [List.filter_cons_of_neg (by simpa using he),
          List.filter_cons_of_neg (by simpa using he)]
        exact hrec

/-- When the config sets no offset twice, merging has the same effect at every offset as writing the
further items after it, whatever these are. -/
theorem mergeConfigs_value {head : List CfgItem} (hd : Distinct head) (head2 : List CfgItem)
    (o : BitVec 16) : value (mergeConfigs head head2) o = value (head ++ head2) o := by
  unfold mergeConfigs
  split
  · rename_i h
    rw [h, List.append_nil]
  split
  · rename_i h
    rw [h, List.nil_append]
  · exact mergeLoop_value hd head2 o

theorem mergeItem_sizes {extra : CfgItem} {items items' : List CfgItem}
    (h : mergeItem extra items = some items') : sizes items' ≤ sizes items + extra.size := by
  induction items generalizing items' with
  | nil => cases h
  | cons n items ih =>
    rw [mergeItem] at h
    rw [sizes_cons]
    split at h
    · split at h
      · cases h
        rw [sizes_cons, CfgItem.size, CfgItem.size, List.length_append, List.length_drop]
        omega
      · cases hr : mergeItem extra items with
        | none =>
          rw [hr] at h
          cases h
          rw [Option.getD_none, sizes_cons]
          omega
        | some r =>
          rw [hr] at h
          cases h
          have := ih hr
          rw [Option.getD_some]
          omega
    · obtain ⟨r, hr, rfl⟩ := Option.map_eq_some_iff.1 h
      have := ih hr
      rw [sizes_cons]
      omega

theorem mergeLoop_sizes (head head2 : List CfgItem) :
    sizes (mergeLoop head head2).1 + sizes (mergeLoop head head2).2 ≤ sizes head + sizes head2 := by
  induction head2 generalizing head with
  | nil => exact Nat.le_refl _
  | cons extra head2 ih =>
    rw [mergeLoop, sizes_cons]
    split
    · rename_i head' h
      have := ih head'
      have := mergeItem_sizes h
      omega
    · have := ih head
      show sizes (mergeLoop head head2).1 + (extra.size + sizes (mergeLoop head head2).2) ≤ _
      omega

theorem mergeConfigs_sizes (head head2 : List CfgItem) :
    sizes (mergeConfigs head head2) ≤ sizes head + sizes head2 := by
  unfold mergeConfigs
  split
  · exact Nat.le_add_right _ _
  split
  · exact Nat.le_add_left _ _
  · rw [sizes_append]
    exact mergeLoop_sizes head head2

end Bluetooth.Fwc
