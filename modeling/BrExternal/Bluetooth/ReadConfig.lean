import BrExternal.Bluetooth.Config
import BrExternal.Lib.Text
import Mathlib.Data.List.Forall2
import Mathlib.Data.List.TakeWhile

/-!
# `rtb_read_config`

The settings of a text file and the Bluetooth address of a second one are merged into the config of
the controller. Both files are read as C reads them: words between separators, `strtoul` on each,
a zero that ends the text.
-/

namespace Bluetooth.Fwc

open Text

/-! ## Numbers -/

def isSpace (c : Char) : Bool :=
  c == ' ' || c == '\t' || c == '\n' || c == '\x0b' || c == '\x0c' || c == '\r'

def hexVal (c : Char) : Option Nat :=
  if 0x30 ≤ c.toNat ∧ c.toNat ≤ 0x39 then some (c.toNat - 0x30)
  else if 0x41 ≤ c.toNat ∧ c.toNat ≤ 0x46 then some (c.toNat - 0x37)
  else if 0x61 ≤ c.toNat ∧ c.toNat ≤ 0x66 then some (c.toNat - 0x57)
  else none

def isXdigit (c : Char) : Bool := (hexVal c).isSome

/-- The sign of a number, and what follows. -/
def sign : List Char → Bool × List Char
  | '-' :: s => (true, s)
  | '+' :: s => (false, s)
  | s => (false, s)

/-- The text behind a `0x` that a digit follows. -/
def dropRadix : List Char → List Char
  | '0' :: x :: c :: s =>
    if (x = 'x' ∨ x = 'X') ∧ isXdigit c then c :: s else '0' :: x :: c :: s
  | s => s

/-- The value of the hexadecimal digits at the start. -/
def hexDigits (s : List Char) : Nat :=
  (s.takeWhile isXdigit).foldl (fun n c => n * 16 + (hexVal c).getD 0) 0

/-- `strtoul` in base sixteen, for words of 64 bits. -/
def strtoul (s : List Char) : Nat :=
  let (neg, s) := sign (s.dropWhile isSpace)
  let n := hexDigits (dropRadix s)
  if 0x10000000000000000 ≤ n then 0xffffffffffffffff
  else if neg then (0x10000000000000000 - n) % 0x10000000000000000
  else n

def byteOf (s : List Char) : Byte := BitVec.ofNat 8 (strtoul s)

/-! ## The text file -/

def isSep (c : Char) : Bool := c == ',' || c == ' ' || c == '\t'

def isEol (c : Char) : Bool := c == '\n' || c == '\r'

/-- The words of a line as an item: offset, length and data. -/
def itemOf (argv : List (List Char)) (h : argv.length ≤ 32) : Option CfgItem :=
  if argv.length < 4 then none
  else
    let offset := strtoul (argv.getD 0 []) ||| (strtoul (argv.getD 1 []) <<< 8)
    if byteOf (argv.getD 2 []) ≠ BitVec.ofNat 8 (argv.length - 3) then none
    else some ⟨BitVec.ofNat 16 offset, (argv.drop 3).map byteOf, by
      rw [List.length_map, List.length_drop]
      omega⟩

/-- `line_process`. At most 32 words are taken. -/
def lineProcess (line : List Char) : Option CfgItem :=
  itemOf ((strsep isSep line).take 32) (List.length_take_le ..)

/-- `config_process`, up to the first zero. -/
def configProcess (buf : List Char) : List CfgItem :=
  (strsep isEol (buf.takeWhile (· ≠ '\x00'))).filterMap lineProcess

/-- `parse_extra_config`. A file of more than 254 bytes is not used. -/
def parseExtraConfig : Option (List Char) → List CfgItem
  | none => []
  | some file => if 254 < file.length then [] else configProcess (file ++ ['\n'])

/-! ## The address file -/

def bachkLoop : List Char → Bool
  | [] => true
  | [_] => false
  | [a, b] => isXdigit a && isXdigit b
  | a :: b :: c :: s => isXdigit a && isXdigit b && c == ':' && bachkLoop s

def bachk (s : List Char) : Bool := s.length == 17 && bachkLoop s

/-- The address as the item holds it, the first octet last. -/
def bdaddr (s : List Char) : List Byte :=
  let b := (List.range 6).map fun i => byteOf (s.drop (3 * (5 - i)))
  if b.getD 3 0 = 0x9e#8 ∧ b.getD 4 0 = 0x8b#8 ∧ b.getD 5 0 ≤ 0x3f#8 then b.set 3 0x00 else b

def getMacOffset (chipType : Byte) : BitVec 16 :=
  match chipType with
  | 0x70#8 | 0x71#8 | 0x72#8 => 0x0044
  | 0x73#8 | 0x74#8 | 0x75#8 | 0x76#8 | 0x00#8 | 0x77#8 | 0x7A#8 => 0x0030
  | _ => 0x003c

/-- The item for the address, if the file holds one. -/
def bdaddrItem (chipType : Byte) : Option (List Char) → Option CfgItem
  | none => none
  | some file =>
    let tbuf := (file.take 17).takeWhile (· ≠ '\x00')
    if bachk tbuf then
      some ⟨getMacOffset chipType, bdaddr tbuf, by unfold bdaddr; dsimp only; split <;> simp⟩
    else none

/-! ## The whole function -/

/-- `get_unaligned_le32`. An item with less than four bytes is followed by zeroes. -/
def getUnalignedLe32 (data : List Byte) : BitVec 32 :=
  (data.getD 0 0).setWidth 32 + (data.getD 1 0).setWidth 32 <<< 8 +
    (data.getD 2 0).setWidth 32 <<< 16 + (data.getD 3 0).setWidth 32 <<< 24

/-- What `rtb_read_config` leaves: the buffer, `vendor_baud` and `uart_flow_ctrl`. -/
structure Config where
  buf : List Byte
  vendorBaud : BitVec 32
  uartFlowCtrl : Bool
  deriving DecidableEq

/-- One item of the pass that works out the length. -/
def scanItem (c : BitVec 32 × Bool) (n : CfgItem) : BitVec 32 × Bool :=
  if n.offset = 0x000c#16 then
    (getUnalignedLe32 n.data, if 12 < n.data.length then n.data.getD 12 0 &&& 0x4#8 != 0 else c.2)
  else c

inductive ReadResult where
  /-- There is no config file. -/
  | null
  /-- The config file is not valid, and the program ends. -/
  | exit
  | fault
  | ok (c : Config)
  deriving DecidableEq

/-- `list_extracfgs`: the items of the text file and the address. -/
def extraConfigs (extra addr : Option (List Char)) (chipType : Byte) : List CfgItem :=
  parseExtraConfig extra ++ (bdaddrItem chipType addr).toList

/-- `rtb_read_config`, from the contents of the text file, the address file and the config file. -/
def readConfig (extra addr : Option (List Char)) (file : Option (List Byte)) (chipType : Byte) :
    ReadResult :=
  match file with
  | none => .null
  | some file =>
    match parseConfig file with
    | .error => .exit
    | .fault => .fault
    | .ok configs =>
      let items := mergeConfigs configs (extraConfigs extra addr chipType)
      let scan := items.foldl scanItem (0, false)
      match writeConfig items with
      | .ok buf => .ok ⟨buf, scan.1, scan.2⟩
      | .error | .fault => .fault

/-! ## Reading a number -/

/-- The text is two hexadecimal digits for the byte. -/
def Spells (s : List Char) (b : Byte) : Prop :=
  ∃ c d hi lo, s = [c, d] ∧ hexVal c = some hi ∧ hexVal d = some lo ∧ b.toNat = 16 * hi + lo

theorem hexVal_ne {c d : Char} {v : Nat} (h : hexVal c = some v) (hd : hexVal d = none) :
    c ≠ d := by
  rintro rfl
  rw [hd] at h
  cases h

theorem isXdigit_of_hexVal {c : Char} {v : Nat} (h : hexVal c = some v) : isXdigit c = true := by
  rw [isXdigit, h]
  rfl

theorem isSpace_of_hexVal {c : Char} {v : Nat} (h : hexVal c = some v) : isSpace c = false := by
  have h0 := hexVal_ne h (show hexVal ' ' = none by decide)
  have h1 := hexVal_ne h (show hexVal '\t' = none by decide)
  have h2 := hexVal_ne h (show hexVal '\n' = none by decide)
  have h3 := hexVal_ne h (show hexVal '\x0b' = none by decide)
  have h4 := hexVal_ne h (show hexVal '\x0c' = none by decide)
  have h5 := hexVal_ne h (show hexVal '\r' = none by decide)
  simp [isSpace, h0, h1, h2, h3, h4, h5]

theorem sign_of_hexVal {c : Char} {v : Nat} (h : hexVal c = some v) (s : List Char) :
    sign (c :: s) = (false, c :: s) := by
  have hm := hexVal_ne h (show hexVal '-' = none by decide)
  have hp := hexVal_ne h (show hexVal '+' = none by decide)
  unfold sign
  split
  · rename_i heq
    exact absurd (List.cons.inj heq).1 hm
  · rename_i heq
    exact absurd (List.cons.inj heq).1 hp
  · rfl

theorem dropRadix_of_hexVal {c d : Char} {v : Nat} (h : hexVal d = some v) (s : List Char) :
    dropRadix (c :: d :: s) = c :: d :: s := by
  have hx := hexVal_ne h (show hexVal 'x' = none by decide)
  have hX := hexVal_ne h (show hexVal 'X' = none by decide)
  unfold dropRadix
  split
  · rename_i heq
    cases heq
    rw [if_neg (by simp [hx, hX])]
  · rfl

theorem strtoul_spells {s rest : List Char} {b : Byte} (h : Spells s b)
    (hrest : ∀ c ∈ rest.head?, isXdigit c = false) : strtoul (s ++ rest) = b.toNat := by
  obtain ⟨c, d, hi, lo, rfl, hc, hd, hb⟩ := h
  have hcx := isXdigit_of_hexVal hc
  have hdx := isXdigit_of_hexVal hd
  have hdigits : hexDigits (c :: d :: rest) = b.toNat := by
    have htake : (c :: d :: rest).takeWhile isXdigit = [c, d] := by
      rw [List.takeWhile_cons_of_pos hcx, List.takeWhile_cons_of_pos hdx]
      cases rest with
      | nil => rfl
      | cons e rest => rw [List.takeWhile_cons_of_neg (by simp [hrest e rfl])]
    rw [hexDigits, htake, hb]
    simp only [List.foldl_cons, List.foldl_nil, hc, hd, Option.getD_some]
    omega
  have hlt := b.isLt
  simp only [strtoul, List.cons_append, List.nil_append]
  rw [List.dropWhile_cons_of_neg (by simp [isSpace_of_hexVal hc]), sign_of_hexVal hc]
  dsimp only
  rw [dropRadix_of_hexVal hd, hdigits, if_neg (by omega), if_neg (by decide)]

theorem byteOf_spells {s rest : List Char} {b : Byte} (h : Spells s b)
    (hrest : ∀ c ∈ rest.head?, isXdigit c = false) : byteOf (s ++ rest) = b := by
  rw [byteOf, strtoul_spells h hrest, BitVec.ofNat_toNat, BitVec.setWidth_eq]

/-! ## Reading the text file -/

/-- The line has the bytes of the item as its words. -/
def Lists (line : List Char) (n : CfgItem) : Prop :=
  List.Forall₂ Spells (strsep isSep line) n.bytes

theorem strtoul_word {w : List Char} {b : Byte} (h : Spells w b) : strtoul w = b.toNat := by
  have : strtoul (w ++ []) = b.toNat := strtoul_spells h (by simp)
  rwa [List.append_nil] at this

theorem byteOf_word {w : List Char} {b : Byte} (h : Spells w b) : byteOf w = b := by
  rw [byteOf, strtoul_word h, BitVec.ofNat_toNat, BitVec.setWidth_eq]

theorem map_byteOf_spells {ws : List (List Char)} {bs : List Byte}
    (h : List.Forall₂ Spells ws bs) : ws.map byteOf = bs := by
  induction h with
  | nil => rfl
  | cons hw _ ih => rw [List.map_cons, byteOf_word hw, ih]

theorem ofNat_or_shiftLeft (lo hi : Byte) :
    BitVec.ofNat 16 (lo.toNat ||| hi.toNat <<< 8) = le16 lo hi := by
  apply BitVec.eq_of_getLsbD_eq
  intro i hi
  simp only [le16, H5.be16, BitVec.getLsbD_ofNat, Nat.testBit_or, Nat.testBit_shiftLeft,
    BitVec.testBit_toNat, BitVec.getLsbD_or, BitVec.getLsbD_setWidth, BitVec.getLsbD_shiftLeft]
  grind

theorem itemOf_spells {argv : List (List Char)} {n : CfgItem} (h : argv.length ≤ 32)
    (hargv : List.Forall₂ Spells argv n.bytes) (hpos : 0 < n.data.length) :
    itemOf argv h = some n := by
  have hlen := hargv.length_eq
  rw [n.bytes_length, CfgItem.size] at hlen
  rw [CfgItem.bytes, le16Bytes] at hargv
  obtain ⟨w0, ws, h0, htail0, rfl⟩ := List.forall₂_cons_right_iff.1 hargv
  obtain ⟨w1, ws, h1, htail1, rfl⟩ := List.forall₂_cons_right_iff.1 htail0
  obtain ⟨w2, ws, h2, hdata, rfl⟩ := List.forall₂_cons_right_iff.1 htail1
  have hoffset : BitVec.ofNat 16 (strtoul w0 ||| strtoul w1 <<< 8) = n.offset := by
    rw [strtoul_word h0, strtoul_word h1, ofNat_or_shiftLeft, le16_le16Bytes]
  simp only [List.length_cons] at hlen
  unfold itemOf
  simp only [List.length_cons, List.getD_cons_zero, List.getD_cons_succ, byteOf_word h2]
  rw [if_neg (by omega), if_neg (by rw [not_not]; congr 1; omega)]
  exact congrArg some (CfgItem.ext hoffset (map_byteOf_spells hdata))

theorem lineProcess_of_lists {line : List Char} {n : CfgItem} (h : Lists line n)
    (hpos : 0 < n.data.length) (hlen : n.data.length ≤ 29) : lineProcess line = some n := by
  have hws : (strsep isSep line).length = 3 + n.data.length := by
    rw [h.length_eq, n.bytes_length, CfgItem.size]
  have htake := List.take_of_length_le (show (strsep isSep line).length ≤ 32 by omega)
  simp only [lineProcess, htake]
  exact itemOf_spells _ h hpos

theorem filterMap_lineProcess {lines : List (List Char)} {items : List CfgItem}
    (h : List.Forall₂ Lists lines items)
    (hlen : ∀ n ∈ items, 0 < n.data.length ∧ n.data.length ≤ 29) :
    lines.filterMap lineProcess = items := by
  induction h with
  | nil => rfl
  | cons hl _ ih =>
    obtain ⟨hpos, hle⟩ := hlen _ List.mem_cons_self
    rw [List.filterMap_cons_some (lineProcess_of_lists hl hpos hle),
      ih fun n hn => hlen n (List.mem_cons_of_mem _ hn)]

theorem exists_of_forall₂_mem {α β : Type} {R : α → β → Prop} {l : List α} {m : List β}
    (h : List.Forall₂ R l m) {a : α} (ha : a ∈ l) : ∃ b, R a b := by
  induction h with
  | nil => cases ha
  | cons hr _ ih =>
    rcases List.mem_cons.1 ha with rfl | ha
    · exact ⟨_, hr⟩
    · exact ih ha

theorem hexVal_of_lists {line : List Char} {n : CfgItem} (h : Lists line n) {c : Char}
    (hc : c ∈ line) (hsep : isSep c = false) : ∃ v, hexVal c = some v := by
  obtain ⟨w, hw, hcw⟩ := exists_mem_strsep hc hsep
  obtain ⟨b, d, e, hi, lo, rfl, hd, he, -⟩ := exists_of_forall₂_mem h hw
  rcases List.mem_pair.1 hcw with rfl | rfl
  · exact ⟨hi, hd⟩
  · exact ⟨lo, he⟩

theorem nul_notMem_of_lists {file : List Char} {items : List CfgItem}
    (h : List.Forall₂ Lists (strsep isEol file) items) : '\x00' ∉ file := by
  intro hc
  obtain ⟨line, hline, hc⟩ := exists_mem_strsep hc (show isEol '\x00' = false by decide)
  obtain ⟨n, hn⟩ := exists_of_forall₂_mem h hline
  obtain ⟨v, hv⟩ := hexVal_of_lists hn hc (by decide)
  exact hexVal_ne hv (show hexVal '\x00' = none by decide) rfl

/-- **The text file.** In a file of at most 254 bytes, lines that list items of one to 29 bytes are
read as these items, whatever separates the words and the lines. Nothing is read of a longer
file. -/
theorem extra_config_read {file : List Char} {items : List CfgItem}
    (h : List.Forall₂ Lists (strsep isEol file) items)
    (hlen : ∀ n ∈ items, 0 < n.data.length ∧ n.data.length ≤ 29) :
    parseExtraConfig (some file) = if file.length ≤ 254 then items else [] := by
  have hnul := nul_notMem_of_lists h
  have hwhole : (file ++ ['\n']).takeWhile (· ≠ '\x00') = file ++ ['\n'] := by
    rw [List.takeWhile_eq_self_iff]
    intro c hc
    rcases List.mem_append.1 hc with hc | hc
    · simpa using fun he : c = '\x00' => hnul (he ▸ hc)
    · rw [List.mem_singleton.1 hc]
      decide
  rw [parseExtraConfig]
  by_cases hfile : file.length ≤ 254
  · rw [if_neg (by omega), if_pos hfile, configProcess, hwhole, strsep_concat (by decide)]
    exact filterMap_lineProcess h hlen
  · rw [if_pos (by omega), if_neg hfile]

theorem extra_config_read_line :
    parseExtraConfig (some "8f,00 01\tbe\r\n".toList) = [⟨0x008f, [0xbe], by decide⟩] := by
  have h : List.Forall₂ Lists (strsep isEol "8f,00 01\tbe\r\n".toList)
      [⟨0x008f, [0xbe], by decide⟩] :=
    .cons (.cons ⟨'8', 'f', 8, 15, rfl, rfl, rfl, rfl⟩ <|
      .cons ⟨'0', '0', 0, 0, rfl, rfl, rfl, rfl⟩ <|
      .cons ⟨'0', '1', 0, 1, rfl, rfl, rfl, rfl⟩ <|
      .cons ⟨'b', 'e', 11, 14, rfl, rfl, rfl, rfl⟩ .nil) .nil
  exact extra_config_read h (by decide)

/-! ## The length of what is added -/

theorem itemOf_size {argv : List (List Char)} {h : argv.length ≤ 32} {n : CfgItem}
    (hn : itemOf argv h = some n) : n.size = argv.length := by
  unfold itemOf at hn
  split at hn
  · cases hn
  dsimp only at hn
  split at hn
  · cases hn
  · cases hn
    rw [CfgItem.size, List.length_map, List.length_drop]
    omega

theorem lineProcess_size {line : List Char} {n : CfgItem} (h : lineProcess line = some n) :
    2 * n.size ≤ line.length + 1 := by
  have hwords := two_mul_length_strsep_le isSep line
  rw [itemOf_size h, List.length_take]
  omega

theorem filterMap_lineProcess_sizes (lines : List (List Char)) :
    2 * sizes (lines.filterMap lineProcess) ≤ (lines.map (·.length + 1)).sum := by
  induction lines with
  | nil => exact Nat.le_refl _
  | cons line lines ih =>
    rw [List.map_cons, List.sum_cons]
    cases h : lineProcess line with
    | none =>
      rw [List.filterMap_cons_none h]
      omega
    | some n =>
      have := lineProcess_size h
      rw [List.filterMap_cons_some h, sizes_cons]
      omega

theorem parseExtraConfig_sizes (extra : Option (List Char)) :
    sizes (parseExtraConfig extra) ≤ 128 := by
  unfold parseExtraConfig
  split
  · exact Nat.zero_le _
  split
  · exact Nat.zero_le _
  · rename_i file hlen
    have htext := (List.takeWhile_sublist (l := file ++ ['\n']) (· ≠ '\x00')).length_le
    rw [List.length_append, List.length_singleton] at htext
    have hlines := sum_strsep_le isEol ((file ++ ['\n']).takeWhile (· ≠ '\x00'))
    have hitems := filterMap_lineProcess_sizes
      (strsep isEol ((file ++ ['\n']).takeWhile (· ≠ '\x00')))
    rw [configProcess]
    omega

theorem bdaddr_length (s : List Char) : (bdaddr s).length = 6 := by
  unfold bdaddr
  dsimp only
  split <;> simp

/-- The items added to the config take at most 137 bytes. -/
theorem extraConfigs_sizes (extra addr : Option (List Char)) (chipType : Byte) :
    sizes (extraConfigs extra addr chipType) ≤ 137 := by
  have htext := parseExtraConfig_sizes extra
  have haddr : sizes (bdaddrItem chipType addr).toList ≤ 9 := by
    unfold bdaddrItem
    split
    · exact Nat.zero_le _
    dsimp only
    split
    · rw [Option.toList_some, sizes_cons, CfgItem.size, bdaddr_length]
      exact Nat.le_refl _
    · exact Nat.zero_le _
  rw [extraConfigs, sizes_append]
  omega

/-! ## What is written -/

section

variable (extra addr : Option (List Char)) (chipType : Byte) {items : List CfgItem}

def merged (items : List CfgItem) : List CfgItem :=
  mergeConfigs items (extraConfigs extra addr chipType)

theorem merged_sizes (items : List CfgItem) :
    sizes (merged extra addr chipType items) ≤ sizes items + 137 :=
  (mergeConfigs_sizes _ _).trans (Nat.add_le_add_left (extraConfigs_sizes extra addr chipType) _)

/-- A valid config short enough for the 16 bit length is merged and written. -/
theorem readConfig_configBytes (hsize : sizes items + 143 < 0x10000) :
    readConfig extra addr (some (configBytes items)) chipType =
      .ok ⟨configBytes (merged extra addr chipType items),
        ((merged extra addr chipType items).foldl scanItem (0, false)).1,
        ((merged extra addr chipType items).foldl scanItem (0, false)).2⟩ := by
  have hm := merged_sizes extra addr chipType items
  have hwrite : writeConfig (merged extra addr chipType items) =
      .ok (configBytes (merged extra addr chipType items)) := by
    rw [writeConfig, configBytes_length]
    exact if_pos (by omega)
  simp only [readConfig, parseConfig_configBytes (show sizes items < 0x10000 by omega)]
  rw [merged] at hwrite
  simp only [hwrite, merged]

theorem merged_value (hd : Distinct items) (o : BitVec 16) :
    value (merged extra addr chipType items) o =
      value (items ++ extraConfigs extra addr chipType) o :=
  mergeConfigs_value hd _ o

end

def addrText (octets : List (List Char)) : List Char := [':'].intercalate octets

section

variable {octets : List (List Char)} {a0 a1 a2 a3 a4 a5 : Byte}

theorem addrText_cons (s t : List Char) (octets : List (List Char)) :
    addrText (s :: t :: octets) = s ++ ':' :: addrText (t :: octets) := by
  simp [addrText, List.intercalate]

theorem addrText_length {bs : List Byte} (h : List.Forall₂ Spells octets bs) (hne : bs ≠ []) :
    (addrText octets).length + 1 = 3 * bs.length := by
  induction h with
  | nil => exact absurd rfl hne
  | cons hs htail ih =>
    obtain ⟨c, d, hi, lo, rfl, -⟩ := hs
    cases htail with
    | nil => rfl
    | cons ht htail =>
      have := ih (List.cons_ne_nil _ _)
      rw [addrText_cons]
      simp only [List.length_cons, List.length_append, List.length_nil] at this ⊢
      omega

theorem bachkLoop_addrText {bs : List Byte} (h : List.Forall₂ Spells octets bs) :
    bachkLoop (addrText octets) = true := by
  induction h with
  | nil => rfl
  | cons hs htail ih =>
    obtain ⟨c, d, hi, lo, rfl, hc, hd, -⟩ := hs
    cases htail with
    | nil => exact Bool.and_eq_true_iff.2 ⟨isXdigit_of_hexVal hc, isXdigit_of_hexVal hd⟩
    | cons ht htail =>
      rw [addrText_cons, List.cons_append, List.cons_append, List.nil_append, bachkLoop,
        isXdigit_of_hexVal hc, isXdigit_of_hexVal hd, ih]
      rfl

theorem nul_notMem_addrText {bs : List Byte} (h : List.Forall₂ Spells octets bs) :
    '\x00' ∉ addrText octets := by
  induction h with
  | nil => exact List.not_mem_nil
  | cons hs htail ih =>
    obtain ⟨c, d, hi, lo, rfl, hc, hd, -⟩ := hs
    have hc := hexVal_ne hc (show hexVal '\x00' = none by decide)
    have hd := hexVal_ne hd (show hexVal '\x00' = none by decide)
    cases htail with
    | nil =>
      show '\x00' ∉ [c, d]
      simp [hc.symm, hd.symm]
    | cons ht htail =>
      rw [addrText_cons]
      simp [hc.symm, hd.symm, ih]

theorem bdaddr_addrText (h : List.Forall₂ Spells octets [a0, a1, a2, a3, a4, a5]) :
    bdaddr (addrText octets) =
      [a5, a4, a3, if a0 ≤ 0x3f#8 ∧ a1 = 0x8b#8 ∧ a2 = 0x9e#8 then 0 else a2, a1, a0] := by
  simp only [List.forall₂_cons_right_iff, List.forall₂_nil_right_iff] at h
  obtain ⟨s0, _, h0, ⟨s1, _, h1, ⟨s2, _, h2, ⟨s3, _, h3, ⟨s4, _, h4, ⟨s5, _, h5, rfl, rfl⟩, rfl⟩,
    rfl⟩, rfl⟩, rfl⟩, rfl⟩ := h
  have hcolon : ∀ r : List Char, ∀ c ∈ (':' :: r).head?, isXdigit c = false := by
    intro r c hc
    cases hc
    decide
  have b0 := byteOf_spells h0
    (hcolon (s1 ++ ':' :: (s2 ++ ':' :: (s3 ++ ':' :: (s4 ++ ':' :: s5)))))
  have b1 := byteOf_spells h1 (hcolon (s2 ++ ':' :: (s3 ++ ':' :: (s4 ++ ':' :: s5))))
  have b2 := byteOf_spells h2 (hcolon (s3 ++ ':' :: (s4 ++ ':' :: s5)))
  have b3 := byteOf_spells h3 (hcolon (s4 ++ ':' :: s5))
  have b4 := byteOf_spells h4 (hcolon s5)
  have b5 := byteOf_word h5
  obtain ⟨c0, d0, _, _, rfl, -⟩ := h0
  obtain ⟨c1, d1, _, _, rfl, -⟩ := h1
  obtain ⟨c2, d2, _, _, rfl, -⟩ := h2
  obtain ⟨c3, d3, _, _, rfl, -⟩ := h3
  obtain ⟨c4, d4, _, _, rfl, -⟩ := h4
  obtain ⟨c5, d5, _, _, rfl, -⟩ := h5
  have hb : ((List.range 6).map fun i =>
      byteOf ((addrText [[c0, d0], [c1, d1], [c2, d2], [c3, d3], [c4, d4], [c5, d5]]).drop
        (3 * (5 - i)))) = [a5, a4, a3, a2, a1, a0] := by
    rw [← b0, ← b1, ← b2, ← b3, ← b4, ← b5]
    rfl
  unfold bdaddr
  rw [hb]
  by_cases hr : a0 ≤ 0x3f#8 ∧ a1 = 0x8b#8 ∧ a2 = 0x9e#8
  · rw [if_pos hr, if_pos ⟨hr.2.2, hr.2.1, hr.1⟩]
    rfl
  · rw [if_neg hr, if_neg fun h => hr ⟨h.2.2, h.2.1, h.1⟩]

theorem bdaddrItem_addrText (h : List.Forall₂ Spells octets [a0, a1, a2, a3, a4, a5])
    (rest : List Char) (chipType : Byte) :
    ∃ n, bdaddrItem chipType (some (addrText octets ++ rest)) = some n ∧
      n.offset = getMacOffset chipType ∧ n.data = bdaddr (addrText octets) := by
  have hlen : (addrText octets).length = 17 := by
    have : (addrText octets).length + 1 = 18 := addrText_length h (List.cons_ne_nil _ _)
    omega
  have hbuf : ((addrText octets ++ rest).take 17).takeWhile (· ≠ '\x00') = addrText octets := by
    rw [← hlen, List.take_left, List.takeWhile_eq_self_iff]
    intro c hc
    simpa using fun he : c = '\x00' => nul_notMem_addrText h (he ▸ hc)
  have hchk : bachk (addrText octets) = true := by
    rw [bachk, hlen, bachkLoop_addrText h]
    rfl
  simp only [bdaddrItem, hbuf, hchk, if_true]
  exact ⟨_, rfl, rfl, rfl⟩

/-- **The address.** With a config that sets no offset twice and leaves 143 bytes to its 16 bit
length, an address file that starts with an address makes it the first six bytes at the offset of
the chip, in reverse. The source's reserved range is one of lower address parts, the
last three octets, but the three it looks at are the first: `00:8b:9e` to `3f:8b:9e` have the third
octet cleared, and every other address is kept as it is. -/
theorem address_stored (h : List.Forall₂ Spells octets [a0, a1, a2, a3, a4, a5])
    (rest : List Char) (extra : Option (List Char)) (chipType : Byte) {items : List CfgItem}
    (hd : Distinct items) (hsize : sizes items + 143 < 0x10000) :
    ∃ c items', readConfig extra (some (addrText octets ++ rest)) (some (configBytes items))
        chipType = .ok c ∧
      parseConfig c.buf = .ok items' ∧
      (value items' (getMacOffset chipType)).take 6 =
        [a5, a4, a3, if a0 ≤ 0x3f#8 ∧ a1 = 0x8b#8 ∧ a2 = 0x9e#8 then 0 else a2, a1, a0] := by
  have hm := merged_sizes extra (some (addrText octets ++ rest)) chipType items
  obtain ⟨n, hn, hoff, hdata⟩ := bdaddrItem_addrText h rest chipType
  refine ⟨_, merged extra (some (addrText octets ++ rest)) chipType items,
    readConfig_configBytes extra _ chipType hsize, parseConfig_configBytes (by omega), ?_⟩
  rw [merged_value extra _ chipType hd, extraConfigs, hn, Option.toList_some, ← List.append_assoc,
    value_concat, if_pos hoff, hdata, ← bdaddr_addrText h, ← bdaddr_length (addrText octets),
    List.take_left]

end

theorem address_stored_shipped :
    ∃ c items', readConfig none (some "12:8b:9E:01:02:03\n".toList) (some (configBytes shipped))
        0x72 = .ok c ∧
      parseConfig c.buf = .ok items' ∧
      (value items' (getMacOffset 0x72)).take 6 = [0x03, 0x02, 0x01, 0x00, 0x8b, 0x12] := by
  have h : List.Forall₂ Spells
      [['1', '2'], ['8', 'b'], ['9', 'E'], ['0', '1'], ['0', '2'], ['0', '3']]
      [0x12, 0x8b, 0x9e, 0x01, 0x02, 0x03] :=
    .cons ⟨'1', '2', 1, 2, rfl, rfl, rfl, rfl⟩ <|
      .cons ⟨'8', 'b', 8, 11, rfl, rfl, rfl, rfl⟩ <|
      .cons ⟨'9', 'E', 9, 14, rfl, rfl, rfl, rfl⟩ <|
      .cons ⟨'0', '1', 0, 1, rfl, rfl, rfl, rfl⟩ <|
      .cons ⟨'0', '2', 0, 2, rfl, rfl, rfl, rfl⟩ <|
      .cons ⟨'0', '3', 0, 3, rfl, rfl, rfl, rfl⟩ .nil
  exact address_stored h ['\n'] none 0x72 (show Distinct shipped by decide) (by decide)

end Bluetooth.Fwc
