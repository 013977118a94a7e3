import BrExternal.Lib.Crc

/-!
# The frames of the three-wire UART transport

`h5_prepare_pkt` puts a four byte header before the payload and a CRC behind it, escapes the whole
with SLIP and closes it between two `0xc0`. The header holds the sequence number, the
acknowledgement, the channel and the length, and a checksum of these; `byte0` to `byte3` are
`hdr[0]` to `hdr[3]`. What a receiver reads back from a header is stated here once, in
`Header.byte0_reads` and `Header.byte1_reads`.
-/

namespace Bluetooth

abbrev Byte := BitVec 8

namespace H5

/-! ## CRC -/

/-- `crc_table`: polynomial `0x1021`, least significant bit first, for one nibble. -/
def crcTable : List (BitVec 16) :=
  [0x0000, 0x1081, 0x2102, 0x3183,
   0x4204, 0x5285, 0x6306, 0x7387,
   0x8408, 0x9489, 0xa50a, 0xb58b,
   0xc60c, 0xd68d, 0xe70e, 0xf78f]

/-- One nibble of `h5_crc_update`. -/
def crcNibble (reg d : BitVec 16) : BitVec 16 :=
  (reg >>> 4) ^^^ crcTable.getD ((reg ^^^ d) &&& 0x000f#16).toNat 0

def crcUpdate (crc : BitVec 16) (d : Byte) : BitVec 16 :=
  let reg := crcNibble crc (d.setWidth 16)
  crcNibble reg ((d >>> 4).setWidth 16)

def crcInit : BitVec 16 := 0xffff#16

def crcOf (data : List Byte) : BitVec 16 := data.foldl crcUpdate crcInit

def bitrev16 (x : BitVec 16) : BitVec 16 := x.reverse

theorem bitrev16_inj {x y : BitVec 16} (h : bitrev16 x = bitrev16 y) : x = y := by
  have hrev := congrArg BitVec.reverse h
  rwa [bitrev16, bitrev16, BitVec.reverse_reverse_eq, BitVec.reverse_reverse_eq] at hrev

/-- The polynomial of `crc_table`, reflected. -/
def poly : BitVec 16 := 0x8408#16

theorem crcTable_eq (i : BitVec 16) (hi : i.toNat < 16) :
    crcTable.getD i.toNat 0 = (Crc.shift poly)^[4] i := by
  have h : ∀ n < 16, crcTable.getD n 0 = (Crc.shift poly)^[4] (BitVec.ofNat 16 n) := by decide
  rw [h i.toNat hi, BitVec.ofNat_toNat, BitVec.setWidth_eq]

theorem crcNibble_eq (reg d : BitVec 16) :
    crcNibble reg d = (Crc.shift poly)^[4] (reg ^^^ (d &&& 0x000f#16)) := by
  have hlow : ((reg ^^^ d) &&& 0x000f#16).toNat < 16 := by
    have := Nat.and_le_right (n := (reg ^^^ d).toNat) (m := 15)
    simp only [BitVec.toNat_and]
    exact Nat.lt_succ_of_le this
  have hshift : (reg ^^^ (d &&& 0x000f#16)) >>> 4 = reg >>> 4 := by
    apply BitVec.eq_of_getLsbD_eq
    intro i _
    have hmask : (0x000f#16).getLsbD (4 + i) = false := by
      rw [show (0x000f#16) = BitVec.ofNat 16 (2 ^ 4 - 1) from rfl, BitVec.getLsbD_ofNat,
        Nat.testBit_two_pow_sub_one]
      simp
    simp [BitVec.getLsbD_ushiftRight, hmask]
  have hmask : (reg ^^^ (d &&& 0x000f#16)) &&& 0x000f#16 = (reg ^^^ d) &&& 0x000f#16 := by
    apply BitVec.eq_of_getLsbD_eq
    intro i _
    simp only [BitVec.getLsbD_and, BitVec.getLsbD_xor]
    cases (0x000f#16).getLsbD i <;> simp
  rw [crcNibble, crcTable_eq _ hlow, Crc.table_step poly 4 (reg ^^^ (d &&& 0x000f#16)), hshift]
  exact congrArg (fun x => reg >>> 4 ^^^ (Crc.shift poly)^[4] x) hmask.symm

/-- The table form of the update is the bit-serial one. -/
theorem crcUpdate_eq_feed (crc : BitVec 16) (d : Byte) :
    crcUpdate crc d = Crc.feed poly crc (Crc.bitsOf d) := by
  have hsplit : ∀ d : Byte, (d.setWidth 16 &&& 0x000f#16) ^^^
      (((d >>> 4).setWidth 16 &&& 0x000f#16) <<< 4) = d.setWidth 16 := by decide
  have hup : ∀ x : BitVec 16, x &&& 0x000f#16 =
      (Crc.shift poly)^[4] ((x &&& 0x000f#16) <<< 4) := by
    intro x
    rw [Crc.iterate_shift_of_low_clear poly 4 _ (by intro i hi; simp [hi])]
    apply BitVec.eq_of_getLsbD_eq
    intro i hi
    simp only [BitVec.getLsbD_ushiftRight, BitVec.getLsbD_shiftLeft, BitVec.getLsbD_and]
    by_cases h : 4 + i < 16
    · simp [h]
    · have hmask : (0x000f#16).getLsbD i = false := by
        rw [show (0x000f#16) = BitVec.ofNat 16 (2 ^ 4 - 1) from rfl, BitVec.getLsbD_ofNat,
          Nat.testBit_two_pow_sub_one]
        simp
        omega
      simp [h, hmask]
  rw [Crc.feed_eq_iterate poly crc _ (by simp [Crc.bitsOf_length]), Crc.bitsOf_length,
    Crc.word_bitsOf]
  show crcNibble (crcNibble crc (d.setWidth 16)) ((d >>> 4).setWidth 16) = _
  rw [crcNibble_eq, crcNibble_eq crc, hup ((d >>> 4).setWidth 16), ← Crc.iterate_shift_xor,
    ← Function.iterate_add_apply, BitVec.xor_assoc, hsplit]

/-- The bits of a message as the CRC takes them. -/
def bits (data : List Byte) : List Bool := data.flatMap Crc.bitsOf

theorem foldl_crcUpdate (data : List Byte) (crc : BitVec 16) :
    data.foldl crcUpdate crc = Crc.feed poly crc (bits data) := by
  induction data generalizing crc with
  | nil => rfl
  | cons d data ih =>
    rw [List.foldl_cons, ih, crcUpdate_eq_feed, ← Crc.feed_append]
    rfl

theorem bits_length (d : List Byte) : (bits d).length = 8 * d.length := by
  induction d with
  | nil => rfl
  | cons b d ih =>
    rw [bits, List.flatMap_cons, List.length_append, Crc.bitsOf_length, ← bits, ih,
      List.length_cons]
    omega

theorem crcOf_append (x d : List Byte) : crcOf (x ++ d) = Crc.feed poly (crcOf x) (bits d) := by
  rw [crcOf, List.foldl_append, foldl_crcUpdate]
  rfl

/-! ## SLIP -/

abbrev slipMsgdelim : Byte := 0xc0#8

def slipOneByte (c : Byte) : List Byte :=
  if c = 0xc0#8 then [0xdb#8, 0xdc#8]
  else if c = 0xdb#8 then [0xdb#8, 0xdd#8]
  else if c = 0x11#8 then [0xdb#8, 0xde#8]
  else if c = 0x13#8 then [0xdb#8, 0xdf#8]
  else [c]

def slip (data : List Byte) : List Byte := data.flatMap slipOneByte

theorem slip_append (x y : List Byte) : slip (x ++ y) = slip x ++ slip y :=
  List.flatMap_append

theorem slip_cons (c : Byte) (data : List Byte) :
    slip (c :: data) = slipOneByte c ++ slip data := rfl

/-- The bytes that never appear between two delimiters. -/
def Reserved (b : Byte) : Prop := b = 0xc0#8 ∨ b = 0x11#8 ∨ b = 0x13#8

theorem slipOneByte_cases (c : Byte) :
    (c = 0xc0#8 ∧ slipOneByte c = [0xdb#8, 0xdc#8]) ∨
    (c = 0xdb#8 ∧ slipOneByte c = [0xdb#8, 0xdd#8]) ∨
    (c = 0x11#8 ∧ slipOneByte c = [0xdb#8, 0xde#8]) ∨
    (c = 0x13#8 ∧ slipOneByte c = [0xdb#8, 0xdf#8]) ∨
    (¬ Reserved c ∧ c ≠ 0xdb#8 ∧ slipOneByte c = [c]) := by
  unfold slipOneByte Reserved
  split
  · exact .inl ⟨‹_›, rfl⟩
  split
  · exact .inr (.inl ⟨‹_›, rfl⟩)
  split
  · exact .inr (.inr (.inl ⟨‹_›, rfl⟩))
  split
  · exact .inr (.inr (.inr (.inl ⟨‹_›, rfl⟩)))
  · refine .inr (.inr (.inr (.inr ⟨?_, ‹_›, rfl⟩)))
    rintro (h | h | h) <;> contradiction

theorem not_reserved_of_mem_slipOneByte {b c : Byte} (h : b ∈ slipOneByte c) : ¬ Reserved b := by
  rcases slipOneByte_cases c with ⟨_, e⟩ | ⟨_, e⟩ | ⟨_, e⟩ | ⟨_, e⟩ | ⟨hc, _, e⟩ <;> rw [e] at h
  case inr.inr.inr.inr => rwa [List.mem_singleton.1 h]
  all_goals
    simp only [List.mem_cons, List.not_mem_nil, or_false] at h
    rcases h with rfl | rfl <;> simp [Reserved]

theorem not_reserved_of_mem_slip {b : Byte} {data : List Byte} (h : b ∈ slip data) :
    ¬ Reserved b := by
  obtain ⟨c, _, hc⟩ := List.mem_flatMap.1 h
  exact not_reserved_of_mem_slipOneByte hc

theorem slipOneByte_length_le (c : Byte) : (slipOneByte c).length ≤ 2 := by
  rcases slipOneByte_cases c with ⟨_, e⟩ | ⟨_, e⟩ | ⟨_, e⟩ | ⟨_, e⟩ | ⟨_, _, e⟩ <;> simp [e]

theorem slip_length_le (data : List Byte) : (slip data).length ≤ 2 * data.length := by
  induction data with
  | nil => simp [slip]
  | cons c data ih =>
    have := slipOneByte_length_le c
    rw [slip_cons, List.length_append, List.length_cons]
    omega

/-! ## Headers

Sequence numbers count modulo eight, and a channel has four bits. -/

instance neZero_eight : NeZero 8 := ⟨by decide⟩

instance neZero_sixteen : NeZero 16 := ⟨by decide⟩

/-- What `h5_prepare_pkt` puts in a header. `seq` is `none` on an unreliable packet. -/
structure Header where
  ack : Fin 8
  seq : Option (Fin 8)
  crc : Bool
  chan : Fin 16
  len : Fin 0x1000
  deriving DecidableEq, Repr

namespace Header

def byte0 (h : Header) : Byte :=
  let b := BitVec.ofNat 8 h.ack.val <<< 3
  let b := match h.seq with
    | some n => b ||| (0x80#8 + BitVec.ofNat 8 n.val)
    | none => b
  if h.crc then b ||| 0x40#8 else b

def byte1 (h : Header) : Byte := BitVec.ofNat 8 (h.len.val <<< 4) ||| BitVec.ofNat 8 h.chan.val

def byte2 (h : Header) : Byte := BitVec.ofNat 8 (h.len.val >>> 4)

def byte3 (h : Header) : Byte := ~~~(h.byte0 + h.byte1 + h.byte2)

def bytes (h : Header) : List Byte := [h.byte0, h.byte1, h.byte2, h.byte3]

theorem checksum (h : Header) : ~~~(h.byte0 + h.byte1 + h.byte2) = h.byte3 := rfl

end Header

/-! The fields as the receiver reads them. -/

def reliable (b0 : Byte) : Bool := b0 &&& 0x80#8 != 0

def hasCrc (b0 : Byte) : Bool := b0 &&& 0x40#8 != 0

def seqOf (b0 : Byte) : Fin 8 := Fin.ofNat 8 (b0 &&& 0x07#8).toNat

def ackOf (b0 : Byte) : Fin 8 := Fin.ofNat 8 ((b0 >>> 3) &&& 0x07#8).toNat

def chanOf (b1 : Byte) : Fin 16 := Fin.ofNat 16 (b1 &&& 0x0f#8).toNat

def lenOf (b1 b2 : Byte) : Nat := (b1 >>> 4).toNat + b2.toNat <<< 4

theorem lenOf_le (b1 b2 : Byte) : lenOf b1 b2 ≤ 0xFFF := by
  have h1 : (b1 >>> 4).toNat < 16 := by
    have := b1.isLt
    rw [BitVec.toNat_ushiftRight, Nat.shiftRight_eq_div_pow]
    omega
  have h2 := b2.isLt
  rw [lenOf, Nat.shiftLeft_eq]
  omega

namespace Header

theorem byte0_reads (h : Header) :
    reliable h.byte0 = h.seq.isSome ∧ hasCrc h.byte0 = h.crc ∧ ackOf h.byte0 = h.ack ∧
      ∀ n, h.seq = some n → seqOf h.byte0 = n := by
  obtain ⟨ack, seq, crc, chan, len⟩ := h
  cases seq with
  | none =>
    have key : ∀ (ack : Fin 8) (crc : Bool), let b := byte0 ⟨ack, none, crc, 0, 0⟩
        reliable b = false ∧ hasCrc b = crc ∧ ackOf b = ack := by decide
    obtain ⟨h1, h2, h3⟩ := key ack crc
    exact ⟨h1, h2, h3, by simp⟩
  | some m =>
    have key : ∀ (ack m : Fin 8) (crc : Bool), let b := byte0 ⟨ack, some m, crc, 0, 0⟩
        reliable b = true ∧ hasCrc b = crc ∧ ackOf b = ack ∧ seqOf b = m := by decide
    obtain ⟨h1, h2, h3, h4⟩ := key ack m crc
    refine ⟨h1, h2, h3, fun n hn => ?_⟩
    rw [← Option.some.inj hn]
    exact h4

/-- The length and the channel share `hdr[1]`. -/
theorem byte1_reads (h : Header) :
    chanOf h.byte1 = h.chan ∧ (h.byte1 >>> 4).toNat = h.len.val % 16 := by
  have key : ∀ c n : Fin 16,
      chanOf (BitVec.ofNat 8 (n.val <<< 4) ||| BitVec.ofNat 8 c.val) = c ∧
      ((BitVec.ofNat 8 (n.val <<< 4) ||| BitVec.ofNat 8 c.val) >>> 4).toNat = n.val := by decide
  have hlow : BitVec.ofNat 8 (h.len.val <<< 4) = BitVec.ofNat 8 ((h.len.val % 16) <<< 4) := by
    apply BitVec.eq_of_toNat_eq
    simp only [BitVec.toNat_ofNat, Nat.shiftLeft_eq]
    omega
  rw [byte1, hlow]
  exact key h.chan ⟨h.len.val % 16, Nat.mod_lt _ (by decide)⟩

theorem lenOf_bytes (h : Header) : lenOf h.byte1 h.byte2 = h.len := by
  have hlen := h.len.isLt
  rw [lenOf, h.byte1_reads.2, byte2, BitVec.toNat_ofNat, Nat.shiftLeft_eq,
    Nat.shiftRight_eq_div_pow]
  omega

end Header

/-! ## Frames -/

/-- The two CRC bytes, high byte first. -/
def crcBytes (c : BitVec 16) : List Byte := [(c >>> 8).setWidth 8, c.setWidth 8]

def be16 (hi lo : Byte) : BitVec 16 := (hi.setWidth 16 <<< 8) ||| lo.setWidth 16

theorem be16_crcBytes (c : BitVec 16) : be16 ((c >>> 8).setWidth 8) (c.setWidth 8) = c := by
  apply BitVec.eq_of_getLsbD_eq
  intro i hi
  simp only [be16, BitVec.getLsbD_or, BitVec.getLsbD_shiftLeft, BitVec.getLsbD_setWidth,
    BitVec.getLsbD_ushiftRight]
  by_cases h : i < 8
  · simp [h, hi]
  · simp [h, hi, show 8 + (i - 8) = i by omega, show i - 8 < 8 by omega]
    intro _
    omega

theorem crcBytes_be16 (a b : Byte) : crcBytes (be16 a b) = [a, b] := by
  have hhi : ((be16 a b) >>> 8).setWidth 8 = a := by
    apply BitVec.eq_of_getLsbD_eq
    intro i hi
    simp [be16, hi, show 8 + i < 16 by omega, show i < 16 by omega]
  have hlo : (be16 a b).setWidth 8 = b := by
    apply BitVec.eq_of_getLsbD_eq
    intro i hi
    simp [be16, hi]
  rw [crcBytes, hhi, hlo]

/-- A packet as it is sent. The length field has twelve bits. -/
structure Frame where
  ack : Fin 8
  seq : Option (Fin 8)
  crc : Bool
  chan : Fin 16
  data : List Byte
  short : data.length < 0x1000
  deriving DecidableEq

namespace Frame

def header (f : Frame) : Header := ⟨f.ack, f.seq, f.crc, f.chan, ⟨f.data.length, f.short⟩⟩

/-- The CRC over header and payload, as it is sent. -/
def check (f : Frame) : List Byte :=
  if f.crc then crcBytes (bitrev16 (crcOf (f.header.bytes ++ f.data))) else []

/-- What stands between the delimiters before escaping. -/
def body (f : Frame) : List Byte := f.header.bytes ++ (f.data ++ f.check)

def bytes (f : Frame) : List Byte := slipMsgdelim :: (slip f.body ++ [slipMsgdelim])

theorem check_eq {f : Frame} (hf : f.crc = true) :
    f.check = crcBytes (bitrev16 (crcOf (f.header.bytes ++ f.data))) := by
  rw [check, hf]
  rfl

theorem body_length_le (f : Frame) : f.body.length ≤ f.data.length + 6 := by
  unfold body check
  split <;> simp [Header.bytes, crcBytes]

end Frame

end H5

end Bluetooth
