import BrExternal.Bluetooth.Stream

/-!
# Frames damaged on the line

Damage changes the bytes on the line, not the bytes before they are escaped. As long as it neither
makes nor hits a delimiter and leaves as many bytes to read, the checksum of the header and the CRC
see every wrong byte of the header, every burst of up to sixteen bits in the payload and every
change of the CRC itself. A bit that makes a delimiter can get past them: the last example of this
file is a frame of which the receiver then takes a part for a packet of its own.
-/

namespace Bluetooth.H5

variable {σ : Type} {P : Proto σ}

/-- The two differ within a stretch of at most sixteen bits. -/
def Burst (d d' : List Byte) : Prop :=
  ∃ u x y v : List Bool, bits d = u ++ x ++ v ∧ bits d' = u ++ y ++ v ∧ x.length = y.length ∧
    x.length ≤ 16 ∧ x ≠ y

/-- What damage on the line can make of `f` between its delimiters: the bytes of one part are others
and still stand for as many bytes. In the header one byte is wrong; in the payload of a frame with
CRC up to sixteen bits in a row; in the CRC anything. -/
inductive Frame.Damaged (f : Frame) : List Byte → Prop where
  | header {w : List Byte} (i : ℕ) (b : Byte) (hw : unslip w = some (f.header.bytes.set i b))
    (hne : f.header.bytes.set i b ≠ f.header.bytes) :
    Damaged f (w ++ slip (f.data ++ f.check))
  | payload {w d : List Byte} (hf : f.crc = true) (hw : unslip w = some d)
    (hburst : Burst f.data d) : Damaged f (slip f.header.bytes ++ (w ++ slip f.check))
  | check {w c : List Byte} (hf : f.crc = true) (hw : unslip w = some c)
    (hlen : c.length = f.check.length) (hne : c ≠ f.check) :
    Damaged f (slip f.header.bytes ++ (slip f.data ++ w))

theorem Burst.length_eq {d d' : List Byte} (h : Burst d d') : d'.length = d.length := by
  obtain ⟨u, x, y, v, hd, hd', hlen, _⟩ := h
  have h1 := congrArg List.length hd
  have h2 := congrArg List.length hd'
  rw [bits_length] at h1 h2
  simp only [List.length_append] at h1 h2
  omega

theorem Burst.crcOf_ne {d d' : List Byte} (h : Burst d d') (x : List Byte) :
    crcOf (x ++ d') ≠ crcOf (x ++ d) := by
  obtain ⟨u, y, y', v, hd, hd', hlen, hw, hne⟩ := h
  rw [crcOf_append, crcOf_append, hd, hd']
  exact (Crc.feed_burst (by decide) _ u v y y' hlen hw hne).symm

/-- One wrong byte and the checksum of the header is wrong. -/
theorem Header.set_checksum_ne (h : Header) {i : ℕ} {b : Byte} (hne : h.bytes.set i b ≠ h.bytes) :
    ∃ b0 b1 b2 b3, h.bytes.set i b = [b0, b1, b2, b3] ∧ ~~~(b0 + b1 + b2) ≠ b3 := by
  have hnot : ∀ x y : Byte, ~~~x = ~~~y → x = y := fun x y e => by
    rw [← BitVec.not_not (b := x), e, BitVec.not_not]
  match i with
  | 0 =>
    refine ⟨b, h.byte1, h.byte2, h.byte3, rfl, fun e => hne ?_⟩
    have : b = h.byte0 := by
      have := hnot _ (h.byte0 + h.byte1 + h.byte2) e
      bv_omega
    rw [this]
    rfl
  | 1 =>
    refine ⟨h.byte0, b, h.byte2, h.byte3, rfl, fun e => hne ?_⟩
    have : b = h.byte1 := by
      have := hnot _ (h.byte0 + h.byte1 + h.byte2) e
      bv_omega
    rw [this]
    rfl
  | 2 =>
    refine ⟨h.byte0, h.byte1, b, h.byte3, rfl, fun e => hne ?_⟩
    have : b = h.byte2 := by
      have := hnot _ (h.byte0 + h.byte1 + h.byte2) e
      bv_omega
    rw [this]
    rfl
  | 3 =>
    refine ⟨h.byte0, h.byte1, h.byte2, b, rfl, fun e => hne ?_⟩
    rw [← e]
    rfl
  | i + 4 => exact absurd rfl hne

theorem reads_badHeader (h : Header) {w : List Byte} {i : ℕ} {b : Byte}
    (hw : unslip w = some (h.bytes.set i b)) (hne : h.bytes.set i b ≠ h.bytes) {bs : List Byte}
    (hbs : slipMsgdelim ∉ bs) : Reads P (w ++ bs) fun s s' => s' = s := by
  obtain ⟨b0, b1, b2, b3, hset, hsum⟩ := h.set_checksum_ne hne
  rw [hset] at hw
  intro t ht hmem
  refine ⟨⟨{ t.rx.headed [b0, b1, b2, b3] with skb := .freed, state := .pktStart }, t.mem.tail,
    t.s⟩, ⟨⟨rfl, by simp⟩, rfl⟩, rfl, rfl, fun rest => ?_⟩
  rw [List.append_assoc, recv_header ht hmem hw rfl, recv_badHeader _ _ _ hsum hbs]

theorem reads_badCrc (f : Frame) (hf : f.crc = true) {p q : List Byte} {c : BitVec 16}
    (hp : unslip p = some f.data) (hq : unslip q = some (crcBytes c))
    (hne : bitrev16 (crcOf (f.header.bytes ++ f.data)) ≠ c) :
    Reads P (slip f.header.bytes ++ (p ++ q)) fun s s' =>
      s' = if reliable f.header.byte0 && seqOf f.header.byte0 != P.rxseq s
        then P.outOfOrder s f.header.byte0 else s := by
  refine reads_packet f (fun s => s) hp (delim_notMem_of_unslip hq) fun r m s => ?_
  have hcrc := recv_crc (P := P) r m s f hf hq
  rwa [if_neg hne] at hcrc

theorem Frame.Damaged.reads {f : Frame} {w : List Byte} (h : f.Damaged w) :
    Reads P w fun s s' => s' = s ∨ s' = P.outOfOrder s f.header.byte0 := by
  have hnum : ∀ s s' : σ, (s' = if reliable f.header.byte0 && seqOf f.header.byte0 != P.rxseq s
      then P.outOfOrder s f.header.byte0 else s) → s' = s ∨ s' = P.outOfOrder s f.header.byte0 := by
    rintro s s' rfl
    split
    · exact .inr rfl
    · exact .inl rfl
  cases h with
  | header i b hw hne =>
    have hrest := delim_notMem_of_unslip (unslip_slip (f.data ++ f.check))
    exact (reads_badHeader f.header hw hne hrest).imp fun _ _ => .inl
  | @payload w d hf hw hburst =>
    -- it is the frame of `d`, with the check of `f`
    let g : Frame := { f with data := d, short := hburst.length_eq ▸ f.short }
    have hg : g.header = f.header := by simp [g, Frame.header, hburst.length_eq]
    have hchk := unslip_slip f.check
    nth_rw 2 [check_eq hf] at hchk
    have hbad := reads_badCrc (P := P) g hf hw hchk fun e =>
      hburst.crcOf_ne f.header.bytes (bitrev16_inj (hg ▸ e))
    rw [hg] at hbad
    exact hbad.imp hnum
  | @check w c hf hw hlen hne =>
    rw [check_eq hf] at hlen hne
    obtain ⟨a, b, rfl⟩ := List.length_eq_two.1 hlen
    rw [← crcBytes_be16 a b] at hw hne
    exact (reads_badCrc f hf (unslip_slip f.data) hw fun e => hne (by rw [e])).imp hnum

theorem Frame.Damaged.exists_cons {f : Frame} {w : List Byte} (h : f.Damaged w) :
    ∃ b w', w = b :: w' ∧ b ≠ slipMsgdelim := by
  have happend : ∀ {p q : List Byte}, (∃ b w', p = b :: w' ∧ b ≠ slipMsgdelim) →
      ∃ b w', p ++ q = b :: w' ∧ b ≠ slipMsgdelim := by
    rintro p q ⟨b, w', rfl, hb⟩
    exact ⟨b, w' ++ q, rfl, hb⟩
  cases h with
  | header i b hw hne =>
    obtain ⟨b0, b1, b2, b3, hset, _⟩ := f.header.set_checksum_ne hne
    rw [hset] at hw
    exact happend (exists_cons_of_unslip hw)
  | payload => exact happend (exists_cons_of_unslip (unslip_slip f.header.bytes))
  | check => exact happend (exists_cons_of_unslip (unslip_slip f.header.bytes))

/-- **Damage is seen.** A frame that the line damages is not taken: nothing happens, or the driver
is told of a packet out of sequence. -/
theorem damaged_dropped {t : Port σ} (h : t.Waiting) (hmem : t.Ample) {f : Frame} {w : List Byte}
    (hd : f.Damaged w) :
    ∃ t', recv P t (slipMsgdelim :: (w ++ [slipMsgdelim])) = some t' ∧ t'.Waiting ∧
      (t'.s = t.s ∨ t'.s = P.outOfOrder t.s f.header.byte0) := by
  obtain ⟨t', hw, _, hs, hr⟩ := hd.reads (P := P) t h hmem.head
  exact ⟨t', by rw [recv_delim_waiting h, hr, recv_nil], hw, hs⟩

theorem damaged_dropped_bit : ∃ t',
    recv recorder ⟨{ Rx.init with state := .pktStart }, [], []⟩ (slipMsgdelim ::
      (slip damaged.header.bytes ++ ([0x03] ++ slip damaged.check) ++ [slipMsgdelim])) = some t' ∧
    t'.s = [] := by
  have hw : (⟨{ Rx.init with state := .pktStart }, [], []⟩ : Port (List Packet)).Waiting :=
    ⟨⟨rfl, by simp [Rx.init]⟩, rfl⟩
  have hburst : Burst damaged.data [0x03] :=
    ⟨[true], [false], [true], [false, false, false, false, false, false], by decide, by decide,
      rfl, by decide, by decide⟩
  obtain ⟨t', ht, -, hs⟩ := damaged_dropped (P := recorder) hw (by simp [Port.Ample])
    (.payload (f := damaged) (w := [0x03]) rfl rfl hburst)
  exact ⟨t', ht, hs.elim id id⟩

/-- Its payload looks like a packet behind the first byte. -/
def nested : Frame := ⟨0, none, true, 14, [0xc1, 0x00, 0x1e, 0x00, 0xe1, 0x55], by decide⟩

/-- A bit that makes a delimiter is not seen: the packet behind it is taken. -/
example : nested.bytes[5]? = some 0xc1 ∧
    (recv recorder ⟨{ Rx.init with state := .pktStart }, [], []⟩ (nested.bytes.set 5 0xc0)).map
      (·.s) = some [⟨0x00, 0x1e, 0x00, 0xe1, [0x55]⟩] := by
  decide +kernel

end Bluetooth.H5
