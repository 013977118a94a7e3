import BrExternal.Bluetooth.Receiver

/-!
# Frames in a byte stream

What the receiver does with the bytes of a frame, and with frames in a stream that is cut into
chunks anywhere and starts anywhere. A delimiter brings every reachable state back to the start of
a packet (`recv_delim`), so one damaged frame costs no more than itself.
-/

namespace Bluetooth.H5

variable {σ : Type} {P : Proto σ}

def Port.Ample (t : Port σ) : Prop := ∀ a ∈ t.mem, a = true

def Frame.packet (f : Frame) : Packet :=
  ⟨f.header.byte0, f.header.byte1, f.header.byte2, f.header.byte3, f.data⟩

/-- What the driver does with a packet that passed its checks. -/
def Proto.receive (P : Proto σ) (s : σ) (p : Packet) : σ :=
  if reliable p.b0 && seqOf p.b0 != P.rxseq s then P.outOfOrder s p.b0 else P.complete s p

/-- Waiting for the first byte of a packet. -/
structure Port.Waiting (t : Port σ) : Prop where
  ok : t.rx.Ok
  start : t.rx.state = .pktStart

/-- Between two packets, with nothing of the next one seen. -/
structure Rx.Between (r : Rx) : Prop where
  ok : r.Ok
  state : r.state = .pktDelimiter ∨ r.state = .pktStart

theorem Port.Waiting.between {t : Port σ} (h : t.Waiting) : t.rx.Between := ⟨h.ok, .inr h.start⟩

theorem Port.Waiting.count {t : Port σ} (h : t.Waiting) : t.rx.count = 0 := by
  have := h.ok
  unfold Rx.Ok at this
  rw [h.start] at this
  exact this.1

theorem Port.Ample.of_mem {t t' : Port σ} (h : t.Ample) (hm : t'.mem = t.mem) : t'.Ample :=
  fun a ha => h a (hm ▸ ha)

theorem Port.Ample.of_tail {t t' : Port σ} (h : t.Ample) (hm : t'.mem = t.mem.tail) : t'.Ample :=
  fun a ha => h a (List.mem_of_mem_tail (hm ▸ ha))

theorem Port.Ample.head {t : Port σ} (h : t.Ample) : t.mem.head? ≠ some false := by
  intro hm
  have := h false (List.mem_of_head? hm)
  cases this

/-! ## Delimiters -/

/-- **Resynchronisation.** Whatever the receiver is in the middle of, after a delimiter it waits
for the first byte of a packet. -/
theorem recv_delim {t : Port σ} (h : t.rx.Ok) :
    ∃ t', t'.Waiting ∧ t'.mem = t.mem ∧
      ∀ rest, recv P t (slipMsgdelim :: rest) = recv P t' rest := by
  -- by induction on the passes the delimiter still costs
  induction hn : rank t.rx using Nat.strongRecOn generalizing t with
  | ind n ih =>
    have hspec := pass_spec (P := P) h slipMsgdelim
    cases hp : pass P t slipMsgdelim with
    | fault => rw [hp] at hspec; exact hspec.elim
    | stop t' => rw [hp] at hspec; exact absurd rfl hspec.2.2.1
    | next t' =>
      rw [hp] at hspec
      exact ⟨t', ⟨hspec.1, hspec.2.2 rfl⟩, hspec.2.1, recv_next hp⟩
    | again t' =>
      rw [hp] at hspec
      obtain ⟨hok, hmem⟩ := hspec
      have hmem : t'.mem = t.mem := hmem.resolve_right fun h => h.1 rfl
      obtain ⟨u, hu, hum, hr⟩ := ih _ (hn ▸ pass_again_rank P hp) hok rfl
      refine ⟨u, hu, hum.trans hmem, fun rest => ?_⟩
      rw [recv_cons, hp]
      exact hr rest

/-! ## Chunks -/

/-- With memory the boundaries of the chunks do not matter. -/
theorem recv_append {t : Port σ} (h : t.rx.Ok) (hmem : t.Ample) (xs : List Byte) :
    ∃ t', recv P t xs = some t' ∧ t'.rx.Ok ∧ t'.Ample ∧
      ∀ ys, recv P t (xs ++ ys) = recv P t' ys := by
  fun_induction recv P t xs with
  | case1 t => exact ⟨t, rfl, h, hmem, fun _ => rfl⟩
  | case2 t b bs hp =>
    have hspec := pass_spec (P := P) h b
    rw [hp] at hspec
    exact hspec.elim
  | case3 t b bs t' hp =>
    have hspec := pass_spec (P := P) h b
    rw [hp] at hspec
    have hfail := hmem false (by rw [hspec.2.1]; exact List.mem_cons_self)
    cases hfail
  | case4 t b bs t' hp ih =>
    have hspec := pass_spec (P := P) h b
    rw [hp] at hspec
    obtain ⟨u, hu, hok, ha, hr⟩ := ih hspec.1 (hmem.of_mem hspec.2.1)
    exact ⟨u, hu, hok, ha, fun ys => by rw [List.cons_append, recv_next hp, hr]⟩
  | case5 t b bs t' hp ih =>
    have hspec := pass_spec (P := P) h b
    rw [hp] at hspec
    have hample : t'.Ample := hspec.2.elim hmem.of_mem fun h => hmem.of_tail h.2
    obtain ⟨u, hu, hok, ha, hr⟩ := ih hspec.1 hample
    refine ⟨u, hu, hok, ha, fun ys => ?_⟩
    rw [← hr, List.cons_append, recv_cons, hp]

theorem recvChunks_flatten {t : Port σ} (h : t.rx.Ok) (hmem : t.Ample)
    (chunks : List (List Byte)) : recvChunks P t chunks = recv P t chunks.flatten := by
  have hcut : ∀ t c, t.rx.Ok ∧ t.Ample → ∃ t', recv P t c = some t' ∧ (t'.rx.Ok ∧ t'.Ample) ∧
      ∀ rest, recv P t (c ++ rest) = recv P t' rest := by
    intro t c ⟨h, hmem⟩
    obtain ⟨t', ht', hok, ha, hr⟩ := recv_append (P := P) h hmem c
    exact ⟨t', ht', ⟨hok, ha⟩, hr⟩
  exact Chunks.foldlM_flatten recv_nil hcut ⟨h, hmem⟩ chunks

/-! ## Escaped bytes -/

/-- Whether the first byte of a buffer announces a CRC. -/
def announces : List Byte → Bool
  | [] => false
  | b0 :: _ => hasCrc b0

/-- The receiver after the unescaped bytes `l`, with `d` in the buffer before. -/
def Rx.filled (r : Rx) (d l : List Byte) : Rx :=
  { r with
    skb := .live (d ++ l)
    count := r.count - l.length
    messageCrc := if announces (d ++ l) && r.state != .crc then l.foldl crcUpdate r.messageCrc
      else r.messageCrc }

theorem Rx.store_eq_filled {r : Rx} {d : List Byte} (h : r.skb = .live d)
    (hd : d.length < 0x1005) (c : Byte) : r.store c = some (r.filled d [c]) := by
  unfold store filled
  rw [h, RxSkb.put, if_pos hd]
  cases d <;> rfl

theorem Rx.filled_nil {r : Rx} {d : List Byte} (h : r.skb = .live d) : r.filled d [] = r := by
  unfold filled
  rw [List.append_nil, ← h]
  simp

theorem announces_append {d : List Byte} (h : d ≠ []) (l : List Byte) :
    announces (d ++ l) = announces d := by
  cases d with
  | nil => exact absurd rfl h
  | cons => rfl

theorem Rx.filled_filled (r : Rx) (d : List Byte) (c : Byte) (l : List Byte) :
    (r.filled d [c]).filled (d ++ [c]) l = r.filled d (c :: l) := by
  have ha : announces (d ++ c :: l) = announces (d ++ [c]) := by
    rw [← announces_append (d := d ++ [c]) (by simp) l, List.append_assoc]
    rfl
  unfold filled
  dsimp only
  rw [List.append_assoc, List.singleton_append, ha]
  have hcount : r.count - [c].length - l.length = r.count - (c :: l).length := by
    simp only [List.length_cons, List.length_nil]
    omega
  rw [hcount]
  split <;> rfl

/-- What the bytes between two delimiters stand for. There is no answer when one of them is a
delimiter or an escape is not followed by one of its four bytes. -/
def unslip : List Byte → Option (List Byte)
  | [] => some []
  | b :: w =>
    if b = slipMsgdelim then none
    else if b = 0xdb#8 then
      match w with
      | [] => none
      | e :: w => do return (← Rx.unescape e) :: (← unslip w)
    else (unslip w).map (b :: ·)

theorem unslip_plain {b : Byte} (hb : b ≠ slipMsgdelim) (hdb : b ≠ 0xdb#8) (w : List Byte) :
    unslip (b :: w) = (unslip w).map (b :: ·) := by
  rw [unslip.eq_def]
  dsimp only
  rw [if_neg hb, if_neg hdb]

theorem unslip_escaped {e c : Byte} (he : Rx.unescape e = some c) (w : List Byte) :
    unslip (0xdb#8 :: e :: w) = (unslip w).map (c :: ·) := by
  rw [unslip.eq_def]
  dsimp only
  rw [if_neg (by decide), if_pos rfl, he]
  cases unslip w <;> rfl

theorem unslip_slip (l : List Byte) : unslip (slip l) = some l := by
  induction l with
  | nil => rfl
  | cons c l ih =>
    rw [slip_cons]
    rcases slipOneByte_cases c with ⟨rfl, h⟩ | ⟨rfl, h⟩ | ⟨rfl, h⟩ | ⟨rfl, h⟩ | ⟨hres, hdb, h⟩ <;>
      rw [h]
    case inr.inr.inr.inr =>
      rw [List.singleton_append, unslip_plain (fun hc => hres (.inl hc)) hdb, ih]
      rfl
    all_goals
      show unslip (0xdb#8 :: _ :: slip l) = _
      rw [unslip_escaped rfl, ih]
      rfl

theorem delim_notMem_of_unslip {w l : List Byte} (h : unslip w = some l) : slipMsgdelim ∉ w := by
  fun_induction unslip w generalizing l with
  | case1 => exact List.not_mem_nil
  | case2 => cases h
  | case3 => cases h
  | case4 e w hb ih =>
    obtain ⟨c, he, l', hl, -⟩ : ∃ c, Rx.unescape e = some c ∧ ∃ l', unslip w = some l' ∧
        c :: l' = l := by simpa [Option.bind_eq_some_iff] using h
    have hne : slipMsgdelim ≠ e := by rintro rfl; cases he
    exact fun hm => (List.mem_cons.1 hm).elim (by decide) fun hm =>
      (List.mem_cons.1 hm).elim hne (ih hl)
  | case5 b w hb hdb ih =>
    obtain ⟨l', hl, -⟩ := Option.map_eq_some_iff.1 h
    exact fun hm => (List.mem_cons.1 hm).elim (Ne.symm hb) (ih hl)

theorem pass_busy {t : Port σ} {b : Byte} (hc : t.rx.count ≠ 0) (hb : b ≠ slipMsgdelim) :
    pass P t b = .ofNext t (t.rx.unslipOneByte b) := by
  unfold pass
  rw [if_pos hc, if_neg hb]

section Unescaped

variable {t : Port σ} {d : List Byte} (hskb : t.rx.skb = .live d) (hesc : t.rx.esc = .noEsc)

include hskb hesc

theorem recv_plain (hd : d.length < 0x1005) (hc : t.rx.count ≠ 0) {b : Byte}
    (hb : b ≠ slipMsgdelim) (hdb : b ≠ 0xdb#8) (rest : List Byte) :
    recv P t (b :: rest) = recv P { t with rx := t.rx.filled d [b] } rest := by
  refine recv_next ?_ rest
  rw [pass_busy hc hb, Rx.unslipOneByte, hesc]
  dsimp only
  rw [if_neg hdb, Rx.store_eq_filled hskb hd]
  rfl

theorem recv_escaped (hd : d.length < 0x1005) (hc : t.rx.count ≠ 0) {e c : Byte}
    (he : Rx.unescape e = some c) (rest : List Byte) :
    recv P t (0xdb#8 :: e :: rest) = recv P { t with rx := t.rx.filled d [c] } rest := by
  have hb : e ≠ slipMsgdelim := by rintro rfl; cases he
  have h1 : pass P t 0xdb#8 = .next { t with rx := { t.rx with esc := .esc } } := by
    rw [pass_busy hc (by decide), Rx.unslipOneByte, hesc]
    rfl
  have h2 : pass P { t with rx := { t.rx with esc := .esc } } e =
      .next { t with rx := t.rx.filled d [c] } := by
    have hstore := Rx.store_eq_filled (r := { t.rx with esc := .esc }) hskb hd c
    rw [pass_busy (t := { t with rx := { t.rx with esc := .esc } }) hc hb, Rx.unslipOneByte]
    dsimp only
    rw [he]
    dsimp only at hstore ⊢
    rw [hstore]
    show Pass.next _ = Pass.next _
    rw [Rx.filled, Rx.filled, ← hesc]
  rw [recv_next h1, recv_next h2]

/-- A part of a packet that the receiver still waits for, as it comes over the line. -/
theorem recv_unslip {w l : List Byte} (h : unslip w = some l) (hd : d.length + l.length ≤ 0x1005)
    (hc : l.length ≤ t.rx.count) (rest : List Byte) :
    recv P t (w ++ rest) = recv P { t with rx := t.rx.filled d l } rest := by
  fun_induction unslip w generalizing t d l with
  | case1 =>
    cases h
    rw [Rx.filled_nil hskb]
    rfl
  | case2 => cases h
  | case3 => cases h
  | case4 e w hb ih =>
    obtain ⟨c, he, l', hl, rfl⟩ : ∃ c, Rx.unescape e = some c ∧ ∃ l', unslip w = some l' ∧
        c :: l' = l := by simpa [Option.bind_eq_some_iff] using h
    rw [List.length_cons] at hd hc
    rw [← Rx.filled_filled, List.cons_append, List.cons_append,
      recv_escaped hskb hesc (by omega) (by omega) he]
    refine ih (t := { t with rx := t.rx.filled d [c] }) rfl hesc hl ?_ ?_
    · rw [List.length_append, List.length_singleton]
      omega
    · show l'.length ≤ t.rx.count - 1
      omega
  | case5 b w hb hdb ih =>
    obtain ⟨l', hl, rfl⟩ := Option.map_eq_some_iff.1 h
    rw [List.length_cons] at hd hc
    rw [← Rx.filled_filled, List.cons_append, recv_plain hskb hesc (by omega) (by omega) hb hdb]
    refine ih (t := { t with rx := t.rx.filled d [b] }) rfl hesc hl ?_ ?_
    · rw [List.length_append, List.length_singleton]
      omega
    · show l'.length ≤ t.rx.count - 1
      omega

end Unescaped

/-! ## One frame -/

theorem ofData_bytes (h : Header) (l : List Byte) :
    Packet.ofData (h.bytes ++ l) = some ⟨h.byte0, h.byte1, h.byte2, h.byte3, l⟩ := rfl

theorem pass_hdr {t : Port σ} {d : List Byte} {p : Packet} (hc : t.rx.count = 0)
    (hst : t.rx.state = .hdr) (hskb : t.rx.skb = .live d) (hp : Packet.ofData d = some p)
    (b : Byte) : pass P t b = passHdr P t p := by
  unfold pass
  rw [if_neg (not_not.2 hc), hst, hskb]
  dsimp only
  rw [hp]

theorem pass_data {t : Port σ} {d : List Byte} {p : Packet} (hc : t.rx.count = 0)
    (hst : t.rx.state = .data) (hskb : t.rx.skb = .live d) (hp : Packet.ofData d = some p)
    (b : Byte) : pass P t b = passData P t p := by
  unfold pass
  rw [if_neg (not_not.2 hc), hst, hskb]
  dsimp only
  rw [hp]

theorem pass_crc {t : Port σ} {d : List Byte} (hc : t.rx.count = 0) (hst : t.rx.state = .crc)
    (hskb : t.rx.skb = .live d) (b : Byte) : pass P t b = passCrc P t d := by
  unfold pass
  rw [if_neg (not_not.2 hc), hst, hskb]

theorem exists_cons_of_unslip {w l : List Byte} {c : Byte} (h : unslip w = some (c :: l)) :
    ∃ b w', w = b :: w' ∧ b ≠ slipMsgdelim := by
  cases w with
  | nil => cases h
  | cons b w => exact ⟨b, w, rfl, fun hb => delim_notMem_of_unslip h (hb ▸ List.mem_cons_self)⟩

theorem recv_start {t : Port σ} (h : t.Waiting) (hmem : t.mem.head? ≠ some false) {b : Byte}
    (hb : b ≠ slipMsgdelim) (bs : List Byte) :
    recv P t (b :: bs) =
      recv P { t with rx := { t.rx.start with skb := .live [] }, mem := t.mem.tail } (b :: bs) := by
  have hp : pass P t b =
      .again { t with rx := { t.rx.start with skb := .live [] }, mem := t.mem.tail } := by
    unfold pass
    rw [if_neg (not_not.2 h.count), h.start]
    dsimp only
    unfold passStart
    rw [if_neg hb]
    split
    · rename_i mem hm
      rw [hm] at hmem
      exact absurd rfl hmem
    · rfl
  rw [recv_cons, hp]

theorem recv_skip {t : Port σ} (hc : t.rx.count = 0) (hst : t.rx.state = .pktDelimiter)
    {bs : List Byte} (hbs : slipMsgdelim ∉ bs) (rest : List Byte) :
    recv P t (bs ++ slipMsgdelim :: rest) =
      recv P { t with rx := { t.rx with state := .pktStart } } rest := by
  induction bs with
  | nil =>
    refine recv_next ?_ rest
    unfold pass
    rw [if_neg (not_not.2 hc), hst]
    rfl
  | cons b bs ih =>
    rw [List.mem_cons, not_or] at hbs
    have hskip : pass P t b = .next t := by
      unfold pass
      rw [if_neg (not_not.2 hc), hst]
      dsimp only
      rw [if_neg (Ne.symm hbs.1)]
    rw [List.cons_append, recv_next hskip, ih hbs.2]

/-- The receiver after the four bytes `h` of a header. -/
def Rx.headed (r : Rx) (h : List Byte) : Rx :=
  { r with
    skb := .live h
    state := .hdr
    count := 0
    esc := .noEsc
    messageCrc := if announces h then crcOf h else crcInit }

theorem Frame.announces_bytes (f : Frame) (l : List Byte) :
    announces (f.header.bytes ++ l) = f.crc :=
  f.header.byte0_reads.2.1

theorem recv_header {t : Port σ} (hw : t.Waiting) (hmem : t.mem.head? ≠ some false)
    {w h : List Byte} (hh : unslip w = some h) (hlen : h.length = 4) (rest : List Byte) :
    recv P t (w ++ rest) = recv P ⟨t.rx.headed h, t.mem.tail, t.s⟩ rest := by
  have hfill : Rx.filled { t.rx.start with skb := .live [] } [] h = t.rx.headed h := by
    unfold Rx.filled Rx.headed
    dsimp only [Rx.start]
    rw [List.nil_append, hlen]
    cases announces h <;> rfl
  obtain ⟨c, l, hcons⟩ := List.exists_cons_of_length_pos (l := h) (by omega)
  obtain ⟨b, w', rfl, hb⟩ := exists_cons_of_unslip (hcons ▸ hh)
  rw [← hfill]
  refine (recv_start hw hmem hb (w' ++ rest)).trans ?_
  exact recv_unslip (t := { t with rx := { t.rx.start with skb := .live [] }, mem := t.mem.tail })
    rfl rfl hh (by simp [hlen]) (Nat.le_of_eq hlen) rest

section Body

variable (r : Rx) (m : List Bool) (s : σ) (f : Frame)

theorem recv_badHeader {b0 b1 b2 b3 : Byte} (hne : ~~~(b0 + b1 + b2) ≠ b3) {bs : List Byte}
    (hbs : slipMsgdelim ∉ bs) (rest : List Byte) :
    recv P ⟨r.headed [b0, b1, b2, b3], m, s⟩ (bs ++ slipMsgdelim :: rest) =
      recv P ⟨{ r.headed [b0, b1, b2, b3] with skb := .freed, state := .pktStart }, m, s⟩ rest := by
  have hp : ∀ b, pass P ⟨r.headed [b0, b1, b2, b3], m, s⟩ b =
      .again ⟨{ r.headed [b0, b1, b2, b3] with skb := .freed, state := .pktDelimiter }, m, s⟩ := by
    intro b
    rw [pass_hdr rfl rfl rfl rfl, passHdr, if_pos hne]
    rfl
  rw [recv_again hp (by simp), recv_skip rfl rfl hbs]

/-- A packet out of sequence is dropped with everything up to its closing delimiter. -/
theorem recv_outOfOrder
    (hseq : (reliable f.header.byte0 && seqOf f.header.byte0 != P.rxseq s) = true)
    {bs : List Byte} (hbs : slipMsgdelim ∉ bs) (rest : List Byte) :
    recv P ⟨r.headed f.header.bytes, m, s⟩ (bs ++ slipMsgdelim :: rest) =
      recv P ⟨{ r.headed f.header.bytes with skb := .freed, state := .pktStart }, m,
        P.outOfOrder s f.header.byte0⟩ rest := by
  have hp : ∀ b, pass P ⟨r.headed f.header.bytes, m, s⟩ b =
      .again ⟨{ r.headed f.header.bytes with skb := .freed, state := .pktDelimiter }, m,
        P.outOfOrder s f.header.byte0⟩ := by
    intro b
    rw [pass_hdr rfl rfl rfl (ofData_bytes f.header []), passHdr]
    dsimp only
    rw [if_neg (not_not.2 f.header.checksum), if_pos hseq]
    rfl
  rw [recv_again hp (by simp), recv_skip rfl rfl hbs]

/-- The receiver after header and payload of `f`. -/
def Rx.loaded (r : Rx) (f : Frame) : Rx :=
  { r with
    skb := .live (f.header.bytes ++ f.data)
    state := .data
    count := 0
    esc := .noEsc
    messageCrc := if f.crc then crcOf (f.header.bytes ++ f.data) else crcInit }

theorem recv_payload
    (hseq : (reliable f.header.byte0 && seqOf f.header.byte0 != P.rxseq s) = false)
    {w : List Byte} (hw : unslip w = some f.data) {rest : List Byte} (hne : rest ≠ []) :
    recv P ⟨r.headed f.header.bytes, m, s⟩ (w ++ rest) = recv P ⟨r.loaded f, m, s⟩ rest := by
  have hp : ∀ b, pass P ⟨r.headed f.header.bytes, m, s⟩ b =
      .again ⟨{ r.headed f.header.bytes with state := .data, count := f.data.length }, m, s⟩ := by
    intro b
    rw [pass_hdr rfl rfl rfl (ofData_bytes f.header []), passHdr]
    dsimp only
    rw [if_neg (not_not.2 f.header.checksum), if_neg (by rw [hseq]; decide),
      f.header.lenOf_bytes]
    rfl
  have hfill : Rx.filled { r.headed f.header.bytes with state := .data, count := f.data.length }
      f.header.bytes f.data = r.loaded f := by
    have ha := f.announces_bytes []
    rw [List.append_nil] at ha
    unfold Rx.filled Rx.loaded Rx.headed
    dsimp only
    rw [f.announces_bytes, ha, Nat.sub_self]
    cases f.crc with
    | false => rfl
    | true => simp [crcOf, List.foldl_append]
  have hlen : f.header.bytes.length + f.data.length ≤ 0x1005 := by
    have := f.short
    simp only [Header.bytes, List.length_cons, List.length_nil]
    omega
  rw [recv_again hp (by simp [hne]), ← hfill]
  exact recv_unslip
    (t := ⟨{ r.headed f.header.bytes with state := .data, count := f.data.length }, m, s⟩)
    rfl rfl hw hlen (Nat.le_refl _) rest

theorem bscpGetCrc_append (x : List Byte) (c : BitVec 16) :
    bscpGetCrc (x ++ crcBytes c) = c := by
  have hlen : (x ++ crcBytes c).length = x.length + 2 := by simp [crcBytes]
  rw [bscpGetCrc, hlen, show x.length + 2 - 2 = x.length from rfl,
    show x.length + 2 - 1 = x.length + 1 from rfl]
  simp only [List.getD_eq_getElem?_getD, List.getElem?_append_right, Nat.le_refl,
    Nat.le_add_right, Nat.sub_self, Nat.add_sub_cancel_left, crcBytes]
  exact be16_crcBytes c

theorem take_append_crcBytes (x : List Byte) (c : BitVec 16) :
    (x ++ crcBytes c).take ((x ++ crcBytes c).length - 2) = x := by
  have hlen : (x ++ crcBytes c).length - 2 = x.length := by simp [crcBytes]
  rw [hlen, List.take_left]

theorem pass_check (c crc : BitVec 16) (b : Byte) :
    pass P ⟨⟨0, .live (f.header.bytes ++ f.data ++ crcBytes c), .crc, .noEsc, crc⟩, m, s⟩ b =
      .again ⟨⟨0, if bitrev16 crc = c then .null else .freed, .pktDelimiter, .noEsc, crc⟩, m,
        if bitrev16 crc = c then P.complete s f.packet else s⟩ := by
  rw [pass_crc rfl rfl rfl, passCrc, bscpGetCrc_append]
  by_cases hc : bitrev16 crc = c
  · rw [if_neg (not_not.2 hc), take_append_crcBytes, ofData_bytes, if_pos hc, if_pos hc]
    rfl
  · rw [if_pos hc, if_neg hc, if_neg hc]
    rfl

theorem recv_crc (hf : f.crc = true) {w : List Byte} {c : BitVec 16}
    (hw : unslip w = some (crcBytes c)) :
    ∃ r', Rx.Ok r' ∧ r'.state = .pktStart ∧
      ∀ rest, recv P ⟨r.loaded f, m, s⟩ (w ++ slipMsgdelim :: rest) =
        recv P ⟨r', m, if bitrev16 (crcOf (f.header.bytes ++ f.data)) = c
          then P.complete s f.packet else s⟩ rest := by
  have hdata : ∀ b, pass P ⟨r.loaded f, m, s⟩ b =
      .again ⟨{ r.loaded f with state := .crc, count := 2 }, m, s⟩ := by
    intro b
    have hcrc : hasCrc f.header.byte0 = true := f.header.byte0_reads.2.1.trans hf
    rw [pass_data rfl rfl rfl (ofData_bytes f.header f.data), passData]
    exact if_pos hcrc
  -- the two bytes go into the buffer and leave the computed CRC alone
  have hfill : Rx.filled { r.loaded f with state := .crc, count := 2 }
      (f.header.bytes ++ f.data) (crcBytes c) =
        ⟨0, .live (f.header.bytes ++ f.data ++ crcBytes c), .crc, .noEsc,
          crcOf (f.header.bytes ++ f.data)⟩ := by
    simp [Rx.filled, Rx.loaded, hf, crcBytes]
  have hlen : (f.header.bytes ++ f.data).length + (crcBytes c).length ≤ 0x1005 := by
    have := f.short
    simp only [crcBytes, Header.bytes, List.length_append, List.length_cons, List.length_nil]
    omega
  have hslip := recv_unslip (P := P) (t := ⟨{ r.loaded f with state := .crc, count := 2 }, m, s⟩)
    rfl rfl hw hlen (by simp [crcBytes])
  rw [hfill] at hslip
  refine ⟨⟨0, if bitrev16 (crcOf (f.header.bytes ++ f.data)) = c then .null else .freed, .pktStart,
    .noEsc, crcOf (f.header.bytes ++ f.data)⟩, ⟨rfl, by split <;> simp⟩, rfl, fun rest => ?_⟩
  rw [recv_again hdata (by simp), hslip, recv_again (pass_check m s f c _) (by simp)]
  exact recv_skip rfl rfl List.not_mem_nil rest

theorem recv_check :
    ∃ r', Rx.Ok r' ∧ r'.state = .pktStart ∧
      ∀ rest, recv P ⟨r.loaded f, m, s⟩ (slip f.check ++ slipMsgdelim :: rest) =
        recv P ⟨r', m, P.complete s f.packet⟩ rest := by
  unfold Frame.check
  cases hf : f.crc with
  | true =>
    have := recv_crc (P := P) r m s f hf
      (unslip_slip (crcBytes (bitrev16 (crcOf (f.header.bytes ++ f.data)))))
    rwa [if_pos rfl] at this
  | false =>
    have hcrc : hasCrc f.header.byte0 = false := f.header.byte0_reads.2.1.trans hf
    have hdone : ∀ b, pass P ⟨r.loaded f, m, s⟩ b =
        .again ⟨{ r.loaded f with skb := .null, state := .pktDelimiter }, m,
          P.complete s f.packet⟩ := by
      intro b
      rw [pass_data rfl rfl rfl (ofData_bytes f.header f.data), passData]
      exact if_neg (by rw [hcrc]; decide)
    refine ⟨{ r.loaded f with skb := .null, state := .pktStart }, ⟨rfl, by simp⟩,
      rfl, fun rest => ?_⟩
    rw [recv_again hdone (by simp)]
    exact recv_skip rfl rfl List.not_mem_nil rest

end Body

/-- The receiver takes `w` as what stands between two delimiters, and `Q` says what becomes of the
driver. -/
def Reads (P : Proto σ) (w : List Byte) (Q : σ → σ → Prop) : Prop :=
  ∀ t : Port σ, t.Waiting → t.mem.head? ≠ some false →
    ∃ t', t'.Waiting ∧ t'.mem = t.mem.tail ∧ Q t.s t'.s ∧
      ∀ rest, recv P t (w ++ slipMsgdelim :: rest) = recv P t' rest

theorem Reads.imp {w : List Byte} {Q R : σ → σ → Prop} (h : Reads P w Q)
    (hQR : ∀ s s', Q s s' → R s s') : Reads P w R := by
  intro t ht hmem
  obtain ⟨t', hw, hm, hQ, hr⟩ := h t ht hmem
  exact ⟨t', hw, hm, hQR _ _ hQ, hr⟩

/-- A packet with payload and check as they come over the line. `next` is what the check leads
to. -/
theorem reads_packet (f : Frame) (next : σ → σ) {p q : List Byte}
    (hp : unslip p = some f.data) (hq : slipMsgdelim ∉ q)
    (hk : ∀ (r : Rx) m s, ∃ r', Rx.Ok r' ∧ r'.state = .pktStart ∧
      ∀ rest, recv P ⟨r.loaded f, m, s⟩ (q ++ slipMsgdelim :: rest) =
        recv P ⟨r', m, next s⟩ rest) :
    Reads P (slip f.header.bytes ++ (p ++ q)) fun s s' =>
      s' = if reliable f.header.byte0 && seqOf f.header.byte0 != P.rxseq s
        then P.outOfOrder s f.header.byte0 else next s := by
  intro t h hmem
  have hhdr := recv_header (P := P) h hmem (unslip_slip f.header.bytes) rfl
  cases hseq : reliable f.header.byte0 && seqOf f.header.byte0 != P.rxseq t.s with
  | true =>
    refine ⟨⟨{ t.rx.headed f.header.bytes with skb := .freed, state := .pktStart }, t.mem.tail,
      P.outOfOrder t.s f.header.byte0⟩, ⟨⟨rfl, by simp⟩, rfl⟩, rfl, (if_pos hseq).symm, ?_⟩
    intro rest
    have hbs : slipMsgdelim ∉ p ++ q := fun hm =>
      (List.mem_append.1 hm).elim (delim_notMem_of_unslip hp) hq
    rw [List.append_assoc, hhdr, recv_outOfOrder _ _ _ _ hseq hbs]
  | false =>
    obtain ⟨r', hok, hst, hr⟩ := hk t.rx t.mem.tail t.s
    have hno : ¬ (reliable f.header.byte0 && seqOf f.header.byte0 != P.rxseq t.s) = true := by
      rw [hseq]
      decide
    refine ⟨⟨r', t.mem.tail, next t.s⟩, ⟨hok, hst⟩, rfl, (if_neg hno).symm, ?_⟩
    intro rest
    rw [List.append_assoc, hhdr, List.append_assoc, recv_payload _ _ _ _ hseq hp (by simp), hr]

theorem reads_body (f : Frame) :
    Reads P (slip f.body) fun s s' => s' = P.receive s f.packet := by
  have hbody : slip f.body = slip f.header.bytes ++ (slip f.data ++ slip f.check) := by
    rw [Frame.body, slip_append, slip_append]
  rw [hbody]
  exact reads_packet f _ (unslip_slip f.data) (delim_notMem_of_unslip (unslip_slip f.check))
    (fun r m s => recv_check r m s f)

/-! ## Frames in a stream -/

theorem recv_delim_waiting {t : Port σ} (h : t.Waiting) (rest : List Byte) :
    recv P t (slipMsgdelim :: rest) = recv P t rest := by
  refine recv_next ?_ rest
  unfold pass
  rw [if_neg (not_not.2 h.count), h.start]
  rfl

theorem bytes_append (f : Frame) (rest : List Byte) :
    f.bytes ++ rest = slipMsgdelim :: (slip f.body ++ slipMsgdelim :: rest) := by
  simp [Frame.bytes]

theorem recv_delim_between {t : Port σ} (h : t.rx.Between) :
    ∃ t', t'.Waiting ∧ t'.mem = t.mem ∧ t'.s = t.s ∧
      ∀ rest, recv P t (slipMsgdelim :: rest) = recv P t' rest := by
  obtain ⟨hok, hst | hst⟩ := h
  · have hok' := hok
    unfold Rx.Ok at hok'
    rw [hst] at hok'
    exact ⟨⟨{ t.rx with state := .pktStart }, t.mem, t.s⟩, ⟨⟨hok'.1, hok'.2⟩, rfl⟩, rfl, rfl,
      recv_skip hok'.1 hst List.not_mem_nil⟩
  · exact ⟨t, ⟨hok, hst⟩, rfl, rfl, recv_delim_waiting ⟨hok, hst⟩⟩

theorem recv_stop {t : Port σ} (h : t.Waiting) (hmem : t.mem.head? = some false) {b : Byte}
    (hb : b ≠ slipMsgdelim) (bs : List Byte) :
    ∃ t', recv P t (b :: bs) = some t' ∧ t'.rx.Between ∧ t'.s = t.s := by
  obtain ⟨m, hm⟩ : ∃ m, t.mem = false :: m := by
    cases hm : t.mem with
    | nil => rw [hm] at hmem; cases hmem
    | cons a m => rw [hm] at hmem; cases hmem; exact ⟨m, rfl⟩
  refine ⟨⟨{ t.rx.start with skb := .null, state := .pktDelimiter, count := 0 }, m, t.s⟩, ?_,
    ⟨⟨rfl, by simp⟩, .inl rfl⟩, rfl⟩
  have hp : pass P t b =
      .stop ⟨{ t.rx.start with skb := .null, state := .pktDelimiter, count := 0 }, m, t.s⟩ := by
    unfold pass
    rw [if_neg (not_not.2 h.count), h.start]
    dsimp only
    unfold passStart
    rw [if_neg hb, hm]
  rw [recv_cons, hp]

theorem Reads.enclosed {w : List Byte} {Q : σ → σ → Prop} (hr : Reads P w Q)
    (hw : ∃ b w', w = b :: w' ∧ b ≠ slipMsgdelim) {t : Port σ} (h : t.rx.Between) :
    ∃ t', recv P t (slipMsgdelim :: (w ++ [slipMsgdelim])) = some t' ∧ t'.rx.Between ∧
      if t.mem.head? = some false then t'.s = t.s else Q t.s t'.s := by
  obtain ⟨u, hu, hm, hs, hdelim⟩ := recv_delim_between (P := P) h
  rw [hdelim, ← hm, ← hs]
  by_cases hmem : u.mem.head? = some false
  · obtain ⟨b, w', rfl, hb⟩ := hw
    obtain ⟨t', ht', hbt, hs'⟩ := recv_stop (P := P) hu hmem hb (w' ++ [slipMsgdelim])
    exact ⟨t', ht', hbt, by rwa [if_pos hmem]⟩
  · obtain ⟨t', hwait, _, hQ, hrest⟩ := hr u hu hmem
    exact ⟨t', by rw [hrest, recv_nil], hwait.between, by rwa [if_neg hmem]⟩

/-- **One frame.** A frame that comes in one chunk is received as its packet, unless the buffer
for it cannot be allocated. -/
theorem recv_frame {t : Port σ} (h : t.rx.Between) (f : Frame) :
    ∃ t', recv P t f.bytes = some t' ∧ t'.rx.Between ∧
      t'.s = if t.mem.head? = some false then t.s else P.receive t.s f.packet := by
  obtain ⟨t', ht', hb, hs⟩ :=
    (reads_body (P := P) f).enclosed (exists_cons_of_unslip (unslip_slip f.body)) h
  refine ⟨t', ht', hb, ?_⟩
  split at hs
  · rename_i hmem
    rw [if_pos hmem, hs]
  · rename_i hmem
    rw [if_neg hmem, hs]

theorem recv_frames {t : Port σ} (h : t.Waiting) (hmem : t.Ample) (fs : List Frame) :
    ∃ t', recv P t (fs.flatMap Frame.bytes) = some t' ∧ t'.Waiting ∧
      t'.s = (fs.map Frame.packet).foldl P.receive t.s := by
  induction fs generalizing t with
  | nil => exact ⟨t, by simp, h, rfl⟩
  | cons f fs ih =>
    obtain ⟨u, hu, hm, hs, hr⟩ := reads_body (P := P) f t h hmem.head
    obtain ⟨t', ht', hw, hs'⟩ := ih hu (hmem.of_tail hm)
    refine ⟨t', ?_, hw, ?_⟩
    · rw [List.flatMap_cons, bytes_append, recv_delim_waiting h, hr, ht']
    · rw [hs', hs]
      rfl

def recorder : Proto (List Packet) where
  rxseq := fun _ => 0
  outOfOrder := fun s _ => s
  complete := fun s p => s ++ [p]

def damaged : Frame := ⟨0, none, true, 14, [0x01], by decide⟩

/-- **Frames after noise.** From any state the receiver can be in, after any bytes and cut into
any chunks, frames are received in order, each as its packet. What the noise does to the driver
is done when the first delimiter is in. -/
theorem frames_received {t : Port σ} (hok : t.rx.Ok) (hmem : t.Ample) (noise : List Byte)
    (f : Frame) (fs : List Frame) (chunks : List (List Byte))
    (hchunks : chunks.flatten = noise ++ (f :: fs).flatMap Frame.bytes) :
    ∃ t0 t', recv P t (noise ++ [slipMsgdelim]) = some t0 ∧
      recvChunks P t chunks = some t' ∧ t'.Waiting ∧
      t'.s = ((f :: fs).map Frame.packet).foldl P.receive t0.s := by
  obtain ⟨u, _, huok, hua, hur⟩ := recv_append (P := P) hok hmem noise
  obtain ⟨t0, h0, hm0, hr0⟩ := recv_delim (P := P) huok
  obtain ⟨t', ht', hw, hs⟩ := recv_frames (P := P) h0 (hua.of_mem hm0) (f :: fs)
  refine ⟨t0, t', ?_, ?_, hw, hs⟩
  · rw [hur, hr0, recv_nil]
  · rw [recvChunks_flatten hok hmem, hchunks, hur, ← ht', List.flatMap_cons, bytes_append, hr0,
      recv_delim_waiting h0]

theorem frames_received_noise : ∃ t',
    recvChunks recorder ⟨Rx.init, [], []⟩ [[0x55, 0xc0, 0x01], damaged.bytes] = some t' ∧
      t'.s = [damaged.packet] := by
  have hnoise : (recv recorder ⟨Rx.init, [], []⟩ [0x55, 0xc0, 0x01, 0xc0]).map (·.s) = some [] := by
    decide +kernel
  obtain ⟨t0, t', h0, ht, -, hs⟩ := frames_received (P := recorder) (t := ⟨Rx.init, [], []⟩)
    Rx.ok_init (by simp [Port.Ample]) [0x55, 0xc0, 0x01] damaged []
    [[0x55, 0xc0, 0x01], damaged.bytes] rfl
  have hs0 : t0.s = [] := by
    have h0 : recv recorder ⟨Rx.init, [], []⟩ [0x55, 0xc0, 0x01, 0xc0] = some t0 := h0
    rw [h0] at hnoise
    exact Option.some.inj hnoise
  refine ⟨t', ht, ?_⟩
  rw [hs, hs0]
  rfl

end Bluetooth.H5
