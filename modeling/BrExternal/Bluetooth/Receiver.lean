import BrExternal.Bluetooth.Frame
import BrExternal.Lib.Chunks

/-!
# The H5 receiver

`h5_recv` takes the bytes of the line in chunks of any size. It exists twice, in the kernel driver
(`hci_rtk_h5.c`) and in the tool that loads the firmware (`hciattach_rtk.c`). Both run the loop
below and differ in what they do with a packet, which is the parameter `Proto`. The packet buffer
is a pointer that can be null, dangling or live, and every access to it that the source makes is
checked, so `none` stands for a memory error.
-/

namespace Bluetooth.H5

inductive RxState where
  | pktDelimiter
  | pktStart
  | hdr
  | data
  | crc
  deriving DecidableEq, Repr

inductive EscState where
  | noEsc
  | esc
  deriving DecidableEq, Repr

inductive RxSkb where
  | null
  | freed
  | live (data : List Byte)
  deriving DecidableEq, Repr

namespace RxSkb

/-- `skb_put` of one byte into a buffer of `0x1005` bytes. -/
def put : RxSkb → Byte → Option RxSkb
  | .live d, c => if d.length < 0x1005 then some (.live (d ++ [c])) else none
  | _, _ => none

/-- `kfree_skb`. -/
def free : RxSkb → Option RxSkb
  | .null => some .null
  | .freed => none
  | .live _ => some .freed

end RxSkb

/-- The receive fields of `h5_struct`. -/
structure Rx where
  count : Nat
  skb : RxSkb
  state : RxState
  esc : EscState
  messageCrc : BitVec 16
  deriving DecidableEq, Repr

/-- A packet with its header, without CRC. -/
structure Packet where
  b0 : Byte
  b1 : Byte
  b2 : Byte
  b3 : Byte
  payload : List Byte
  deriving DecidableEq, Repr

/-- What the two copies of the receiver do differently. -/
structure Proto (σ : Type) where
  /-- `rxseq_txack`, the sequence number expected next. -/
  rxseq : σ → Fin 8
  /-- A reliable packet with another number; the argument is its `hdr[0]`. -/
  outOfOrder : σ → Byte → σ
  /-- `h5_complete_rx_pkt`. -/
  complete : σ → Packet → σ

/-- The receiver and the driver behind it. `mem` answers the next allocations; when it runs out
they succeed. -/
structure Port (σ : Type) where
  rx : Rx
  mem : List Bool
  s : σ

/-! ## The loop -/

namespace Rx

def store (r : Rx) (c : Byte) : Option Rx :=
  match r.skb.put c with
  | some (.live (b0 :: d)) =>
    some { r with
      skb := .live (b0 :: d)
      messageCrc := if hasCrc b0 && r.state != .crc then crcUpdate r.messageCrc c
        else r.messageCrc
      count := r.count - 1 }
  | _ => none

/-- What the byte after `0xdb` stands for. -/
def unescape (b : Byte) : Option Byte :=
  if b = 0xdc#8 then some 0xc0#8
  else if b = 0xdd#8 then some 0xdb#8
  else if b = 0xde#8 then some 0x11#8
  else if b = 0xdf#8 then some 0x13#8
  else none

def unslipOneByte (r : Rx) (b : Byte) : Option Rx :=
  match r.esc with
  | .noEsc => if b = 0xdb#8 then some { r with esc := .esc } else r.store b
  | .esc =>
    match unescape b with
    | some c => (r.store c).map fun r => { r with esc := .noEsc }
    | none =>
      r.skb.free.map fun _ => { r with skb := .null, state := .pktDelimiter, count := 0 }

/-- `kfree_skb` and back to waiting, after a packet that is not taken. -/
def discard (r : Rx) (st : RxState) : Option Rx :=
  r.skb.free.map fun skb => { r with skb := skb, state := st, count := 0 }

/-- The fields `h5_recv` sets up for a packet, before it allocates the buffer. -/
def start (r : Rx) : Rx :=
  { r with state := .hdr, count := 4, esc := .noEsc, messageCrc := crcInit }

end Rx

def Packet.ofData : List Byte → Option Packet
  | b0 :: b1 :: b2 :: b3 :: payload => some ⟨b0, b1, b2, b3, payload⟩
  | _ => none

def bscpGetCrc (d : List Byte) : BitVec 16 :=
  be16 (d.getD (d.length - 2) 0) (d.getD (d.length - 1) 0)

/-- How one pass of the loop ends: with a memory error, with the return after a failed
allocation, with the byte taken, or with the byte still to be looked at. -/
inductive Pass (σ : Type) where
  | fault
  | stop (t : Port σ)
  | next (t : Port σ)
  | again (t : Port σ)

namespace Pass

variable {σ : Type}

def ofNext (t : Port σ) : Option Rx → Pass σ
  | none => .fault
  | some r => .next { t with rx := r }

def ofAgain (t : Port σ) : Option Rx → Pass σ
  | none => .fault
  | some r => .again { t with rx := r }

end Pass

section Loop

variable {σ : Type} (P : Proto σ)

/-- `h5_complete_rx_pkt` hands the buffer on or frees it, and forgets it. -/
def complete (t : Port σ) (p : Packet) : Port σ :=
  { t with rx := { t.rx with skb := .null, state := .pktDelimiter }, s := P.complete t.s p }

def passHdr (t : Port σ) (p : Packet) : Pass σ :=
  if ~~~(p.b0 + p.b1 + p.b2) ≠ p.b3 then .ofAgain t (t.rx.discard .pktDelimiter)
  else if reliable p.b0 && seqOf p.b0 != P.rxseq t.s then
    .ofAgain { t with s := P.outOfOrder t.s p.b0 } (t.rx.discard .pktDelimiter)
  else .again { t with rx := { t.rx with state := .data, count := lenOf p.b1 p.b2 } }

def passData (t : Port σ) (p : Packet) : Pass σ :=
  if hasCrc p.b0 then .again { t with rx := { t.rx with state := .crc, count := 2 } }
  else .again (complete P t p)

def passCrc (t : Port σ) (d : List Byte) : Pass σ :=
  if bitrev16 t.rx.messageCrc ≠ bscpGetCrc d then .ofAgain t (t.rx.discard .pktDelimiter)
  else match Packet.ofData (d.take (d.length - 2)) with
    | some p => .again (complete P t p)
    | none => .fault

def passStart (t : Port σ) (b : Byte) : Pass σ :=
  if b = 0xc0#8 then .next t
  else match t.mem with
    | false :: mem =>
      .stop { t with
        rx := { t.rx.start with skb := .null, state := .pktDelimiter, count := 0 }, mem := mem }
    | mem => .again { t with rx := { t.rx.start with skb := .live [] }, mem := mem.tail }

/-- One pass of `while (count)`. The cases of its `switch` with `rx_count` at zero are the
definitions above. -/
def pass (t : Port σ) (b : Byte) : Pass σ :=
  if t.rx.count ≠ 0 then
    if b = 0xc0#8 then .ofNext t (t.rx.discard .pktStart)
    else .ofNext t (t.rx.unslipOneByte b)
  else match t.rx.state, t.rx.skb with
    | .pktDelimiter, _ =>
      .next (if b = 0xc0#8 then { t with rx := { t.rx with state := .pktStart } } else t)
    | .pktStart, _ => passStart t b
    | .hdr, .live d =>
      match Packet.ofData d with
      | some p => passHdr P t p
      | none => .fault
    | .data, .live d =>
      match Packet.ofData d with
      | some p => passData P t p
      | none => .fault
    | .crc, .live d => passCrc P t d
    | _, _ => .fault

/-- How many passes a byte can still cost, less one. -/
def rank (r : Rx) : Nat :=
  if r.count ≠ 0 then 0
  else match r.state with
    | .pktDelimiter => 0
    | .pktStart => 1
    | .hdr => 3
    | .data => 2
    | .crc => 1

theorem rank_le (r : Rx) : rank r ≤ 3 := by
  unfold rank
  split
  · exact Nat.zero_le 3
  · split <;> simp

theorem passStart_again {t t' : Port σ} {b : Byte} (h : passStart t b = .again t') :
    t'.rx.count = 4 ∧ t'.rx.state = .hdr := by
  unfold passStart at h
  split at h
  · cases h
  split at h
  · cases h
  · cases h
    exact ⟨rfl, rfl⟩

theorem ofAgain_discard {t t' : Port σ} {r : Rx} {st : RxState}
    (h : Pass.ofAgain t (r.discard st) = .again t') : t'.rx.count = 0 ∧ t'.rx.state = st := by
  unfold Rx.discard at h
  cases hf : r.skb.free with
  | none => rw [hf] at h; cases h
  | some skb =>
    rw [hf] at h
    cases h
    exact ⟨rfl, rfl⟩

/-- A pass that leaves the byte makes progress in the state, so the loop ends. -/
theorem pass_again_rank {t t' : Port σ} {b : Byte} (h : pass P t b = .again t') :
    rank t'.rx < rank t.rx := by
  unfold pass at h
  split at h
  · split at h
    · unfold Pass.ofNext at h
      split at h <;> cases h
    · unfold Pass.ofNext at h
      split at h <;> cases h
  rename_i hc
  have hc : t.rx.count = 0 := not_not.1 hc
  split at h
  case h_1 => cases h
  case h_2 hst =>
    obtain ⟨h1, h2⟩ := passStart_again h
    simp [rank, h1, hc, hst]
  case h_3 d hst _ =>
    split at h
    · unfold passHdr at h
      split at h
      · obtain ⟨h1, h2⟩ := ofAgain_discard h
        simp [rank, h1, h2, hc, hst]
      split at h
      · obtain ⟨h1, h2⟩ := ofAgain_discard h
        simp [rank, h1, h2, hc, hst]
      · cases h
        simp only [rank, hc, hst]
        split <;> simp
    · cases h
  case h_4 d hst _ =>
    split at h
    · unfold passData at h
      split at h
      · cases h
        simp [rank, hc, hst]
      · cases h
        simp [rank, complete, hc, hst]
    · cases h
  case h_5 d hst _ =>
    unfold passCrc at h
    split at h
    · obtain ⟨h1, h2⟩ := ofAgain_discard h
      simp [rank, h1, h2, hc, hst]
    split at h
    · cases h
      simp [rank, complete, hc, hst]
    · cases h
  case h_6 => cases h

/-- `h5_recv`: the loop over the bytes of one chunk. -/
def recv (t : Port σ) : List Byte → Option (Port σ)
  | [] => some t
  | b :: bs =>
    match _hp : pass P t b with
    | .fault => none
    | .stop t' => some t'
    | .next t' => recv t' bs
    | .again t' => recv t' (b :: bs)
termination_by bs => 4 * bs.length + rank t.rx
decreasing_by
  · have := rank_le t'.rx
    rw [List.length_cons]
    omega
  · have := pass_again_rank P _hp
    omega

variable {P}

@[simp] theorem recv_nil (t : Port σ) : recv P t [] = some t := by
  rw [recv]

theorem recv_cons (t : Port σ) (b : Byte) (bs : List Byte) :
    recv P t (b :: bs) = match pass P t b with
      | .fault => none
      | .stop t' => some t'
      | .next t' => recv P t' bs
      | .again t' => recv P t' (b :: bs) := by
  rw [recv]
  split <;> simp_all

theorem recv_next {t t' : Port σ} {b : Byte} (h : pass P t b = .next t') (bs : List Byte) :
    recv P t (b :: bs) = recv P t' bs := by
  rw [recv_cons, h]

/-- A pass that does not look at the byte. -/
theorem recv_again {t t' : Port σ} {bs : List Byte} (h : ∀ b, pass P t b = .again t')
    (hbs : bs ≠ []) : recv P t bs = recv P t' bs := by
  obtain ⟨b, bs, rfl⟩ := List.exists_cons_of_ne_nil hbs
  rw [recv_cons, h b]

end Loop

/-! ## Memory safety

In a state that reads a packet the buffer is live, and what it holds and what is still to come add
up to the length the header gives. Between packets there is no live buffer, so none is lost. -/

/-- What `d` holds and `n` bytes still to come make a packet with `extra` bytes behind it. -/
def Partial (d : List Byte) (n extra : Nat) : Prop :=
  ∃ p, Packet.ofData d = some p ∧ d.length + n = 4 + lenOf p.b1 p.b2 + extra

namespace Rx

def Ok (r : Rx) : Prop :=
  match r.state with
  | .pktDelimiter | .pktStart => r.count = 0 ∧ ∀ d, r.skb ≠ .live d
  | .hdr => ∃ d, r.skb = .live d ∧ d.length + r.count = 4
  | .data => ∃ d, r.skb = .live d ∧ Partial d r.count 0
  | .crc => ∃ d, r.skb = .live d ∧ Partial d r.count 2

end Rx

theorem Packet.ofData_append {d : List Byte} {p : Packet} (h : ofData d = some p) (c : Byte) :
    ofData (d ++ [c]) = some { p with payload := p.payload ++ [c] } := by
  unfold ofData at h
  split at h
  · cases h
    rfl
  · cases h

theorem Packet.ofData_eq_some {d : List Byte} (h : 4 ≤ d.length) : ∃ p, ofData d = some p := by
  match d, h with
  | b0 :: b1 :: b2 :: b3 :: payload, _ => exact ⟨_, rfl⟩

theorem Partial.length_le {d : List Byte} {n extra : Nat} (h : Partial d n extra) :
    d.length + n ≤ 0x1003 + extra := by
  obtain ⟨p, _, hlen⟩ := h
  have := lenOf_le p.b1 p.b2
  omega

theorem Partial.append {d : List Byte} {n extra : Nat} (h : Partial d n extra) (hn : n ≠ 0)
    (c : Byte) : Partial (d ++ [c]) (n - 1) extra := by
  obtain ⟨p, hp, hlen⟩ := h
  refine ⟨_, Packet.ofData_append hp c, ?_⟩
  rw [List.length_append, List.length_singleton]
  show d.length + 1 + (n - 1) = 4 + lenOf p.b1 p.b2 + extra
  omega

namespace Rx

theorem Ok.live {r : Rx} (h : r.Ok) (hc : r.count ≠ 0) :
    ∃ d, r.skb = .live d ∧ d.length + r.count ≤ 0x1005 := by
  unfold Ok at h
  split at h
  case h_1 => exact absurd h.1 hc
  case h_2 => exact absurd h.1 hc
  case h_3 =>
    obtain ⟨d, hd, hlen⟩ := h
    exact ⟨d, hd, by omega⟩
  case h_4 =>
    obtain ⟨d, hd, hlen⟩ := h
    exact ⟨d, hd, by have := hlen.length_le; omega⟩
  case h_5 =>
    obtain ⟨d, hd, hlen⟩ := h
    exact ⟨d, hd, by have := hlen.length_le; omega⟩

theorem discard_live {r : Rx} {d : List Byte} (h : r.skb = .live d) (st : RxState) :
    r.discard st = some { r with skb := .freed, state := st, count := 0 } := by
  simp [discard, RxSkb.free, h]

theorem ok_discarded (r : Rx) {st : RxState} (hst : st = .pktDelimiter ∨ st = .pktStart) :
    Ok { r with skb := .freed, state := st, count := 0 } := by
  rcases hst with rfl | rfl <;> exact ⟨rfl, by simp⟩

theorem store_live {r : Rx} {d : List Byte} (h : r.skb = .live d) (hd : d.length < 0x1005)
    (c : Byte) : ∃ crc, r.store c =
      some { r with skb := .live (d ++ [c]), messageCrc := crc, count := r.count - 1 } := by
  unfold store
  rw [h, RxSkb.put, if_pos hd]
  cases d with
  | nil => exact ⟨_, rfl⟩
  | cons b0 d => exact ⟨_, rfl⟩

theorem ok_stored {r : Rx} {d : List Byte} (h : r.Ok) (hc : r.count ≠ 0) (hd : r.skb = .live d)
    (c : Byte) (e : EscState) (m : BitVec 16) :
    Ok { r with skb := .live (d ++ [c]), messageCrc := m, count := r.count - 1, esc := e } := by
  unfold Ok at h ⊢
  dsimp only
  split at h
  case h_1 => exact absurd h.1 hc
  case h_2 => exact absurd h.1 hc
  case h_3 =>
    obtain ⟨d', hd', hlen⟩ := h
    cases hd.symm.trans hd'
    refine ⟨_, rfl, ?_⟩
    rw [List.length_append, List.length_singleton]
    omega
  case h_4 =>
    obtain ⟨d', hd', hlen⟩ := h
    cases hd.symm.trans hd'
    exact ⟨_, rfl, hlen.append hc c⟩
  case h_5 =>
    obtain ⟨d', hd', hlen⟩ := h
    cases hd.symm.trans hd'
    exact ⟨_, rfl, hlen.append hc c⟩

theorem unslipOneByte_ok {r : Rx} (h : r.Ok) (hc : r.count ≠ 0) (b : Byte) :
    ∃ r', r.unslipOneByte b = some r' ∧ r'.Ok := by
  obtain ⟨d, hd, hlen⟩ := h.live hc
  have hstore := store_live hd (by omega)
  unfold unslipOneByte
  split
  · split
    · exact ⟨_, rfl, h⟩
    · obtain ⟨m, hm⟩ := hstore b
      exact ⟨_, hm, ok_stored h hc hd b r.esc m⟩
  · split
    · rename_i c _
      obtain ⟨m, hm⟩ := hstore c
      rw [hm]
      exact ⟨_, rfl, ok_stored h hc hd c .noEsc m⟩
    · rw [hd]
      exact ⟨_, rfl, rfl, by simp⟩

end Rx

/-- What a pass from `t` over the byte `b` can do: never a memory error; only the start of a
packet allocates; a delimiter is taken at the start of a packet, and never ends the loop. -/
def Pass.Spec {σ : Type} (t : Port σ) (b : Byte) : Pass σ → Prop
  | .fault => False
  | .stop t' => t'.rx.Ok ∧ t.mem = false :: t'.mem ∧ b ≠ slipMsgdelim ∧
    t'.rx.state = .pktDelimiter
  | .next t' => t'.rx.Ok ∧ t'.mem = t.mem ∧ (b = slipMsgdelim → t'.rx.state = .pktStart)
  | .again t' => t'.rx.Ok ∧ (t'.mem = t.mem ∨ b ≠ slipMsgdelim ∧ t'.mem = t.mem.tail)

section Safety

variable {σ : Type} {P : Proto σ} {t : Port σ}

theorem pass_spec (h : t.rx.Ok) (b : Byte) : (pass P t b).Spec t b := by
  unfold pass
  split
  · rename_i hc
    obtain ⟨d, hd, _⟩ := h.live hc
    split
    · rw [Rx.discard_live hd]
      exact ⟨Rx.ok_discarded _ (.inr rfl), rfl, fun _ => rfl⟩
    · rename_i hb
      obtain ⟨r, hr, hok⟩ := Rx.unslipOneByte_ok h hc b
      rw [hr]
      exact ⟨hok, rfl, fun hb' => absurd hb' hb⟩
  rename_i hc
  have hc : t.rx.count = 0 := not_not.1 hc
  have hok := h
  unfold Rx.Ok at h
  split at h <;> rename_i hst <;> rw [hst]
  case h_1 =>
    dsimp only
    split
    · exact ⟨⟨h.1, h.2⟩, rfl, fun _ => rfl⟩
    · rename_i hb
      exact ⟨hok, rfl, fun hb' => absurd hb' hb⟩
  case h_2 =>
    unfold passStart
    dsimp only
    split
    · exact ⟨hok, rfl, fun _ => hst⟩
    rename_i hb
    split
    · rename_i mem hmem
      exact ⟨⟨rfl, by simp⟩, hmem, hb, rfl⟩
    · exact ⟨⟨[], rfl, rfl⟩, .inr ⟨hb, rfl⟩⟩
  case h_3 =>
    obtain ⟨d, hd, hlen⟩ := h
    obtain ⟨p, hp⟩ := Packet.ofData_eq_some (d := d) (by omega)
    rw [hd]
    dsimp only
    rw [hp]
    dsimp only
    unfold passHdr
    rw [Rx.discard_live hd]
    split
    · exact ⟨Rx.ok_discarded _ (.inl rfl), .inl rfl⟩
    split
    · exact ⟨Rx.ok_discarded _ (.inl rfl), .inl rfl⟩
    · exact ⟨⟨d, hd, p, hp, by show d.length + lenOf p.b1 p.b2 = _; omega⟩, .inl rfl⟩
  case h_4 =>
    obtain ⟨d, hd, p, hp, hlen⟩ := h
    rw [hd]
    dsimp only
    rw [hp]
    dsimp only
    unfold passData
    split
    · exact ⟨⟨d, hd, p, hp, by show d.length + 2 = _; omega⟩, .inl rfl⟩
    · exact ⟨⟨hc, by simp [complete]⟩, .inl rfl⟩
  case h_5 =>
    obtain ⟨d, hd, p, hp, hlen⟩ := h
    obtain ⟨q, hq⟩ := Packet.ofData_eq_some (d := d.take (d.length - 2))
      (by rw [List.length_take]; omega)
    rw [hd]
    dsimp only
    unfold passCrc
    rw [Rx.discard_live hd, hq]
    split
    · exact ⟨Rx.ok_discarded _ (.inl rfl), .inl rfl⟩
    · exact ⟨⟨hc, by simp [complete]⟩, .inl rfl⟩

/-- One chunk is received without a memory error, whatever its bytes are and whichever
allocations fail. -/
theorem recv_ok (h : t.rx.Ok) (bs : List Byte) : ∃ t', recv P t bs = some t' ∧ t'.rx.Ok := by
  fun_induction recv P t bs with
  | case1 t => exact ⟨t, rfl, h⟩
  | case2 t b bs hp =>
    have := pass_spec (P := P) h b
    rw [hp] at this
    exact this.elim
  | case3 t b bs t' hp =>
    have := pass_spec (P := P) h b
    rw [hp] at this
    exact ⟨t', rfl, this.1⟩
  | case4 t b bs t' hp ih =>
    have := pass_spec (P := P) h b
    rw [hp] at this
    exact ih this.1
  | case5 t b bs t' hp ih =>
    have := pass_spec (P := P) h b
    rw [hp] at this
    exact ih this.1

/-- The state a pass ends in has `Q`. -/
def Pass.Keeps (Q : σ → Prop) : Pass σ → Prop
  | .fault => True
  | .stop t | .next t | .again t => Q t.s

theorem keeps_ofNext {Q : σ → Prop} (hQ : Q t.s) (r : Option Rx) : (Pass.ofNext t r).Keeps Q := by
  cases r with
  | none => trivial
  | some r => exact hQ

theorem keeps_ofAgain {Q : σ → Prop} (hQ : Q t.s) (r : Option Rx) :
    (Pass.ofAgain t r).Keeps Q := by
  cases r with
  | none => trivial
  | some r => exact hQ

section Keeps

variable {Q : σ → Prop} (hout : ∀ s b, Q s → Q (P.outOfOrder s b))
  (hcomplete : ∀ s p, Q s → Q (P.complete s p))

include hout hcomplete

theorem pass_keeps (hQ : Q t.s) (b : Byte) : (pass P t b).Keeps Q := by
  unfold pass
  split
  · split <;> exact keeps_ofNext hQ _
  split
  · split <;> exact hQ
  · unfold passStart
    split
    · exact hQ
    split <;> exact hQ
  · split
    · unfold passHdr
      split
      · exact keeps_ofAgain hQ _
      split
      · exact keeps_ofAgain (t := ⟨t.rx, t.mem, _⟩) (hout _ _ hQ) _
      · exact hQ
    · trivial
  · split
    · unfold passData
      split
      · exact hQ
      · exact hcomplete _ _ hQ
    · trivial
  · unfold passCrc
    split
    · exact keeps_ofAgain hQ _
    split
    · exact hcomplete _ _ hQ
    · trivial
  · trivial

/-- **Invariant rule.** What the driver keeps on every packet, every chunk keeps. -/
theorem recv_keeps {bs : List Byte} {t' : Port σ} (h : recv P t bs = some t') (hQ : Q t.s) :
    Q t'.s := by
  fun_induction recv P t bs with
  | case1 t => cases h; exact hQ
  | case2 t b bs hp => cases h
  | case3 t b bs u hp =>
    have := pass_keeps hout hcomplete hQ b
    rw [hp] at this
    cases h
    exact this
  | case4 t b bs u hp ih =>
    have := pass_keeps hout hcomplete hQ b
    rw [hp] at this
    exact ih h this
  | case5 t b bs u hp ih =>
    have := pass_keeps hout hcomplete hQ b
    rw [hp] at this
    exact ih h this

end Keeps

def recvChunks (P : Proto σ) (t : Port σ) (chunks : List (List Byte)) : Option (Port σ) :=
  chunks.foldlM (recv P) t

theorem recvChunks_ok (h : t.rx.Ok) (chunks : List (List Byte)) :
    ∃ t', recvChunks P t chunks = some t' ∧ t'.rx.Ok :=
  Chunks.foldlM_ok (fun _ c h => recv_ok h c) h chunks

end Safety

def Rx.init : Rx := ⟨0, .null, .pktDelimiter, .noEsc, 0⟩

theorem Rx.ok_init : Rx.init.Ok := ⟨rfl, by simp [Rx.init]⟩

/-- **Memory safety.** Whatever arrives, in whatever chunks and with whatever allocations failing:
no buffer is used when it is null or freed, none overflows or is freed twice, and between packets
none is left behind. -/
theorem recv_memory_safe {σ : Type} (P : Proto σ) (mem : List Bool) (s : σ)
    (chunks : List (List Byte)) :
    ∃ t, recvChunks P ⟨Rx.init, mem, s⟩ chunks = some t ∧
      (t.rx.state = .pktDelimiter ∨ t.rx.state = .pktStart → ∀ d, t.rx.skb ≠ .live d) := by
  obtain ⟨t, ht, hok⟩ := recvChunks_ok (P := P) (t := ⟨Rx.init, mem, s⟩) Rx.ok_init chunks
  refine ⟨t, ht, fun hst => ?_⟩
  unfold Rx.Ok at hok
  rcases hst with hst | hst <;> rw [hst] at hok <;> exact hok.2

end Bluetooth.H5
