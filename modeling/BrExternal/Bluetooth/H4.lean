import BrExternal.Bluetooth.Frame
import BrExternal.Lib.Chunks

/-!
# The H4 transport

`h4_recv` takes HCI packets from a stream in which each stands behind a byte for its type, whatever
chunks the stream comes in. The room a fresh buffer has is `cap`. `recv` is `none` when a buffer is
used that is not there or does not have the room. What `h4_recv` returns is left out: the line
discipline does not look at it.
-/

namespace Bluetooth.H4

/-- The packets `h4_recv` takes. `h4_enqueue` sends commands as well, which it does not. -/
inductive PktType where
  | acl
  | sco
  | event
  deriving DecidableEq

def PktType.byte : PktType → Byte
  | .acl => 0x02
  | .sco => 0x03
  | .event => 0x04

def PktType.hdrSize : PktType → Nat
  | .acl => 4
  | .sco => 3
  | .event => 2

/-- The length a header announces. -/
def PktType.dlen : PktType → List Byte → Nat
  | .acl, d => (H5.be16 (d.getD 3 0) (d.getD 2 0)).toNat
  | .sco, d => (d.getD 2 0).toNat
  | .event, d => (d.getD 1 0).toNat

/-- The switch on the first byte. -/
def typeOf (b : Byte) : Option PktType :=
  match b with
  | 0x04#8 => some .event
  | 0x02#8 => some .acl
  | 0x03#8 => some .sco
  | _ => none

inductive RxState where
  | packetType
  | hdr (t : PktType)
  | data
  deriving DecidableEq

/-- `rx_skb`: its type and what was put into it. -/
structure Skb where
  type : PktType
  data : List Byte
  deriving DecidableEq

/-- `h4_struct` with what was passed up, the count of unknown types and the outcomes of the next
allocations, all good when the list has ended. -/
structure H4Struct where
  rxState : RxState
  rxCount : Nat
  rxSkb : Option Skb
  received : List Skb
  errRx : Nat
  mem : List Bool
  deriving DecidableEq

namespace H4Struct

def init (mem : List Bool) : H4Struct := ⟨.packetType, 0, none, [], 0, mem⟩

def reset (h : H4Struct) : H4Struct :=
  { h with rxState := .packetType, rxCount := 0, rxSkb := none }

def recvFrame (h : H4Struct) (skb : Skb) : H4Struct :=
  { h.reset with received := h.received ++ [skb] }

def checkDataLen (cap : Nat) (h : H4Struct) (skb : Skb) (len : Nat) : H4Struct :=
  if len = 0 then h.recvFrame skb
  else if cap - skb.data.length < len then h.reset
  else { h with rxState := .data, rxCount := len }

/-- The switch on the state when all bytes that were waited for are there. -/
def complete (cap : Nat) (h : H4Struct) (skb : Skb) : Option H4Struct :=
  match h.rxState with
  | .data => some (h.recvFrame skb)
  | .hdr t => some (checkDataLen cap h skb (t.dlen skb.data))
  | .packetType => none

/-- A packet starts. `none` when there is no memory: the chunk is given up. -/
def alloc (h : H4Struct) (t : PktType) : Option H4Struct :=
  match h.mem with
  | false :: _ => none
  | m => some { h with
      rxState := .hdr t, rxCount := t.hdrSize, rxSkb := some ⟨t, []⟩, mem := m.tail }

def fill (h : H4Struct) (skb : Skb) (bytes : List Byte) : H4Struct :=
  { h with rxCount := h.rxCount - bytes.length, rxSkb := some ⟨skb.type, skb.data ++ bytes⟩ }

end H4Struct

/-- `h4_enqueue`: the bytes that go out for a packet. -/
def enqueue (skb : Skb) : List Byte := skb.type.byte :: skb.data

def recv (cap : Nat) (h : H4Struct) : List Byte → Option H4Struct
  | [] => some h
  | b :: rest =>
    if h.rxCount ≠ 0 then
      let len := min h.rxCount (b :: rest).length
      match h.rxSkb with
      | none => none
      | some skb =>
        if cap < skb.data.length + len then none
        else
          let chunk := (b :: rest).take len
          if (h.fill skb chunk).rxCount ≠ 0 then recv cap (h.fill skb chunk) ((b :: rest).drop len)
          else
            match (h.fill skb chunk).complete cap ⟨skb.type, skb.data ++ chunk⟩ with
            | none => none
            | some h => recv cap h ((b :: rest).drop len)
    else
      match typeOf b with
      | none => recv cap { h with errRx := h.errRx + 1 } rest
      | some t =>
        match h.alloc t with
        | none => some { h.reset with mem := h.mem.tail }
        | some h => recv cap h rest
termination_by bytes => bytes.length
decreasing_by
  all_goals simp only [List.length_drop, List.length_cons]
  all_goals omega

def recvChunks (cap : Nat) (h : H4Struct) (chunks : List (List Byte)) : Option H4Struct :=
  chunks.foldlM (recv cap) h

/-- What holds between two bytes: the bytes waited for fit the buffer. -/
def H4Struct.Ok (cap : Nat) (h : H4Struct) : Prop :=
  match h.rxState with
  | .packetType => h.rxCount = 0 ∧ h.rxSkb = none
  | .hdr t => 0 < h.rxCount ∧ ∃ skb, h.rxSkb = some skb ∧ skb.data.length + h.rxCount = t.hdrSize
  | .data => 0 < h.rxCount ∧ ∃ skb, h.rxSkb = some skb ∧ skb.data.length + h.rxCount ≤ cap

theorem PktType.hdrSize_pos (t : PktType) : 0 < t.hdrSize := by cases t <;> decide

theorem PktType.hdrSize_le (t : PktType) : t.hdrSize ≤ 4 := by cases t <;> decide

theorem typeOf_byte (t : PktType) : typeOf t.byte = some t := by cases t <;> rfl

section

variable {cap : Nat} {s : H4Struct} {skb : Skb} {bytes : List Byte}

/-! ## What one round of the loop does -/

theorem recv_nil : recv cap s [] = some s := by rw [recv]

theorem H4Struct.fill_nil (hs : s.rxSkb = some skb) : s.fill skb [] = s := by
  cases s
  cases hs
  simp [fill]

theorem H4Struct.fill_append (a b : List Byte) :
    (s.fill skb a).fill ⟨skb.type, skb.data ++ a⟩ b = s.fill skb (a ++ b) := by
  simp [fill, Nat.sub_add_eq]

/-- Bytes that do not complete what is waited for are put away. -/
theorem recv_short (hs : s.rxSkb = some skb) (hlt : bytes.length < s.rxCount)
    (hcap : skb.data.length + s.rxCount ≤ cap) : recv cap s bytes = some (s.fill skb bytes) := by
  cases bytes with
  | nil => rw [recv_nil, s.fill_nil hs]
  | cons b rest =>
    have hmin : min s.rxCount (b :: rest).length = (b :: rest).length :=
      Nat.min_eq_right (Nat.le_of_lt hlt)
    rw [recv, if_pos (by omega), hs]
    dsimp only
    rw [hmin, if_neg (by omega), List.take_length, List.drop_length, recv_nil, if_pos]
    show s.rxCount - (b :: rest).length ≠ 0
    omega

/-- Bytes that complete it are taken, and the rest goes on from there. -/
theorem recv_full (hs : s.rxSkb = some skb) (hpos : s.rxCount ≠ 0) (hle : s.rxCount ≤ bytes.length)
    (hcap : skb.data.length + s.rxCount ≤ cap) :
    recv cap s bytes =
      ((s.fill skb (bytes.take s.rxCount)).complete cap
        ⟨skb.type, skb.data ++ bytes.take s.rxCount⟩).bind (recv cap · (bytes.drop s.rxCount)) := by
  cases bytes with
  | nil => exact absurd hle (by rw [List.length_nil]; omega)
  | cons b rest =>
    have hmin : min s.rxCount (b :: rest).length = s.rxCount := Nat.min_eq_left hle
    have hzero : (s.fill skb ((b :: rest).take s.rxCount)).rxCount = 0 := by
      show s.rxCount - ((b :: rest).take s.rxCount).length = 0
      rw [List.length_take_of_le hle, Nat.sub_self]
    rw [recv, if_pos (by omega), hs]
    dsimp only
    rw [hmin, if_neg (by omega), if_neg (not_not.2 hzero)]
    cases (s.fill skb ((b :: rest).take s.rxCount)).complete cap
      ⟨skb.type, skb.data ++ (b :: rest).take s.rxCount⟩ <;> rfl

/-! ## Memory safety -/

namespace H4Struct

theorem ok_reset (s : H4Struct) : s.reset.Ok cap := ⟨rfl, rfl⟩

theorem ok_recvFrame (s : H4Struct) (skb : Skb) : (s.recvFrame skb).Ok cap := ⟨rfl, rfl⟩

theorem Ok.live (hcap : 4 ≤ cap) (h : s.Ok cap) (hc : s.rxCount ≠ 0) :
    ∃ skb, s.rxSkb = some skb ∧ skb.data.length + s.rxCount ≤ cap := by
  unfold Ok at h
  split at h
  next => exact absurd h.1 hc
  next t _ =>
    obtain ⟨-, skb, hs, hlen⟩ := h
    have := t.hdrSize_le
    exact ⟨skb, hs, by omega⟩
  next => exact h.2

theorem Ok.alloc {t : PktType} {s' : H4Struct} (h : s.alloc t = some s') :
    s'.Ok cap ∧ (s.mem = [] → s'.mem = []) := by
  unfold H4Struct.alloc at h
  split at h
  · cases h
  · cases h
    exact ⟨⟨t.hdrSize_pos, ⟨t, []⟩, rfl, Nat.zero_add _⟩, fun hm => by rw [hm]; rfl⟩

theorem Ok.fill (h : s.Ok cap) (hs : s.rxSkb = some skb) (hlt : bytes.length < s.rxCount) :
    (s.fill skb bytes).Ok cap := by
  have hpos : 0 < s.rxCount - bytes.length := by omega
  have hlen : (skb.data ++ bytes).length + (s.rxCount - bytes.length) =
      skb.data.length + s.rxCount := by
    rw [List.length_append]
    omega
  unfold Ok at h ⊢
  dsimp only [H4Struct.fill]
  split at h
  next => omega
  next =>
    obtain ⟨-, skb', hs', h⟩ := h
    cases hs.symm.trans hs'
    exact ⟨hpos, _, rfl, hlen.trans h⟩
  next =>
    obtain ⟨-, skb', hs', h⟩ := h
    cases hs.symm.trans hs'
    exact ⟨hpos, _, rfl, Nat.le_trans (Nat.le_of_eq hlen) h⟩

theorem mem_checkDataLen {len : Nat} : (checkDataLen cap s skb len).mem = s.mem := by
  unfold checkDataLen
  split
  · rfl
  split <;> rfl

theorem ok_checkDataLen {len : Nat} (hs : s.rxSkb = some skb) (hd : skb.data.length ≤ cap) :
    (checkDataLen cap s skb len).Ok cap := by
  unfold checkDataLen
  split
  · exact ok_recvFrame s skb
  split
  · exact ok_reset s
  · refine ⟨by dsimp only; omega, skb, hs, ?_⟩
    dsimp only
    omega

theorem Ok.complete (hcap : 4 ≤ cap) (h : s.Ok cap) (hs : s.rxSkb = some skb)
    (hc : bytes.length = s.rxCount) (hpos : s.rxCount ≠ 0) :
    ∃ s', (s.fill skb bytes).complete cap ⟨skb.type, skb.data ++ bytes⟩ = some s' ∧
      s'.Ok cap ∧ s'.mem = s.mem := by
  obtain ⟨skb', hs', hlen⟩ := h.live hcap hpos
  cases hs.symm.trans hs'
  unfold H4Struct.complete
  cases hst : (s.fill skb bytes).rxState with
  | packetType =>
    have hst : s.rxState = .packetType := hst
    rw [Ok, hst] at h
    exact absurd h.1 hpos
  | hdr t =>
    have hd : (skb.data ++ bytes).length ≤ cap := by
      rw [List.length_append]
      omega
    exact ⟨_, rfl, ok_checkDataLen rfl hd, mem_checkDataLen⟩
  | data => exact ⟨_, rfl, ok_recvFrame _ _, rfl⟩

end H4Struct

open H4Struct

/-- One chunk is received without a memory error, whatever its bytes are and whichever
allocations fail. -/
theorem recv_ok (hcap : 4 ≤ cap) (h : s.Ok cap) (bytes : List Byte) :
    ∃ s', recv cap s bytes = some s' ∧ s'.Ok cap ∧ (s.mem = [] → s'.mem = []) := by
  induction hn : bytes.length using Nat.strong_induction_on generalizing s bytes with
  | _ n ih =>
  subst hn
  by_cases hc : s.rxCount = 0
  · cases bytes with
    | nil => exact ⟨s, recv_nil, h, id⟩
    | cons b rest =>
      rw [recv, if_neg (not_not.2 hc)]
      split
      · exact ih rest.length (by simp) (s := { s with errRx := s.errRx + 1 }) h rest rfl
      split
      · exact ⟨_, rfl, ⟨rfl, rfl⟩, fun hm => by rw [hm]; rfl⟩
      next ha =>
        obtain ⟨hok, hmem⟩ : Ok cap _ ∧ _ := Ok.alloc ha
        obtain ⟨s', hs', hok', hmem'⟩ := ih rest.length (by simp) hok rest rfl
        exact ⟨s', hs', hok', hmem' ∘ hmem⟩
  obtain ⟨skb, hs, hroom⟩ := h.live hcap hc
  by_cases hlt : bytes.length < s.rxCount
  · exact ⟨_, recv_short hs hlt hroom, h.fill hs hlt, id⟩
  have hle : s.rxCount ≤ bytes.length := Nat.le_of_not_lt hlt
  obtain ⟨s1, h1, hok, hmem⟩ := h.complete hcap hs (List.length_take_of_le hle) hc
  rw [recv_full hs hc hle hroom, h1, ← hmem]
  exact ih _ (by rw [List.length_drop]; omega) hok _ rfl

/-! ## Chunks -/

theorem alloc_eq_some (hm : s.mem = []) (t : PktType) :
    s.alloc t =
      some { s with rxState := .hdr t, rxCount := t.hdrSize, rxSkb := some ⟨t, []⟩ } := by
  cases s
  cases hm
  rfl

/-- Where the stream is cut makes no difference. -/
theorem recv_append (hcap : 4 ≤ cap) (h : s.Ok cap) (hm : s.mem = []) (a b : List Byte) :
    recv cap s (a ++ b) = (recv cap s a).bind (recv cap · b) := by
  induction hn : a.length using Nat.strong_induction_on generalizing s a with
  | _ n ih =>
  subst hn
  by_cases hc : s.rxCount = 0
  · cases a with
    | nil =>
      rw [recv_nil]
      rfl
    | cons x rest =>
      rw [List.cons_append, recv, recv, if_neg (not_not.2 hc), if_neg (not_not.2 hc)]
      cases typeOf x with
      | none => exact ih rest.length (by simp) (s := { s with errRx := s.errRx + 1 }) h hm rest rfl
      | some t =>
        have ha := alloc_eq_some hm t
        dsimp only
        rw [ha]
        exact ih rest.length (by simp) (Ok.alloc ha).1 hm rest rfl
  obtain ⟨skb, hs, hroom⟩ := h.live hcap hc
  by_cases hlt : a.length < s.rxCount
  · -- `a` is put away, and `b` goes on with the same packet
    have hroom' : (skb.data ++ a).length + (s.fill skb a).rxCount ≤ cap := by
      rw [List.length_append]
      show _ + (s.rxCount - a.length) ≤ cap
      omega
    rw [recv_short hs hlt hroom, Option.bind_some]
    by_cases hlt' : (a ++ b).length < s.rxCount
    · have hb : b.length < (s.fill skb a).rxCount := by
        rw [List.length_append] at hlt'
        exact Nat.lt_sub_of_add_lt (by omega)
      rw [recv_short hs hlt' hroom, recv_short rfl hb hroom', fill_append]
    · have hb : (s.fill skb a).rxCount ≤ b.length := by
        rw [List.length_append] at hlt'
        exact Nat.sub_le_of_le_add (by omega)
      have hpos : (s.fill skb a).rxCount ≠ 0 := Nat.sub_ne_zero_of_lt hlt
      rw [recv_full hs hc (Nat.le_of_not_lt hlt') hroom, recv_full rfl hpos hb hroom', fill_append,
        List.take_append, List.take_of_length_le (Nat.le_of_lt hlt), List.drop_append,
        List.drop_of_length_le (Nat.le_of_lt hlt), List.append_assoc]
      rfl
  · have hle : s.rxCount ≤ a.length := Nat.le_of_not_lt hlt
    obtain ⟨s1, h1, hok, hmem⟩ := h.complete hcap hs (List.length_take_of_le hle) hc
    rw [recv_full hs hc (by rw [List.length_append]; omega) hroom, recv_full hs hc hle hroom,
      List.take_append_of_le_length hle, List.drop_append_of_le_length hle, h1]
    exact ih _ (by rw [List.length_drop]; omega) hok (hmem.trans hm) _ rfl

theorem recvChunks_flatten (hcap : 4 ≤ cap) (h : s.Ok cap) (hm : s.mem = [])
    (chunks : List (List Byte)) : recvChunks cap s chunks = recv cap s chunks.flatten := by
  have hcut : ∀ s c, s.Ok cap ∧ s.mem = [] → ∃ s', recv cap s c = some s' ∧
      (s'.Ok cap ∧ s'.mem = []) ∧ ∀ rest, recv cap s (c ++ rest) = recv cap s' rest := by
    intro s c ⟨h, hm⟩
    obtain ⟨s', hs', hok, hmem⟩ := recv_ok hcap h c
    refine ⟨s', hs', ⟨hok, hmem hm⟩, fun rest => ?_⟩
    rw [recv_append hcap h hm, hs', Option.bind_some]
  exact Chunks.foldlM_flatten (fun _ => recv_nil) hcut ⟨h, hm⟩ chunks

/-! ## Packets -/

/-- Between two packets, with memory for all that follow. -/
def H4Struct.Idle (h : H4Struct) : Prop :=
  h.rxState = .packetType ∧ h.rxCount = 0 ∧ h.rxSkb = none ∧ h.mem = []

theorem H4Struct.Idle.ok (h : s.Idle) : s.Ok cap := by
  rw [Ok, h.1]
  exact ⟨h.2.1, h.2.2.1⟩

theorem H4Struct.Idle.reset (h : s.Idle) : s.reset = s := by
  obtain ⟨hst, hc, hs, -⟩ := h
  cases s
  cases hst
  cases hc
  cases hs
  rfl

theorem recv_header (hcap : 4 ≤ cap) (h : s.Idle) {t : PktType} {hdr : List Byte}
    (hh : hdr.length = t.hdrSize) (rest : List Byte) :
    recv cap s (t.byte :: (hdr ++ rest)) =
      recv cap (checkDataLen cap { s with rxState := .hdr t, rxCount := 0, rxSkb := some ⟨t, hdr⟩ }
        ⟨t, hdr⟩ (t.dlen hdr)) rest := by
  have hpos := t.hdrSize_pos
  have hle := t.hdrSize_le
  rw [recv, if_neg (not_not.2 h.2.1), typeOf_byte]
  dsimp only
  rw [alloc_eq_some h.2.2.2]
  dsimp only
  rw [@recv_full cap _ ⟨t, []⟩ _ rfl (Nat.ne_of_gt hpos)
    (by dsimp only; rw [List.length_append]; omega) (by dsimp only [List.length_nil]; omega)]
  dsimp only
  rw [← hh, List.take_left, List.drop_left]
  simp [complete, fill]

/-- The header is there and announces what follows it, and the packet fits the buffer. -/
def Skb.WellFormed (cap : Nat) (skb : Skb) : Prop :=
  skb.type.hdrSize ≤ skb.data.length ∧
    skb.type.dlen (skb.data.take skb.type.hdrSize) = skb.data.length - skb.type.hdrSize ∧
    skb.data.length ≤ cap

instance (cap : Nat) (skb : Skb) : Decidable (skb.WellFormed cap) :=
  inferInstanceAs (Decidable (_ ∧ _ ∧ _))

theorem recv_enqueue (hcap : 4 ≤ cap) (h : s.Idle) (hw : skb.WellFormed cap) :
    recv cap s (enqueue skb) = some { s with received := s.received ++ [skb] } := by
  obtain ⟨t, d⟩ := skb
  obtain ⟨hlen, hd, hroom⟩ := hw
  dsimp only at hlen hd hroom
  have hh : (d.take t.hdrSize).length = t.hdrSize := List.length_take_of_le hlen
  have hframe : s.recvFrame ⟨t, d⟩ = { s with received := s.received ++ [(⟨t, d⟩ : Skb)] } := by
    rw [recvFrame, h.reset]
  have hsplit : enqueue ⟨t, d⟩ = t.byte :: (d.take t.hdrSize ++ d.drop t.hdrSize) := by
    rw [List.take_append_drop]
    rfl
  rw [hsplit, recv_header hcap h hh, hd, checkDataLen]
  split
  next h0 =>
    have hall : d.length ≤ t.hdrSize := by omega
    rw [List.drop_of_length_le hall, recv_nil, List.take_of_length_le hall, ← hframe]
    rfl
  next h0 =>
    rw [if_neg (by dsimp only; rw [hh]; omega), @recv_full cap _ ⟨t, d.take t.hdrSize⟩ _ rfl h0
      (by rw [List.length_drop]) (by dsimp only; rw [hh]; omega)]
    dsimp only
    rw [← List.length_drop, List.take_length, List.drop_length, List.take_append_drop, ← hframe]
    exact recv_nil

theorem recv_enqueues (hcap : 4 ≤ cap) (h : s.Idle) {skbs : List Skb}
    (hw : ∀ skb ∈ skbs, skb.WellFormed cap) :
    recv cap s (skbs.flatMap enqueue) = some { s with received := s.received ++ skbs } := by
  induction skbs generalizing s with
  | nil =>
    rw [List.append_nil]
    exact recv_nil
  | cons skb skbs ih =>
    have hfirst := recv_enqueue hcap h (hw skb List.mem_cons_self)
    have hnext := ih (s := { s with received := s.received ++ [skb] }) h
      fun skb' hmem => hw skb' (List.mem_cons_of_mem _ hmem)
    rw [List.flatMap_cons, recv_append hcap h.ok h.2.2.2, hfirst, Option.bind_some, hnext,
      List.append_assoc]
    rfl

end

open H4Struct

theorem idle_init : (init []).Idle := ⟨rfl, rfl, rfl, rfl⟩

/-- **Memory safety.** Whatever arrives, in whatever chunks and with whatever allocations failing,
no buffer is used that is not there and none overflows. -/
theorem h4_memory_safe {cap : Nat} (hcap : 4 ≤ cap) (mem : List Bool) (chunks : List (List Byte)) :
    ∃ s, recvChunks cap (init mem) chunks = some s ∧ s.Ok cap := by
  have hchunk : ∀ s c, s.Ok cap → ∃ s', recv cap s c = some s' ∧ s'.Ok cap := by
    intro s c h
    obtain ⟨s', hs', hok, -⟩ := recv_ok hcap h c
    exact ⟨s', hs', hok⟩
  exact Chunks.foldlM_ok hchunk (s := init mem) ⟨rfl, rfl⟩ chunks

theorem h4_memory_safe_cut :
    4 ≤ 8 ∧ ∃ s, recvChunks 8 (init [false]) [[0x04, 0x0e], [0x04, 0x0e], [0x01]] = some s ∧
      s.Ok 8 :=
  ⟨by decide, h4_memory_safe (by decide) _ _⟩

/-- **Round trip.** The packets one side enqueues are the packets the other side passes up, in
order, however the line cuts the stream. -/
theorem h4_packets_received {cap : Nat} (hcap : 4 ≤ cap) {skbs : List Skb}
    (hw : ∀ skb ∈ skbs, skb.WellFormed cap) {chunks : List (List Byte)}
    (hc : chunks.flatten = skbs.flatMap enqueue) :
    recvChunks cap (init []) chunks = some { init [] with received := skbs } := by
  rw [recvChunks_flatten hcap idle_init.ok rfl, hc, recv_enqueues hcap idle_init hw]
  rfl

theorem h4_packets_received_cut :
    recvChunks 8 (init []) [[0x04, 0x0e], [0x01, 0x05, 0x03], [0x01, 0x00, 0x00]] =
      some { init [] with
        received := [⟨.event, [0x0e, 0x01, 0x05]⟩, ⟨.sco, [0x01, 0x00, 0x00]⟩] } :=
  h4_packets_received (by decide) (by decide) (by decide)

/-- **Packets that do not fit.** Only the header of such a packet is dropped: what it carries is
read as packets of the controller. -/
theorem h4_oversize_payload_read {cap : Nat} (hcap : 4 ≤ cap) {s : H4Struct} (h : s.Idle)
    {t : PktType} {hdr : List Byte} (hh : hdr.length = t.hdrSize)
    (hd : cap < t.hdrSize + t.dlen hdr) (payload : List Byte) :
    recv cap s (t.byte :: (hdr ++ payload)) = recv cap s payload := by
  have hle := t.hdrSize_le
  rw [recv_header hcap h hh, checkDataLen, if_neg (by omega), if_pos (by dsimp only; omega)]
  show recv cap s.reset payload = _
  rw [h.reset]

theorem h4_oversize_payload_read_event :
    recv 8 (init []) (PktType.acl.byte ::
        ([0x01, 0x00, 0x05, 0x00] ++ enqueue ⟨.event, [0x0e, 0x02, 0x05, 0x06]⟩)) =
      some { init [] with received := [⟨.event, [0x0e, 0x02, 0x05, 0x06]⟩] } :=
  (h4_oversize_payload_read (by decide) idle_init (by decide) (by decide) _).trans
    (recv_enqueue (by decide) idle_init (by decide))

end Bluetooth.H4
