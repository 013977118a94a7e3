import BrExternal.Bluetooth.Stream

/-!
# The H5 driver of the kernel

The send side of `hci_rtk_h5.c`, and what it does with a packet that was received. Reliable packets
wait in `rel`, go to `unack` when they are sent and leave it when the peer acknowledges them. At
most four of them are on the way, and `h5_timed_event` puts them all back. Functions have the names
of the source, without `h5_`.
-/

namespace Bluetooth.H5

inductive PktType where
  | command
  | acl
  | sco
  | event
  /-- `H5_ACK_PKT`. -/
  | ack
  /-- `H5_LE_PKT`. -/
  | le
  /-- `H5_VDRSPEC_PKT`. -/
  | vdrspec
  | other (n : Byte)
  deriving DecidableEq, Repr

structure Pkt where
  type : PktType
  data : List Byte
  deriving DecidableEq, Repr

structure TxPkt extends Pkt where
  short : data.length < 0x1000
  deriving DecidableEq

/-- The send fields of `h5_struct`. `retrans` is the pending bit of `retrans_work`; `firing` tells
that the work has started and has not taken the lock yet. `up` and `wakeups` record the calls of
`hci_recv_frame` and `hci_uart_tx_wakeup`. -/
structure Driver where
  unack : List TxPkt
  rel : List TxPkt
  unrel : List TxPkt
  useCrc : Bool
  rxack : Fin 8
  rxseqTxack : Fin 8
  txackReq : Bool
  msgqTxseq : Fin 8
  retrans : Bool
  firing : Bool
  up : List Pkt
  wakeups : Nat
  deriving DecidableEq

def h5Open (txcrc : Bool) : Driver := ⟨[], [], [], txcrc, 0, 0, false, 0, false, false, [], 0⟩

def txWinSize : Nat := 4

/-! ## Sending -/

namespace Driver

def enqueue (s : Driver) (p : Pkt) : Driver :=
  if h : p.data.length ≤ 0xFFF then
    let q : TxPkt := ⟨p, Nat.lt_succ_of_le h⟩
    match p.type with
    | .acl | .command => { s with rel := s.rel ++ [q] }
    | .sco => { s with unrel := s.unrel ++ [q] }
    | .le | .ack | .vdrspec => { s with unrel := s.unrel ++ [q] }
    | .event | .other _ => s
  else s

end Driver

/-- The packets `h5_enqueue` puts into `rel`. -/
def Pkt.Accepted (p : Pkt) : Prop := p.data.length ≤ 0xFFF ∧ (p.type = .acl ∨ p.type = .command)

instance (p : Pkt) : Decidable p.Accepted := inferInstanceAs (Decidable (_ ∧ _))

/-- The channel of a packet type, and whether it is reliable. -/
def channel : PktType → Option (Fin 16 × Bool)
  | .acl => some (2, true)
  | .command => some (1, true)
  | .event => some (4, true)
  | .sco => some (3, false)
  | .le => some (15, false)
  | .ack => some (0, false)
  | .vdrspec => some (14, false)
  | .other _ => none

namespace Driver

/-- `h5_prepare_pkt`, with the allocations still to come. -/
def preparePkt (s : Driver) (mem : List Bool) (p : TxPkt) :
    Option (Frame × Driver) × List Bool :=
  match channel p.type with
  | none => (none, mem)
  | some (chan, rel) =>
    if mem.headD true then
      (some ({ ack := s.rxseqTxack
               seq := if rel then some s.msgqTxseq else none
               crc := s.useCrc
               chan := chan
               data := p.data
               short := p.short },
             { s with
               txackReq := false
               msgqTxseq := if rel then s.msgqTxseq + 1 else s.msgqTxseq }), mem.tail)
    else (none, mem.tail)

def ackPkt : TxPkt := ⟨⟨.ack, []⟩, by decide⟩

/-- The end of `h5_dequeue`. -/
def dequeueAck (s : Driver) (mem : List Bool) : Option Frame × Driver :=
  if s.txackReq then
    match s.preparePkt mem ackPkt with
    | (some (f, s'), _) => (some f, s')
    | (none, _) => (none, s)
  else (none, s)

/-- The reliable part of `h5_dequeue`. -/
def dequeueRel (s : Driver) (mem : List Bool) : Option Frame × Driver :=
  if s.unack.length < txWinSize then
    match s.rel with
    | p :: rel =>
      match { s with rel := rel }.preparePkt mem p with
      | (some (f, s'), _) => (some f, { s' with unack := s'.unack ++ [p], retrans := true })
      | (none, mem) => s.dequeueAck mem
    | [] => s.dequeueAck mem
  else s.dequeueAck mem

/-- `h5_dequeue`. A packet that cannot be prepared goes back to the head of its queue. -/
def dequeue (s : Driver) (mem : List Bool) : Option Frame × Driver :=
  match s.unrel with
  | p :: unrel =>
    match { s with unrel := unrel }.preparePkt mem p with
    | (some (f, s'), _) => (some f, s')
    | (none, mem) => s.dequeueRel mem
  | [] => s.dequeueRel mem

/-! ## Acknowledgements -/

/-- The loop of `h5_pkt_cull`: how many packets to remove, and the number it stopped at. -/
def cullLoop (rxack : Fin 8) : Nat → Fin 8 → Nat × Fin 8
  | 0, seqno => (0, seqno)
  | n + 1, seqno => if rxack = seqno then (n + 1, seqno) else cullLoop rxack n (seqno - 1)

def pktCull (s : Driver) : Driver :=
  let unack := s.unack.drop (cullLoop s.rxack s.unack.length s.msgqTxseq).1
  { s with unack := unack, retrans := if unack.isEmpty then false else s.retrans }

/-- The packets `h5_complete_rx_pkt` passes up, by channel and reliability. -/
def passUp (b0 b1 : Byte) : Option PktType :=
  if chanOf b1 = 2 ∧ reliable b0 then some .acl
  else if chanOf b1 = 4 ∧ reliable b0 then some .event
  else if chanOf b1 = 3 then some .sco
  else if chanOf b1 = 15 ∧ ¬ reliable b0 then none
  else if chanOf b1 = 1 ∧ reliable b0 then some .command
  else if chanOf b1 = 14 then some .vdrspec
  else none

def completeRxPkt (s : Driver) (p : Packet) : Driver :=
  let s := if reliable p.b0 then { s with rxseqTxack := s.rxseqTxack + 1, txackReq := true } else s
  let s := { s with rxack := ackOf p.b0 }.pktCull
  let s := { s with wakeups := s.wakeups + 1 }
  match passUp p.b0 p.b1 with
  | some type => { s with up := s.up ++ [⟨type, p.payload⟩] }
  | none => s

/-- A reliable packet with the wrong number, in `h5_recv`. -/
def outOfOrder (s : Driver) (_b0 : Byte) : Driver :=
  { s with txackReq := true, wakeups := s.wakeups + 1 }

/-- The loop of `h5_timed_event`, over `unack` from its tail. -/
def timedLoop : List TxPkt → Driver → Driver
  | [], s => s
  | p :: ps, s => timedLoop ps { s with msgqTxseq := s.msgqTxseq - 1, rel := p :: s.rel }

/-- `retrans_work` starts, with its pending bit cleared. Until it has the lock `h5_dequeue` can
schedule it again, and `h5_pkt_cull` cannot cancel it any more. -/
def fire (s : Driver) : Option Driver :=
  if s.retrans && !s.firing then some { s with retrans := false, firing := true } else none

/-- `h5_timed_event`, from where it has the lock. -/
def timedEvent (s : Driver) : Driver :=
  let s := timedLoop s.unack.reverse s
  { s with unack := [], firing := false, wakeups := s.wakeups + 1 }

end Driver

/-- The types that travel on reliable channels. -/
def PktType.isReliable : PktType → Bool
  | .acl | .command | .event => true
  | _ => false

/-- The reliable packets an end passed up. -/
def Driver.received (s : Driver) : List Pkt := s.up.filter (·.type.isReliable)

/-- The driver behind the receiver of `hci_rtk_h5.c`. -/
def kernel : Proto Driver where
  rxseq := Driver.rxseqTxack
  outOfOrder := Driver.outOfOrder
  complete := Driver.completeRxPkt

def h5Recv (t : Port Driver) (bytes : List Byte) : Option (Port Driver) := recv kernel t bytes

/-! ## What each operation does

Sequence numbers are natural numbers modulo eight in what follows, `num n` for `n`. -/

def num (n : ℕ) : Fin 8 := Fin.ofNat 8 n

theorem num_inj {m n : ℕ} : num m = num n ↔ m % 8 = n % 8 := by
  simp [num, Fin.ext_iff]

theorem num_succ (n : ℕ) : num n + 1 = num (n + 1) := by
  apply Fin.ext
  simp [num, Fin.val_add]

theorem num_pred (n : ℕ) : num (n + 1) - 1 = num n := by
  rw [← num_succ]
  apply Fin.ext
  simp only [Fin.val_sub, Fin.val_add]
  omega

namespace Driver

/-- The queues hold the packets `h5_enqueue` puts there, the window is kept, and no packet waits for
its acknowledgement without the timer. -/
structure Ok (s : Driver) : Prop where
  unrel : ∀ p ∈ s.unrel, ∃ c, channel p.type = some (c, false)
  rel : ∀ p ∈ s.rel, p.type = .acl ∨ p.type = .command
  unack : ∀ p ∈ s.unack, p.type = .acl ∨ p.type = .command
  window : s.unack.length ≤ txWinSize
  timer : s.unack ≠ [] → s.retrans = true ∨ s.firing = true

theorem channel_of_reliable {t : PktType} (h : t = .acl ∨ t = .command) :
    ∃ c, channel t = some (c, true) := by
  rcases h with rfl | rfl
  · exact ⟨2, rfl⟩
  · exact ⟨1, rfl⟩

theorem enqueue_accepted (s : Driver) {p : Pkt} (h : p.Accepted) :
    ∃ q : TxPkt, q.toPkt = p ∧ s.enqueue p = { s with rel := s.rel ++ [q] } := by
  obtain ⟨hlen, ht⟩ := h
  refine ⟨⟨p, Nat.lt_succ_of_le hlen⟩, rfl, ?_⟩
  unfold enqueue
  rw [dif_pos hlen]
  rcases ht with ht | ht <;> simp only [ht]

theorem enqueue_other (s : Driver) {p : Pkt} (h : ¬ p.Accepted) :
    ∃ unrel, s.enqueue p = { s with unrel := unrel } ∧
      ∀ q ∈ unrel, q ∈ s.unrel ∨ ∃ c, channel q.type = some (c, false) := by
  unfold enqueue
  split
  · rename_i hlen
    have hnew : (∃ c, channel p.type = some (c, false)) →
        ∀ q ∈ s.unrel ++ [⟨p, Nat.lt_succ_of_le hlen⟩],
          q ∈ s.unrel ∨ ∃ c, channel q.type = some (c, false) := by
      intro hc q hq
      rcases List.mem_append.1 hq with hq | hq
      · exact .inl hq
      · rw [List.mem_singleton.1 hq]
        exact .inr hc
    cases ht : p.type with
    | acl => exact absurd ⟨hlen, .inl ht⟩ h
    | command => exact absurd ⟨hlen, .inr ht⟩ h
    | sco => exact ⟨_, rfl, hnew ⟨3, by rw [ht]; rfl⟩⟩
    | le => exact ⟨_, rfl, hnew ⟨15, by rw [ht]; rfl⟩⟩
    | ack => exact ⟨_, rfl, hnew ⟨0, by rw [ht]; rfl⟩⟩
    | vdrspec => exact ⟨_, rfl, hnew ⟨14, by rw [ht]; rfl⟩⟩
    | event => exact ⟨s.unrel, rfl, fun q hq => .inl hq⟩
    | other n => exact ⟨s.unrel, rfl, fun q hq => .inl hq⟩
  · exact ⟨s.unrel, rfl, fun q hq => .inl hq⟩

/-- What `h5_dequeue` can do: nothing, send without a number, or send the next reliable packet. -/
inductive Dequeued (s : Driver) : Option Frame → Driver → Prop where
  | nothing : Dequeued s none s
  | unreliable (f : Frame) (unrel : List TxPkt) (hseq : f.seq = none)
    (hack : f.ack = s.rxseqTxack) (hsub : ∀ p ∈ unrel, p ∈ s.unrel) :
    Dequeued s (some f) { s with unrel := unrel, txackReq := false }
  | reliable (f : Frame) (p : TxPkt) (rel : List TxPkt) (hrel : s.rel = p :: rel)
    (hwin : s.unack.length < txWinSize) (hseq : f.seq = some s.msgqTxseq)
    (hack : f.ack = s.rxseqTxack) (hchan : channel p.type = some (f.chan, true))
    (hdata : f.data = p.data) :
    Dequeued s (some f) { s with
      rel := rel, unack := s.unack ++ [p], retrans := true, txackReq := false
      msgqTxseq := s.msgqTxseq + 1 }

theorem preparePkt_cases (s : Driver) (mem : List Bool) {p : TxPkt} {c : Fin 16} {r : Bool}
    (hc : channel p.type = some (c, r)) :
    (∃ mem', s.preparePkt mem p = (none, mem')) ∨
    ∃ f mem', f.ack = s.rxseqTxack ∧ f.seq = (if r then some s.msgqTxseq else none) ∧
      f.chan = c ∧ f.data = p.data ∧
      s.preparePkt mem p = (some (f, { s with
        txackReq := false
        msgqTxseq := if r then s.msgqTxseq + 1 else s.msgqTxseq }), mem') := by
  unfold preparePkt
  rw [hc]
  dsimp only
  split
  · exact .inr ⟨_, _, rfl, rfl, rfl, rfl, rfl⟩
  · exact .inl ⟨_, rfl⟩

theorem dequeueAck_spec (s : Driver) (mem : List Bool) :
    Dequeued s (s.dequeueAck mem).1 (s.dequeueAck mem).2 := by
  unfold dequeueAck
  split
  · rcases preparePkt_cases s mem (p := ackPkt) rfl with ⟨m, h⟩ | ⟨f, m, hack, hseq, _, _, h⟩
    · rw [h]
      exact .nothing
    · rw [h]
      exact .unreliable f s.unrel hseq hack fun _ hp => hp
  · exact .nothing

theorem dequeueRel_spec {s : Driver} (hs : s.Ok) (mem : List Bool) :
    Dequeued s (s.dequeueRel mem).1 (s.dequeueRel mem).2 := by
  unfold dequeueRel
  split
  · rename_i hwin
    split
    · rename_i p rel hrel
      obtain ⟨c, hc⟩ := channel_of_reliable (hs.rel p (by rw [hrel]; exact List.mem_cons_self))
      rcases preparePkt_cases { s with rel := rel } mem hc with
        ⟨m, h⟩ | ⟨f, m, hack, hseq, hchan, hdata, h⟩
      · rw [h]
        exact dequeueAck_spec s m
      · rw [h]
        exact .reliable f p rel hrel hwin hseq hack (hchan ▸ hc) hdata
    · exact dequeueAck_spec s mem
  · exact dequeueAck_spec s mem

theorem dequeue_spec {s : Driver} (hs : s.Ok) (mem : List Bool) :
    Dequeued s (s.dequeue mem).1 (s.dequeue mem).2 := by
  unfold dequeue
  split
  · rename_i p unrel hunrel
    obtain ⟨c, hc⟩ := hs.unrel p (by rw [hunrel]; exact List.mem_cons_self)
    rcases preparePkt_cases { s with unrel := unrel } mem hc with
      ⟨m, h⟩ | ⟨f, m, hack, hseq, _, _, h⟩
    · rw [h]
      exact dequeueRel_spec hs m
    · rw [h]
      exact .unreliable f unrel hseq hack fun q hq => by
        rw [hunrel]
        exact List.mem_cons_of_mem _ hq
  · exact dequeueRel_spec hs mem

/-- There is something to send. -/
def Ready (s : Driver) : Prop :=
  s.unrel ≠ [] ∨ s.rel ≠ [] ∧ s.unack.length < txWinSize ∨ s.txackReq = true

/-! With memory `h5_dequeue` sends what comes first: an unreliable packet, a reliable one if the
window is open, an acknowledgement. -/

section Memory

variable {s : Driver} {mem : List Bool} (hmem : false ∉ mem)

include hmem

theorem preparePkt_some (s : Driver) {p : TxPkt} {c : Fin 16} {r : Bool}
    (hc : channel p.type = some (c, r)) :
    ∃ f mem', f.ack = s.rxseqTxack ∧ f.seq = (if r then some s.msgqTxseq else none) ∧
      s.preparePkt mem p = (some (f, { s with
        txackReq := false
        msgqTxseq := if r then s.msgqTxseq + 1 else s.msgqTxseq }), mem') := by
  have hhead : mem.headD true = true := by
    cases mem with
    | nil => rfl
    | cons a mem => cases a with
      | false => exact absurd List.mem_cons_self hmem
      | true => rfl
  unfold preparePkt
  rw [hc]
  dsimp only
  rw [if_pos hhead]
  exact ⟨_, _, rfl, rfl, rfl⟩

theorem dequeue_unrel (hs : s.Ok) {p : TxPkt} {unrel : List TxPkt} (hu : s.unrel = p :: unrel) :
    ∃ f, f.seq = none ∧ f.ack = s.rxseqTxack ∧
      s.dequeue mem = (some f, { s with unrel := unrel, txackReq := false }) := by
  obtain ⟨c, hc⟩ := hs.unrel p (by rw [hu]; exact List.mem_cons_self)
  obtain ⟨f, mem', hack, hseq, h⟩ := preparePkt_some hmem { s with unrel := unrel } hc
  refine ⟨f, hseq, hack, ?_⟩
  simp only [dequeue, hu, h]
  rfl

omit hmem in
theorem dequeue_of_unrel_nil (hu : s.unrel = []) : s.dequeue mem = s.dequeueRel mem := by
  unfold dequeue
  split
  · rename_i hcons
    rw [hu] at hcons
    cases hcons
  · rfl

theorem dequeue_rel (hs : s.Ok) (hu : s.unrel = []) {p : TxPkt} {rel : List TxPkt}
    (hr : s.rel = p :: rel) (hw : s.unack.length < txWinSize) :
    ∃ f, f.seq = some s.msgqTxseq ∧ f.ack = s.rxseqTxack ∧
      s.dequeue mem = (some f, { s with
        rel := rel, unack := s.unack ++ [p], retrans := true, txackReq := false
        msgqTxseq := s.msgqTxseq + 1 }) := by
  obtain ⟨c, hc⟩ := channel_of_reliable (hs.rel p (by rw [hr]; exact List.mem_cons_self))
  obtain ⟨f, mem', hack, hseq, h⟩ := preparePkt_some hmem { s with rel := rel } hc
  refine ⟨f, hseq, hack, ?_⟩
  rw [dequeue_of_unrel_nil hu, dequeueRel, if_pos hw]
  split
  · rename_i hcons
    cases hr.symm.trans hcons
    rw [h]
    rfl
  · rename_i hnil
    cases hr.symm.trans hnil

theorem dequeue_ack (hu : s.unrel = []) (hr : s.rel = [] ∨ ¬ s.unack.length < txWinSize)
    (ha : s.txackReq = true) :
    ∃ f, f.seq = none ∧ f.ack = s.rxseqTxack ∧
      s.dequeue mem = (some f, { s with txackReq := false }) := by
  obtain ⟨f, mem', hack, hseq, h⟩ := preparePkt_some hmem s (p := ackPkt) rfl
  have hend : s.dequeueAck mem = (some f, { s with txackReq := false }) := by
    rw [dequeueAck, if_pos ha, h]
    rfl
  refine ⟨f, hseq, hack, ?_⟩
  rw [dequeue_of_unrel_nil hu, ← hend]
  unfold dequeueRel
  split
  · rename_i hw
    split
    · rename_i hcons
      cases (hr.resolve_right (not_not.2 hw)).symm.trans hcons
    · rfl
  · rfl

theorem dequeue_ready (hs : s.Ok) (hready : s.Ready) : (s.dequeue mem).1 ≠ none := by
  have hsome : ∀ {f : Frame} {s' : Driver}, s.dequeue mem = (some f, s') →
      (s.dequeue mem).1 ≠ none := fun h => by rw [h]; simp
  cases hu : s.unrel with
  | cons p unrel =>
    obtain ⟨f, _, _, hd⟩ := dequeue_unrel hmem hs hu
    exact hsome hd
  | nil =>
    by_cases hrel : s.rel ≠ [] ∧ s.unack.length < txWinSize
    · obtain ⟨p, rel, hr⟩ := List.exists_cons_of_ne_nil hrel.1
      obtain ⟨f, _, _, hd⟩ := dequeue_rel hmem hs hu hr hrel.2
      exact hsome hd
    · have hack : s.txackReq = true := by
        rcases hready with h | h | h
        · exact absurd hu h
        · exact absurd h hrel
        · exact h
      rw [not_and_or, not_not] at hrel
      obtain ⟨f, _, _, hd⟩ := dequeue_ack hmem hu hrel hack
      exact hsome hd

end Memory

/-- `h5_pkt_cull` removes the packets up to the acknowledged one, or none when the number is not
that of a packet on the way. -/
theorem cullLoop_fst {a base n : ℕ}
    (huniq : ∀ m, base < m → m ≤ base + n → (a % 8 = m % 8 ↔ a = m)) :
    (cullLoop (num a) n (num (base + n))).1 = if base < a ∧ a ≤ base + n then a - base else 0 := by
  induction n with
  | zero =>
    rw [if_neg (by omega)]
    rfl
  | succ n ih =>
    have htop : num a = num (base + (n + 1)) ↔ a = base + (n + 1) :=
      num_inj.trans (huniq (base + (n + 1)) (by omega) (by omega))
    rw [cullLoop]
    split
    · rename_i h
      have := htop.1 h
      rw [if_pos (by omega)]
      show n + 1 = a - base
      omega
    · rename_i h
      have hne : a ≠ base + (n + 1) := fun e => h (htop.2 e)
      rw [show base + (n + 1) = base + n + 1 from rfl, num_pred,
        ih fun m h1 h2 => huniq m h1 (by omega)]
      split
      · rw [if_pos (by omega)]
      · rw [if_neg (by omega)]

theorem timedLoop_eq (ps : List TxPkt) (s : Driver) :
    timedLoop ps s = { s with
      msgqTxseq := (timedLoop ps s).msgqTxseq, rel := ps.reverse ++ s.rel } := by
  induction ps generalizing s with
  | nil => rfl
  | cons p ps ih =>
    rw [timedLoop, ih, List.reverse_cons, List.append_assoc]
    rfl

theorem timedLoop_txseq (ps : List TxPkt) (s : Driver) (base : ℕ)
    (hseq : s.msgqTxseq = num (base + ps.length)) : (timedLoop ps s).msgqTxseq = num base := by
  induction ps generalizing s with
  | nil => exact hseq
  | cons p ps ih =>
    refine ih _ ?_
    show s.msgqTxseq - 1 = num (base + ps.length)
    rw [hseq, List.length_cons, ← Nat.add_assoc, num_pred]

/-- The packets on the way go back in front of those that wait, in their order. -/
theorem fire_some {s s' : Driver} (h : s.fire = some s') :
    s' = { s with retrans := false, firing := true } := by
  unfold fire at h
  exact (Option.some.inj (Option.ite_none_right_eq_some.1 h).2).symm

theorem timedEvent_eq (s : Driver) :
    s.timedEvent = { s with
      unack := [], rel := s.unack ++ s.rel, msgqTxseq := s.timedEvent.msgqTxseq, firing := false
      wakeups := s.wakeups + 1 } := by
  have h := timedLoop_eq s.unack.reverse s
  rw [List.reverse_reverse] at h
  unfold timedEvent
  rw [h]

theorem timedEvent_txseq {s : Driver} {base : ℕ}
    (hseq : s.msgqTxseq = num (base + s.unack.length)) : s.timedEvent.msgqTxseq = num base :=
  timedLoop_txseq s.unack.reverse s base (by rw [List.length_reverse]; exact hseq)

/-! ### A received packet -/

section Complete

variable (s : Driver) (p : Packet)

theorem completeRxPkt_fields :
    (s.completeRxPkt p).rel = s.rel ∧ (s.completeRxPkt p).unrel = s.unrel ∧
    (s.completeRxPkt p).msgqTxseq = s.msgqTxseq ∧ (s.completeRxPkt p).useCrc = s.useCrc ∧
    (s.completeRxPkt p).unack =
      s.unack.drop (cullLoop (ackOf p.b0) s.unack.length s.msgqTxseq).1 ∧
    (s.completeRxPkt p).rxseqTxack =
      (if reliable p.b0 then s.rxseqTxack + 1 else s.rxseqTxack) ∧
    (s.completeRxPkt p).up =
      s.up ++ (passUp p.b0 p.b1).toList.map fun type => ⟨type, p.payload⟩ := by
  unfold completeRxPkt pktCull
  cases reliable p.b0 <;> cases passUp p.b0 p.b1 <;> simp

theorem completeRxPkt_timer :
    (s.completeRxPkt p).firing = s.firing ∧
    (s.completeRxPkt p).retrans =
      if (s.completeRxPkt p).unack.isEmpty then false else s.retrans := by
  unfold completeRxPkt pktCull
  cases reliable p.b0 <;> cases passUp p.b0 p.b1 <;> simp

theorem completeRxPkt_txackReq :
    (s.completeRxPkt p).txackReq = (reliable p.b0 || s.txackReq) := by
  unfold completeRxPkt pktCull
  cases reliable p.b0 <;> cases passUp p.b0 p.b1 <;> simp

end Complete

section Received

variable (s : Driver) (f : Frame)

theorem receive_of_seq_ne {q : Fin 8} (hq : f.seq = some q) (hne : q ≠ s.rxseqTxack) :
    kernel.receive s f.packet = s.outOfOrder f.header.byte0 := by
  obtain ⟨hrel, _, _, hseq⟩ := f.header.byte0_reads
  refine if_pos ?_
  show (reliable f.header.byte0 && seqOf f.header.byte0 != s.rxseqTxack) = true
  rw [hrel, hseq q hq]
  simpa [Frame.header, hq] using hne

theorem receive_of_seq {q : Fin 8} (hq : f.seq = some q) (he : q = s.rxseqTxack) :
    kernel.receive s f.packet = s.completeRxPkt f.packet := by
  obtain ⟨_, _, _, hseq⟩ := f.header.byte0_reads
  refine if_neg ?_
  show ¬ (reliable f.header.byte0 && seqOf f.header.byte0 != s.rxseqTxack) = true
  rw [hseq q hq, he]
  simp

theorem receive_of_unreliable (hq : f.seq = none) :
    kernel.receive s f.packet = s.completeRxPkt f.packet := by
  obtain ⟨hrel, _⟩ := f.header.byte0_reads
  refine if_neg ?_
  show ¬ (reliable f.header.byte0 && seqOf f.header.byte0 != s.rxseqTxack) = true
  rw [hrel]
  simp [Frame.header, hq]

theorem passUp_unreliable (hq : f.seq = none) {t : PktType}
    (h : passUp f.packet.b0 f.packet.b1 = some t) : t.isReliable = false := by
  have hrel : reliable f.packet.b0 = false := by
    rw [Frame.packet, f.header.byte0_reads.1, Frame.header, hq]
    rfl
  unfold passUp at h
  rw [hrel] at h
  simp only [Bool.false_eq_true, and_false, if_false] at h
  split at h
  · cases h
    rfl
  split at h
  · cases h
  split at h
  · cases h
    rfl
  · cases h

theorem passUp_reliable {q : Fin 8} (hq : f.seq = some q) {t : PktType}
    (hc : channel t = some (f.chan, true)) (ht : t = .acl ∨ t = .command) :
    passUp f.packet.b0 f.packet.b1 = some t := by
  have hrel : reliable f.packet.b0 = true := by
    rw [Frame.packet, f.header.byte0_reads.1, Frame.header, hq]
    rfl
  have hchan : chanOf f.packet.b1 = f.chan := f.header.byte1_reads.1
  unfold passUp
  rw [hrel, hchan]
  rcases ht with rfl | rfl
  · have : f.chan = 2 := (Prod.mk.inj (Option.some.inj hc)).1.symm
    rw [this]
    rfl
  · have : f.chan = 1 := (Prod.mk.inj (Option.some.inj hc)).1.symm
    rw [this]
    rfl

theorem received_of_unreliable (hq : f.seq = none) :
    (s.completeRxPkt f.packet).received = s.received ∧
      (s.completeRxPkt f.packet).rxseqTxack = s.rxseqTxack := by
  obtain ⟨_, _, _, _, _, hseq, hup⟩ := completeRxPkt_fields s f.packet
  have hrel : reliable f.packet.b0 = false := by
    rw [Frame.packet, f.header.byte0_reads.1, Frame.header, hq]
    rfl
  constructor
  · rw [received, hup, List.filter_append]
    cases hp : passUp f.packet.b0 f.packet.b1 with
    | none => simp [received]
    | some t => simp [received, passUp_unreliable f hq hp]
  · rw [hseq, hrel]
    rfl

theorem received_of_reliable {q : Fin 8} (hq : f.seq = some q) {p : Pkt}
    (hc : channel p.type = some (f.chan, true)) (ht : p.type = .acl ∨ p.type = .command)
    (hd : f.data = p.data) :
    (s.completeRxPkt f.packet).received = s.received ++ [p] ∧
      (s.completeRxPkt f.packet).rxseqTxack = s.rxseqTxack + 1 := by
  obtain ⟨_, _, _, _, _, hseq, hup⟩ := completeRxPkt_fields s f.packet
  have hrel : reliable f.packet.b0 = true := by
    rw [Frame.packet, f.header.byte0_reads.1, Frame.header, hq]
    rfl
  constructor
  · have hp : (⟨p.type, f.packet.payload⟩ : Pkt) = p := by
      rw [Frame.packet, hd]
    have hr : p.type.isReliable = true := by
      rcases ht with h | h <;> rw [h] <;> rfl
    rw [received, hup, List.filter_append, passUp_reliable f hq hc ht]
    simp [received, hp, hr]
  · rw [hseq, hrel]
    rfl

end Received

/-! ### The invariant of the driver -/

namespace Ok

variable {s : Driver}

theorem enqueue (h : s.Ok) (p : Pkt) : (s.enqueue p).Ok := by
  by_cases hp : p.Accepted
  · obtain ⟨q, hq, he⟩ := s.enqueue_accepted hp
    rw [he]
    refine ⟨h.unrel, fun r hr => ?_, h.unack, h.window, h.timer⟩
    rcases List.mem_append.1 hr with hr | hr
    · exact h.rel r hr
    · rw [List.mem_singleton.1 hr, hq]
      exact hp.2
  · obtain ⟨unrel, he, hu⟩ := s.enqueue_other hp
    rw [he]
    exact ⟨fun q hq => (hu q hq).elim (h.unrel q) id, h.rel, h.unack, h.window, h.timer⟩

theorem dequeued (h : s.Ok) {o : Option Frame} {s' : Driver} (hd : Dequeued s o s') :
    s'.Ok := by
  cases hd with
  | nothing => exact h
  | unreliable f unrel _ _ hsub =>
    exact ⟨fun q hq => h.unrel q (hsub q hq), h.rel, h.unack, h.window, h.timer⟩
  | reliable f p rel hrel hwin _ _ _ _ =>
    have hp := h.rel p (by rw [hrel]; exact List.mem_cons_self)
    refine ⟨h.unrel, fun q hq => h.rel q (by rw [hrel]; exact List.mem_cons_of_mem _ hq),
      fun q hq => ?_, ?_, by simp⟩
    · rcases List.mem_append.1 hq with hq | hq
      · exact h.unack q hq
      · rw [List.mem_singleton.1 hq]
        exact hp
    · rw [List.length_append, List.length_singleton]
      omega

theorem outOfOrder (h : s.Ok) (b0 : Byte) : (s.outOfOrder b0).Ok :=
  ⟨h.unrel, h.rel, h.unack, h.window, h.timer⟩

theorem completeRxPkt (h : s.Ok) (p : Packet) : (s.completeRxPkt p).Ok := by
  obtain ⟨h1, h2, _, _, h5, _⟩ := completeRxPkt_fields s p
  obtain ⟨hfiring, hretrans⟩ := completeRxPkt_timer s p
  constructor
  case unrel =>
    rw [h2]
    exact h.unrel
  case rel =>
    rw [h1]
    exact h.rel
  case unack =>
    rw [h5]
    exact fun q hq => h.unack q (List.mem_of_mem_drop hq)
  case window =>
    rw [h5, List.length_drop]
    exact Nat.le_trans (Nat.sub_le _ _) h.window
  case timer =>
    -- some packet is left, so there was one before, and the timer was not cancelled
    intro hne
    have hbefore : s.unack ≠ [] := by
      intro he
      rw [h5, he, List.drop_nil] at hne
      exact hne rfl
    rw [hretrans, hfiring, if_neg (by simpa using hne)]
    exact h.timer hbefore

theorem recv {t t' : Port Driver} {bytes : List Byte} (h : t.s.Ok)
    (hr : h5Recv t bytes = some t') : t'.s.Ok :=
  recv_keeps (Q := Ok) (fun _ b hs => hs.outOfOrder b) (fun _ p hs => hs.completeRxPkt p) hr h

theorem fire (h : s.Ok) {s' : Driver} (hf : s.fire = some s') : s'.Ok := by
  rw [fire_some hf]
  exact ⟨h.unrel, h.rel, h.unack, h.window, fun _ => .inr rfl⟩

theorem timedEvent (h : s.Ok) : s.timedEvent.Ok := by
  rw [timedEvent_eq]
  refine ⟨h.unrel, fun q hq => ?_, fun q hq => absurd hq List.not_mem_nil, Nat.zero_le _,
    fun hne => absurd rfl hne⟩
  exact (List.mem_append.1 hq).elim (h.unack q) (h.rel q)

theorem h5Open (txcrc : Bool) : (h5Open txcrc).Ok where
  unrel := by simp [H5.h5Open]
  rel := by simp [H5.h5Open]
  unack := by simp [H5.h5Open]
  window := Nat.zero_le _
  timer := fun hne => absurd rfl hne

end Ok

/-! ### Buffers and wakeups -/

/-- **Prepared packets fit.** A packet of `h5_prepare_pkt` fits the buffer it allocates, and
between its delimiters there is no delimiter and no flow control byte. -/
theorem preparePkt_fits {s s' : Driver} {mem mem' : List Bool} {p : TxPkt} {f : Frame}
    (h : s.preparePkt mem p = (some (f, s'), mem')) :
    f.bytes.length ≤ (p.data.length + 6) * 2 + 2 ∧
    ∃ body, f.bytes = slipMsgdelim :: (body ++ [slipMsgdelim]) ∧
      ∀ b ∈ body, b ≠ slipMsgdelim ∧ b ≠ 0x11#8 ∧ b ≠ 0x13#8 := by
  have hdata : f.data = p.data := by
    unfold preparePkt at h
    split at h
    · cases h
    split at h <;> cases h
    rfl
  refine ⟨?_, slip f.body, rfl, fun b hb => ?_⟩
  · have h1 := slip_length_le f.body
    have h2 := f.body_length_le
    rw [Frame.bytes, List.length_cons, List.length_append, List.length_singleton, ← hdata]
    omega
  · have hres := not_reserved_of_mem_slip hb
    exact ⟨fun h => hres (.inl h), fun h => hres (.inr (.inl h)), fun h => hres (.inr (.inr h))⟩

theorem preparePkt_fits_reserved : ∃ f s', (h5Open true).preparePkt []
      ⟨⟨.command, [0xc0, 0x11, 0x13, 0xdb]⟩, by decide⟩ = (some (f, s'), []) ∧
    f.bytes.length ≤ 22 := by
  have h : (h5Open true).preparePkt [] ⟨⟨.command, [0xc0, 0x11, 0x13, 0xdb]⟩, by decide⟩ =
    (some (_, _), []) := rfl
  exact ⟨_, _, h, (preparePkt_fits h).1⟩

/-- From `s` to `s'` nothing changed or `hci_uart_tx_wakeup` was called. -/
def Wakes (s s' : Driver) : Prop := s' = s ∨ s.wakeups < s'.wakeups

theorem Wakes.of_succ {s s' s'' : Driver} (h : s.Wakes s') (hw : s''.wakeups = s'.wakeups + 1) :
    s.Wakes s'' := by
  refine .inr ?_
  rw [hw]
  rcases h with rfl | hlt
  · exact Nat.lt_succ_self _
  · exact Nat.lt_succ_of_lt hlt

theorem completeRxPkt_wakeups (s : Driver) (p : Packet) :
    (s.completeRxPkt p).wakeups = s.wakeups + 1 := by
  unfold completeRxPkt pktCull
  cases reliable p.b0 <;> cases passUp p.b0 p.b1 <;> rfl

theorem wakes_packets (s : Driver) :
    (∀ s' b, s.Wakes s' → s.Wakes (kernel.outOfOrder s' b)) ∧
      ∀ s' p, s.Wakes s' → s.Wakes (kernel.complete s' p) :=
  ⟨fun _ _ h => h.of_succ rfl, fun _ p h => h.of_succ (completeRxPkt_wakeups _ p)⟩

/-- **Received bytes wake the sender.** A chunk that changes the driver in any way calls
`hci_uart_tx_wakeup`. -/
theorem recv_wakes {t t' : Port Driver} {bytes : List Byte} (h : h5Recv t bytes = some t') :
    t'.s = t.s ∨ t.s.wakeups < t'.s.wakeups :=
  recv_keeps (wakes_packets t.s).1 (wakes_packets t.s).2 h (.inl rfl)

theorem recv_wakes_ack : ∃ t',
    h5Recv ⟨Rx.init, [], h5Open true⟩ (Frame.bytes ⟨0, none, true, 0, [], by decide⟩) = some t' ∧
      t'.s ≠ h5Open true ∧ 0 < t'.s.wakeups := by
  have hrun : (h5Recv ⟨Rx.init, [], h5Open true⟩
      (Frame.bytes ⟨0, none, true, 0, [], by decide⟩)).map (fun t => decide (t.s ≠ h5Open true)) =
        some true := by decide +kernel
  obtain ⟨t', ht, hne⟩ := Option.map_eq_some_iff.1 hrun
  have hne := of_decide_eq_true hne
  exact ⟨t', ht, hne, (recv_wakes ht).resolve_left hne⟩

end Driver

end Bluetooth.H5
