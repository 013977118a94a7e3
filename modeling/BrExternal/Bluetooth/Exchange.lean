import BrExternal.Bluetooth.Driver
import BrExternal.Lib.GoBackN

/-!
# Two H5 drivers exchanging frames

The driver at both ends of a line that carries whole frames, keeps their order, and can lose any of
them or bring it again. The HCI layer queues packets, the transmit work takes frames from
`h5_dequeue`, the other end receives them, and the timer fires. Each direction simulates `GoBackN`
with a window of four and numbers modulo eight.
-/

namespace Bluetooth.H5

inductive Side where
  | host
  | card
  deriving DecidableEq, Repr

def Side.other : Side → Side
  | .host => .card
  | .card => .host

@[simp] theorem Side.other_ne (x : Side) : x.other ≠ x := by cases x <;> decide

@[simp] theorem Side.ne_other (x : Side) : x ≠ x.other := by cases x <;> decide

@[simp] theorem Side.other_other (x : Side) : x.other.other = x := by cases x <;> rfl

theorem Side.eq_or_other (x z : Side) : z = x ∨ z = x.other := by
  cases x <;> cases z <;> decide

/-- Both drivers and the line. `line x` are the frames `x` sent and the other end has not seen,
oldest first. `sent x` records the reliable packets `x` accepted. -/
structure Exchange where
  driver : Side → Driver
  line : Side → List Frame
  sent : Side → List Pkt

/-- Queues, numbers and what was passed up are the same. -/
def Driver.Idles (s s' : Driver) : Prop :=
  s' = { s with
    txackReq := s'.txackReq, retrans := s'.retrans, firing := s'.firing, wakeups := s'.wakeups }

namespace Exchange

def init (txcrc : Side → Bool) : Exchange := ⟨fun x => h5Open (txcrc x), fun _ => [], fun _ => []⟩

inductive Step : Exchange → Exchange → Prop where
  | enqueue (e : Exchange) (x : Side) (p : Pkt) :
    Step e { e with
      driver := Function.update e.driver x ((e.driver x).enqueue p)
      sent := if p.Accepted then Function.update e.sent x (e.sent x ++ [p]) else e.sent }
  | transmit (e : Exchange) (x : Side) (mem : List Bool) :
    Step e { e with
      driver := Function.update e.driver x ((e.driver x).dequeue mem).2
      line := Function.update e.line x (e.line x ++ ((e.driver x).dequeue mem).1.toList) }
  | deliver (e : Exchange) (x : Side) (f : Frame) (fs : List Frame) (h : e.line x = f :: fs) :
    Step e { e with
      driver := Function.update e.driver x.other (kernel.receive (e.driver x.other) f.packet)
      line := Function.update e.line x fs }
  /-- Frames are lost or come again. -/
  | line (e : Exchange) (x : Side) (fs : List Frame) (h : GoBackN.Passes (e.line x) fs) :
    Step e { e with line := Function.update e.line x fs }
  /-- A frame is refused, or `retrans_work` starts. -/
  | idle (e : Exchange) (x : Side) (s : Driver) (h : (e.driver x).Idles s) :
    Step e { e with driver := Function.update e.driver x s }
  | timer (e : Exchange) (x : Side) :
    Step e { e with driver := Function.update e.driver x (e.driver x).timedEvent }

end Exchange

/-! ## The abstraction -/

/-- The frame `f` carries the message number `n` of `sent`. -/
def Carries (sent : List Pkt) (f : Frame) (n : ℕ) : Prop :=
  f.seq = some (num n) ∧ ∃ p, sent[n]? = some p ∧ channel p.type = some (f.chan, true) ∧
    (p.type = .acl ∨ p.type = .command) ∧ f.data = p.data

theorem carries_append {sent : List Pkt} {f : Frame} {n : ℕ} (h : Carries sent f n) (p : Pkt) :
    Carries (sent ++ [p]) f n := by
  obtain ⟨hseq, q, hq, hc⟩ := h
  refine ⟨hseq, q, ?_, hc⟩
  rw [List.getElem?_append_left (List.getElem?_eq_some_iff.1 hq).1]
  exact hq

namespace Exchange

/-- The direction from `x` to the other end, as a sliding window protocol. -/
structure Sim (x : Side) (e : Exchange) (g : GoBackN.State Pkt) : Prop where
  inv : GoBackN.Inv txWinSize g
  sent : g.sent = e.sent x
  unack : (e.driver x).unack.map (·.toPkt) = g.unacked
  rel : (e.driver x).rel.map (·.toPkt) = g.queued
  txseq : (e.driver x).msgqTxseq = num g.next
  rxseq : (e.driver x.other).rxseqTxack = num g.expect
  received : (e.driver x.other).received = g.delivered
  data : List.Forall₂ (Carries g.sent) ((e.line x).filter (·.seq.isSome)) g.data
  acks : List.Forall₂ (fun f n => f.ack = num n) (e.line x.other) g.acks

/-- Some steps of the protocol. -/
abbrev Moves (g g' : GoBackN.State Pkt) : Prop :=
  Relation.ReflTransGen (GoBackN.Step txWinSize) g g'

variable {x : Side} {e e' : Exchange} {g : GoBackN.State Pkt}

theorem sim_init (txcrc : Side → Bool) (x : Side) : Sim x (init txcrc) GoBackN.State.init where
  inv := GoBackN.inv_init
  sent := rfl
  unack := rfl
  rel := rfl
  txseq := rfl
  rxseq := rfl
  received := rfl
  data := .nil
  acks := .nil

theorem Sim.unack_length (h : Sim x e g) : (e.driver x).unack.length = g.next - g.base := by
  have h1 := congrArg List.length h.unack
  have h2 := h.inv.next_high
  have h3 := h.inv.high_sent
  rw [List.length_map, GoBackN.State.unacked, List.length_take, List.length_drop] at h1
  omega

/-- A direction only depends on these parts of the exchange. -/
theorem Sim.congr (h : Sim x e g) (hsent : e'.sent x = e.sent x)
    (hunack : (e'.driver x).unack = (e.driver x).unack)
    (hrel : (e'.driver x).rel = (e.driver x).rel)
    (htx : (e'.driver x).msgqTxseq = (e.driver x).msgqTxseq)
    (hrx : (e'.driver x.other).rxseqTxack = (e.driver x.other).rxseqTxack)
    (hrec : (e'.driver x.other).received = (e.driver x.other).received)
    (hdata : (e'.line x).filter (·.seq.isSome) = (e.line x).filter (·.seq.isSome))
    (hacks : e'.line x.other = e.line x.other) : Sim x e' g where
  inv := h.inv
  sent := h.sent.trans hsent.symm
  unack := by rw [hunack]; exact h.unack
  rel := by rw [hrel]; exact h.rel
  txseq := htx.trans h.txseq
  rxseq := hrx.trans h.rxseq
  received := hrec.trans h.received
  data := by rw [hdata]; exact h.data
  acks := by rw [hacks]; exact h.acks

/-! ## Steps of one direction -/

theorem sim_enqueue (h : Sim x e g) (z : Side) (p : Pkt) : ∃ g', Moves g g' ∧ Sim x { e with
    driver := Function.update e.driver z ((e.driver z).enqueue p)
    sent := if p.Accepted then Function.update e.sent z (e.sent z ++ [p]) else e.sent } g' := by
  by_cases hp : p.Accepted
  · obtain ⟨q, hq, he⟩ := (e.driver z).enqueue_accepted hp
    rw [if_pos hp, he]
    rcases x.eq_or_other z with rfl | rfl
    · obtain ⟨h1, h2, h3⟩ := h.inv.submit_queues p
      refine ⟨_, .single (.submit g p), h.inv.step (.submit g p), ?_, ?_, ?_, ?_, ?_, ?_, ?_, ?_⟩
      · simp [h.sent]
      · simpa [h1] using h.unack
      · simp [h2, h.rel, hq]
      · simpa using h.txseq
      · simpa using h.rxseq
      · simpa [h3] using h.received
      · exact h.data.imp fun _ _ hc => carries_append hc p
      · exact h.acks
    · refine ⟨g, .refl, h.congr ?_ ?_ ?_ ?_ ?_ ?_ rfl rfl⟩ <;> simp [Driver.received]
  · obtain ⟨unrel, he, _⟩ := (e.driver z).enqueue_other hp
    rw [if_neg hp, he]
    refine ⟨g, .refl, h.congr rfl ?_ ?_ ?_ ?_ ?_ rfl rfl⟩ <;>
      rcases x.eq_or_other z with rfl | rfl <;> simp [Driver.received]

/-- Frames from `x` add to the messages on the way when they carry a number. -/
theorem sim_transmit_from (h : Sim x e g) (hok : (e.driver x).Ok) {o : Option Frame} {s : Driver}
    (hd : Driver.Dequeued (e.driver x) o s) : ∃ g', Moves g g' ∧ Sim x { e with
      driver := Function.update e.driver x s
      line := Function.update e.line x (e.line x ++ o.toList) } g' := by
  cases hd with
  | nothing =>
    refine ⟨g, .refl, h.congr rfl ?_ ?_ ?_ ?_ ?_ ?_ ?_⟩ <;> simp
  | unreliable f unrel hseq hack hsub =>
    refine ⟨g, .refl, h.congr rfl ?_ ?_ ?_ ?_ ?_ ?_ ?_⟩ <;> simp [hseq]
  | reliable f p rel hrel hwin hseq hack hchan hdata =>
    have hq : g.queued = p.toPkt :: rel.map (·.toPkt) := by
      rw [← h.rel, hrel]
      rfl
    have hnext := GoBackN.Inv.next_of_queued hq
    have hlen := h.unack_length
    have hwindow : g.next < g.base + txWinSize := by
      have := h.inv.base_next
      omega
    have hstep := GoBackN.Step.send g hwindow (List.getElem?_eq_some_iff.1 hnext).1
    obtain ⟨h1, h2⟩ := h.inv.send_queues hq (g.data ++ [g.next])
    refine ⟨_, .single hstep, h.inv.step hstep, ?_, ?_, ?_, ?_, ?_, ?_, ?_, ?_⟩
    · exact h.sent
    · simp [h1, h.unack]
    · simp [h2]
    · simp [h.txseq, num_succ]
    · refine Eq.trans ?_ h.rxseq
      simp
    · refine Eq.trans ?_ h.received
      simp
    · have ht := hok.rel p (by rw [hrel]; exact List.mem_cons_self)
      have hf : Carries g.sent f g.next := by
        rw [h.txseq] at hseq
        exact ⟨hseq, p.toPkt, hnext, hchan, ht, hdata⟩
      simp only [Function.update_self, Option.toList_some, List.filter_append]
      refine List.rel_append h.data ?_
      simpa [hseq] using hf
    · simpa using h.acks

/-- Every frame from the other end acknowledges. -/
theorem sim_transmit_to (h : Sim x e g) {o : Option Frame} {s : Driver}
    (hd : Driver.Dequeued (e.driver x.other) o s) : ∃ g', Moves g g' ∧ Sim x { e with
      driver := Function.update e.driver x.other s
      line := Function.update e.line x.other (e.line x.other ++ o.toList) } g' := by
  have hpush : ∀ (f : Frame) (s : Driver), f.ack = (e.driver x.other).rxseqTxack →
      s.rxseqTxack = (e.driver x.other).rxseqTxack → s.up = (e.driver x.other).up →
      ∃ g', Moves g g' ∧ Sim x { e with
        driver := Function.update e.driver x.other s
        line := Function.update e.line x.other (e.line x.other ++ [f]) } g' := by
    intro f s hack hrx hup
    refine ⟨_, .single (.ack g), h.inv.step (.ack g), h.sent, ?_, ?_, ?_, ?_, ?_, ?_, ?_⟩
    · refine Eq.trans ?_ h.unack
      simp
    · refine Eq.trans ?_ h.rel
      simp
    · refine Eq.trans ?_ h.txseq
      simp
    · refine Eq.trans ?_ h.rxseq
      simp [hrx]
    · refine Eq.trans ?_ h.received
      simp [Driver.received, hup]
    · simpa using h.data
    · simp only [Function.update_self]
      exact List.rel_append h.acks (.cons (hack.trans h.rxseq) .nil)
  cases hd with
  | nothing =>
    refine ⟨g, .refl, h.congr rfl ?_ ?_ ?_ ?_ ?_ ?_ ?_⟩ <;> simp
  | unreliable f unrel hseq hack hsub => exact hpush f _ hack rfl rfl
  | reliable f p rel hrel hwin hseq hack hchan hdata => exact hpush f _ hack rfl rfl

/-- Frames are lost or come again on either line, and the drivers see none of it. -/
theorem sim_line (h : Sim x e g) (hsent : e'.sent = e.sent)
    (hx : (e.driver x).Idles (e'.driver x)) (hy : (e.driver x.other).Idles (e'.driver x.other))
    (hlx : GoBackN.Passes (e.line x) (e'.line x))
    (hly : GoBackN.Passes (e.line x.other) (e'.line x.other)) : ∃ g', Moves g g' ∧ Sim x e' g' := by
  obtain ⟨data, hd, hdata⟩ := (hlx.filter _).forall₂ h.data
  obtain ⟨acks, ha, hacks⟩ := hly.forall₂ h.acks
  have hstep : GoBackN.Step txWinSize g _ := .line g data acks hd ha
  refine ⟨_, .single hstep, h.inv.step hstep, ?_, ?_, ?_, ?_, ?_, ?_, hdata, hacks⟩
  · rw [hsent]
    exact h.sent
  · rw [hx]
    exact h.unack
  · rw [hx]
    exact h.rel
  · rw [hx]
    exact h.txseq
  · rw [hy]
    exact h.rxseq
  · rw [hy]
    exact h.received

theorem sim_dropped (h : Sim x e g) (z : Side) {s : Driver} (hs : (e.driver z.other).Idles s)
    {fs : List Frame} (hfs : GoBackN.Passes (e.line z) fs) : ∃ g', Moves g g' ∧ Sim x { e with
      driver := Function.update e.driver z.other s
      line := Function.update e.line z fs } g' := by
  have hrefl : ∀ s : Driver, s.Idles s := fun _ => rfl
  rcases x.eq_or_other z with rfl | rfl
  · refine sim_line h rfl ?_ ?_ ?_ ?_
    · simpa using hrefl (e.driver z)
    · simpa using hs
    · simpa using hfs
    · simpa using GoBackN.Passes.refl (e.line z.other)
  · rw [Side.other_other] at hs ⊢
    refine sim_line h rfl ?_ ?_ ?_ ?_
    · simpa using hs
    · simpa using hrefl (e.driver x.other)
    · simpa using GoBackN.Passes.refl (e.line x)
    · simpa using hfs

theorem sim_timer (h : Sim x e g) (z : Side) : ∃ g', Moves g g' ∧ Sim x { e with
    driver := Function.update e.driver z (e.driver z).timedEvent } g' := by
  rcases x.eq_or_other z with rfl | rfl
  · have hseq : (e.driver z).msgqTxseq = num (g.base + (e.driver z).unack.length) := by
      rw [h.txseq, h.unack_length, Nat.add_sub_cancel' h.inv.base_next]
    obtain ⟨h1, h2⟩ := h.inv.rewind_queues
    rw [Driver.timedEvent_eq, Driver.timedEvent_txseq hseq]
    refine ⟨_, .single (.rewind g), h.inv.step (.rewind g), h.sent, ?_, ?_, ?_, ?_, ?_, h.data,
      h.acks⟩
    · simp [h1]
    · simp [h2, h.unack, h.rel]
    · simp
    · refine Eq.trans ?_ h.rxseq
      simp
    · refine Eq.trans ?_ h.received
      simp
  · rw [Driver.timedEvent_eq]
    refine ⟨g, .refl, h.congr rfl ?_ ?_ ?_ ?_ ?_ rfl rfl⟩ <;> simp [Driver.received]

theorem sim_deliver_from (h : Sim x e g) {f : Frame} {fs : List Frame}
    (hline : e.line x = f :: fs) : ∃ g', Moves g g' ∧ Sim x { e with
      driver := Function.update e.driver x.other (kernel.receive (e.driver x.other) f.packet)
      line := Function.update e.line x fs } g' := by
  have hdata := h.data
  rw [hline] at hdata
  cases hseq : f.seq with
  | none =>
    obtain ⟨h1, h2⟩ := (e.driver x.other).received_of_unreliable f hseq
    rw [Driver.receive_of_unreliable _ f hseq]
    refine ⟨g, .refl, h.congr rfl ?_ ?_ ?_ ?_ ?_ ?_ ?_⟩ <;> simp [h1, h2, hline, hseq]
  | some q =>
    by_cases he : q = (e.driver x.other).rxseqTxack
    · rw [List.filter_cons_of_pos (by simp [hseq])] at hdata
      obtain ⟨n, data, ⟨hnum, p, hp, hc, ht, hd⟩, hrest, hg⟩ :=
        List.forall₂_cons_left_iff.1 hdata
      -- the number matches modulo eight, so it is the expected one
      have hn : n = g.expect := by
        refine (h.inv.expect_mod (by decide : txWinSize < 8) (by rw [hg]; exact .head _)).1 ?_
        rw [← num_inj, ← h.rxseq, ← he]
        exact Option.some.inj (hnum.symm.trans hseq)
      obtain ⟨h1, h2⟩ := (e.driver x.other).received_of_reliable f hseq hc ht hd
      rw [Driver.receive_of_seq _ f hseq he]
      have hstep : GoBackN.Step txWinSize g _ := .take g n data hg
      rw [if_pos hn] at hstep
      refine ⟨_, .single hstep, h.inv.step hstep, h.sent, ?_, ?_, ?_, ?_, ?_, ?_, ?_⟩
      · refine Eq.trans ?_ h.unack
        simp
      · refine Eq.trans ?_ h.rel
        simp
      · refine Eq.trans ?_ h.txseq
        simp
      · simp [h2, h.rxseq, num_succ]
      · rw [GoBackN.Inv.take_delivered (hn ▸ hp), ← h.received]
        simp [h1]
      · simpa using hrest
      · simpa using h.acks
    · rw [Driver.receive_of_seq_ne _ f hseq he]
      have htail : GoBackN.Passes (e.line x) fs := hline ▸ .lost f (.refl fs)
      exact sim_dropped h x (s := (e.driver x.other).outOfOrder f.header.byte0) rfl htail

theorem sim_deliver_to (h : Sim x e g) {f : Frame} {fs : List Frame}
    (hline : e.line x.other = f :: fs) : ∃ g', Moves g g' ∧ Sim x { e with
      driver := Function.update e.driver x (kernel.receive (e.driver x) f.packet)
      line := Function.update e.line x.other fs } g' := by
  have hacks := h.acks
  rw [hline] at hacks
  obtain ⟨n, acks, hn, hrest, hg⟩ := List.forall₂_cons_left_iff.1 hacks
  have hcomplete : ∃ g', Moves g g' ∧ Sim x { e with
      driver := Function.update e.driver x ((e.driver x).completeRxPkt f.packet)
      line := Function.update e.line x.other fs } g' := by
    obtain ⟨h1, _, h3, _, h5, _, _⟩ := (e.driver x).completeRxPkt_fields f.packet
    have hack : ackOf f.packet.b0 = num n := f.header.byte0_reads.2.2.1.trans hn
    have hlen := h.unack_length
    have hbase := h.inv.base_next
    have huniq : ∀ m, g.base < m → m ≤ g.base + (g.next - g.base) → (n % 8 = m % 8 ↔ n = m) :=
      fun m h1 h2 => h.inv.ack_mod (by decide : txWinSize < 8) (by rw [hg]; exact .head _) h1
        (by omega)
    have hcull := Driver.cullLoop_fst huniq
    rw [Nat.add_sub_cancel' hbase] at hcull
    rw [hack, h.txseq, hlen, hcull] at h5
    have hstep : GoBackN.Step txWinSize g _ := .takeAck g n acks hg
    refine ⟨_, .single hstep, h.inv.step hstep, h.sent, ?_, ?_, ?_, ?_, ?_, ?_, ?_⟩
    · simp only [Function.update_self]
      rw [h5, List.map_drop, h.unack]
      split
      · rename_i hlt
        exact (GoBackN.Inv.takeAck_unacked n (by omega) hlt.2 acks).symm
      · rfl
    · refine Eq.trans ?_ h.rel
      simp [h1]
    · refine Eq.trans ?_ h.txseq
      simp [h3]
    · refine Eq.trans ?_ h.rxseq
      simp
    · refine Eq.trans ?_ h.received
      simp
    · simpa using h.data
    · simpa using hrest
  cases hseq : f.seq with
  | none =>
    rw [Driver.receive_of_unreliable _ f hseq]
    exact hcomplete
  | some q =>
    by_cases he : q = (e.driver x).rxseqTxack
    · rw [Driver.receive_of_seq _ f hseq he]
      exact hcomplete
    · rw [Driver.receive_of_seq_ne _ f hseq he]
      have htail : GoBackN.Passes (e.line x.other) fs := hline ▸ .lost f (.refl fs)
      have hdrop := sim_dropped h x.other (s := (e.driver x).outOfOrder f.header.byte0)
        (by rw [Side.other_other]; rfl) htail
      rwa [Side.other_other] at hdrop

/-- **Simulation.** Every step of the exchange is at most one step of the protocol in each
direction. -/
theorem sim_step (h : Sim x e g) (hok : ∀ z, (e.driver z).Ok) (hstep : Step e e') :
    ∃ g', Moves g g' ∧ Sim x e' g' := by
  cases hstep with
  | enqueue z p => exact sim_enqueue h z p
  | transmit z mem =>
    have hd := Driver.dequeue_spec (hok z) mem
    rcases x.eq_or_other z with rfl | rfl
    · exact sim_transmit_from h (hok z) hd
    · exact sim_transmit_to h hd
  | deliver z f fs hline =>
    rcases x.eq_or_other z with rfl | rfl
    · exact sim_deliver_from h hline
    · rw [Side.other_other]
      exact sim_deliver_to h hline
  | line z fs hfs =>
    have hdrop := sim_dropped h z (s := e.driver z.other) rfl hfs
    rwa [Function.update_eq_self] at hdrop
  | idle z s hs =>
    have hdrop := sim_dropped h z.other (s := s) (by rwa [Side.other_other])
      (GoBackN.Passes.refl (e.line z.other))
    rwa [Side.other_other, Function.update_eq_self] at hdrop
  | timer z => exact sim_timer h z

end Exchange

end Bluetooth.H5
