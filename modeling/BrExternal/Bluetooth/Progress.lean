import BrExternal.Bluetooth.Link

/-!
# The link gets through

Whatever was lost, damaged or repeated so far, from every state of the link the rest of the packets
can still be delivered and acknowledged, by the drivers' own steps on a line that does not fail any
more. A schedule that does it: let the line run empty; fire the timers, so that each end repeats
what the other may have missed, until the two ends agree on the next number; then send packet after
packet, each answered by a frame of the other end.
-/

namespace Bluetooth.H5

/-! ## What a frame does at the other end -/

namespace Driver

variable {s : Driver}

/-- The frame is in sequence, or has no number. -/
def Takes (s : Driver) (f : Frame) : Prop := ∀ q, f.seq = some q → q = s.rxseqTxack

theorem receive_of_takes {f : Frame} (h : s.Takes f) :
    kernel.receive s f.packet = s.completeRxPkt f.packet := by
  cases hseq : f.seq with
  | none => exact receive_of_unreliable s f hseq
  | some q => exact receive_of_seq s f hseq (h q hseq)

theorem reliable_packet (f : Frame) : reliable f.packet.b0 = f.seq.isSome :=
  f.header.byte0_reads.1

theorem takes_rxseq {f : Frame} (h : s.Takes f) :
    (kernel.receive s f.packet).rxseqTxack =
      if f.seq.isSome then s.rxseqTxack + 1 else s.rxseqTxack := by
  rw [receive_of_takes h, (completeRxPkt_fields s f.packet).2.2.2.2.2.1, reliable_packet]

theorem receive_txseq (s : Driver) (p : Packet) : (kernel.receive s p).msgqTxseq = s.msgqTxseq := by
  unfold Proto.receive
  split
  · rfl
  · exact (completeRxPkt_fields s p).2.2.1

theorem receive_txackReq (s : Driver) (f : Frame) :
    (kernel.receive s f.packet).txackReq = (f.seq.isSome || s.txackReq) := by
  cases hseq : f.seq with
  | none =>
    rw [receive_of_unreliable s f hseq, completeRxPkt_txackReq, reliable_packet, hseq]
  | some q =>
    by_cases hq : q = s.rxseqTxack
    · rw [receive_of_seq s f hseq hq, completeRxPkt_txackReq, reliable_packet, hseq]
    · rw [receive_of_seq_ne s f hseq hq]
      rfl

theorem cullLoop_self (a : Fin 8) (n : Nat) : (cullLoop a n a).1 = n := by
  cases n with
  | zero => rfl
  | succ n => rw [cullLoop, if_pos rfl]

theorem takes_acked {f : Frame} (h : s.Takes f) (ha : f.ack = s.msgqTxseq) :
    (kernel.receive s f.packet).unack = [] := by
  have hack : ackOf f.packet.b0 = s.msgqTxseq := f.header.byte0_reads.2.2.1.trans ha
  rw [receive_of_takes h, (completeRxPkt_fields s f.packet).2.2.2.2.1, hack, cullLoop_self,
    List.drop_length]

theorem takes_rel {f : Frame} (h : s.Takes f) : (kernel.receive s f.packet).rel = s.rel := by
  rw [receive_of_takes h, (completeRxPkt_fields s f.packet).1]

/-- The driver owes an acknowledgement, and whatever frame it sends brings it. -/
theorem dequeue_owed (hok : s.Ok) (hreq : s.txackReq = true) :
    ∃ f s', s.dequeue [] = (some f, s') ∧ f.ack = s.rxseqTxack ∧ s'.rxseqTxack = s.rxseqTxack ∧
      (f.seq = none ∧ s'.msgqTxseq = s.msgqTxseq ∨
        f.seq = some s.msgqTxseq ∧ s'.msgqTxseq = s.msgqTxseq + 1) := by
  cases hu : s.unrel with
  | cons p unrel =>
    obtain ⟨f, hseq, hack, hd⟩ := dequeue_unrel List.not_mem_nil hok hu
    exact ⟨f, _, hd, hack, rfl, .inl ⟨hseq, rfl⟩⟩
  | nil =>
    by_cases hsend : s.rel = [] ∨ ¬ s.unack.length < txWinSize
    · obtain ⟨f, hseq, hack, hd⟩ := dequeue_ack List.not_mem_nil hu hsend hreq
      exact ⟨f, _, hd, hack, rfl, .inl ⟨hseq, rfl⟩⟩
    · obtain ⟨hrel, hwin⟩ := not_or.1 hsend
      obtain ⟨p, rel, hr⟩ := List.exists_cons_of_ne_nil hrel
      obtain ⟨f, hseq, hack, hd⟩ := dequeue_rel List.not_mem_nil hok hu hr (not_not.1 hwin)
      exact ⟨f, _, hd, hack, rfl, .inr ⟨hseq, rfl⟩⟩

end Driver

namespace Link

variable {x : Side} {l l' : Link}

/-! ## Schedules -/

/-- The drivers' own steps, on a line and with an allocator that do not fail. -/
def Act.Faultless : Act → Prop
  | .transmit _ mem | .deliver _ mem => mem = []
  | .fire _ | .timer _ => True
  | .enqueue _ _ | .damage _ _ _ | .again _ _ | .lose _ _ => False

abbrev Reaches : Link → Link → Prop :=
  Relation.ReflTransGen fun l l' => ∃ a : Act, a.Faultless ∧ step l a = some l'

theorem Reaches.of_step {a : Act} (h : step l a = some l') (ha : a.Faultless) : Reaches l l' :=
  .single ⟨a, ha, h⟩

theorem sent_of_faultless {a : Act} (ha : a.Faultless) (hs : step l a = some l') :
    l'.sent = l.sent := by
  cases a with
  | transmit z mem =>
    cases hs
    rfl
  | deliver z mem =>
    obtain ⟨bytes, rest, t, _, _, rfl⟩ := step_deliver hs
    rfl
  | fire z =>
    obtain ⟨s, _, rfl⟩ := Option.map_eq_some_iff.1 hs
    rfl
  | timer z => rw [step_timer hs]
  | enqueue z p => cases ha
  | damage z i bytes => cases ha
  | again z i => cases ha
  | lose z i => cases ha

theorem Reaches.sent (h : Reaches l l') : l'.sent = l.sent := by
  induction h with
  | refl => rfl
  | tail _ hstep ih =>
    obtain ⟨a, ha, hs⟩ := hstep
    exact (sent_of_faultless ha hs).trans ih

theorem good_faultless {a : Act} (h : l.Good) (hs : step l a = some l') (ha : a.Faultless) :
    l'.Good := by
  refine good_step h ?_ hs
  cases a <;> trivial

structure Calm (l : Link) : Prop extends Good l where
  quiet : ∀ x, l.wire x = []

/-- The other end waits for the number `x` sends next. -/
def Synced (x : Side) (l : Link) : Prop :=
  (l.driver x.other).rxseqTxack = (l.driver x).msgqTxseq

/-! ## Legs -/

theorem deliver_some (h : l.Good) {bytes : List Byte} {rest : List (List Byte)}
    (hwire : l.wire x = bytes :: rest) :
    ∃ t l', h5Recv (l.port x.other []) bytes = some t ∧ step l (.deliver x []) = some l' ∧
      l'.wire = Function.update l.wire x rest ∧
      l'.driver = Function.update l.driver x.other t.s := by
  obtain ⟨t, ht, _⟩ := recv_ok (P := kernel) (t := l.port x.other []) (h.well.rx x.other) bytes
  refine ⟨t, { l with wire := Function.update l.wire x rest }.setPort x.other t, ht, ?_, rfl, rfl⟩
  simp only [step, hwire]
  rw [h5Recv, ht]
  rfl

theorem drain (h : l.Good) (x : Side) :
    ∃ l', Reaches l l' ∧ l'.Good ∧ l'.wire x = [] ∧ l'.wire x.other = l.wire x.other := by
  generalize hw : l.wire x = w
  induction w generalizing l with
  | nil => exact ⟨l, .refl, h, hw, rfl⟩
  | cons bytes rest ih =>
    obtain ⟨t, l1, _, hs, hwire, _⟩ := deliver_some h hw
    obtain ⟨l2, hr, hg, hx, hy⟩ := ih (good_faultless h hs rfl)
      (by rw [hwire, Function.update_self])
    refine ⟨l2, .trans (Reaches.of_step hs rfl) hr, hg, hx, ?_⟩
    rw [hy, hwire, Function.update_of_ne (Side.other_ne x)]

theorem calm_down (h : l.Good) : ∃ l', Reaches l l' ∧ l'.Calm := by
  obtain ⟨l1, hr1, hg1, hx1, _⟩ := drain h .host
  obtain ⟨l2, hr2, hg2, hx2, hy2⟩ := drain hg1 .card
  refine ⟨l2, hr1.trans hr2, hg2, fun x => ?_⟩
  cases x with
  | host => exact hy2.trans hx1
  | card => exact hx2

theorem hop (h : l.Calm) {f : Frame} {s : Driver} (hd : (l.driver x).dequeue [] = (some f, s)) :
    ∃ l', Reaches l l' ∧ l'.Calm ∧ l'.driver x = s ∧
      l'.driver x.other = kernel.receive (l.driver x.other) f.packet := by
  let l1 : Link := { l with
    driver := Function.update l.driver x s
    wire := Function.update l.wire x (l.wire x ++ [f.bytes]) }
  have hs1 : step l (.transmit x []) = some l1 := by
    simp only [step, hd]
    rfl
  have hg1 := good_faultless h.toGood hs1 rfl
  have hwire : l1.wire x = [f.bytes] := by
    simp [l1, h.quiet x]
  obtain ⟨t, l2, ht, hs2, hw2, hd2⟩ := deliver_some hg1 hwire
  obtain ⟨line, hshows, _⟩ := hg1.sim
  obtain ⟨t', ht', _, hs⟩ := recv_frame (P := kernel) (t := l1.port x.other [])
    (hshows.between x.other) f
  cases ht.symm.trans ht'
  have hs : t.s = kernel.receive (l1.driver x.other) f.packet := hs
  refine ⟨l2, .trans (Reaches.of_step hs1 rfl) (Reaches.of_step hs2 rfl),
    ⟨good_faultless hg1 hs2 rfl, fun z => ?_⟩, ?_, ?_⟩
  · rw [hw2]
    rcases x.eq_or_other z with rfl | rfl
    · exact Function.update_self ..
    · rw [Function.update_of_ne (Side.other_ne x)]
      simp [l1, h.quiet]
  · rw [hd2, Function.update_of_ne (Side.ne_other x)]
    exact Function.update_self ..
  · rw [hd2, Function.update_self, hs]
    simp [l1]

/-- What an end leaves alone by sending, and the other by receiving. -/
structure Keeps (x : Side) (l l' : Link) : Prop where
  rxseq : (l'.driver x).rxseqTxack = (l.driver x).rxseqTxack
  txseq : (l'.driver x.other).msgqTxseq = (l.driver x.other).msgqTxseq

theorem Keeps.refl (x : Side) (l : Link) : Keeps x l l := ⟨rfl, rfl⟩

theorem Keeps.trans {l'' : Link} (h : Keeps x l l') (h' : Keeps x l' l'') : Keeps x l l'' :=
  ⟨h'.rxseq.trans h.rxseq, h'.txseq.trans h.txseq⟩

theorem Keeps.synced (h : Keeps x l l') (hs : Synced x.other l) : Synced x.other l' := by
  unfold Synced at hs ⊢
  rw [Side.other_other] at hs ⊢
  rw [h.rxseq, h.txseq, hs]

theorem start_timer (h : l.Calm) (hu : (l.driver x).unack ≠ []) :
    ∃ l', Reaches l l' ∧ l'.Calm ∧ (l'.driver x).firing = true ∧
      (∃ retrans, l'.driver x = { l.driver x with retrans := retrans, firing := true }) ∧
      l'.driver x.other = l.driver x.other := by
  cases hf : (l.driver x).firing with
  | true => exact ⟨l, .refl, h, hf, ⟨(l.driver x).retrans, by rw [← hf]⟩, rfl⟩
  | false =>
    have hret := ((h.well.ok x).timer hu).resolve_right (by rw [hf]; decide)
    let s : Driver := { l.driver x with retrans := false, firing := true }
    have hs : step l (.fire x) = some { l with driver := Function.update l.driver x s } := by
      simp only [step, Driver.fire, hret, hf]
      rfl
    have hself : Function.update l.driver x s x = s := Function.update_self ..
    refine ⟨_, Reaches.of_step hs trivial, ⟨good_faultless h.toGood hs trivial, h.quiet⟩, ?_,
      ⟨false, hself⟩, Function.update_of_ne (Side.other_ne x) ..⟩
    show (Function.update l.driver x s x).firing = true
    rw [hself]

/-- The timer, if anything is on the way: afterwards nothing is. -/
theorem rewind (h : l.Calm) (x : Side) :
    ∃ l', Reaches l l' ∧ l'.Calm ∧ Keeps x l l' ∧ (l'.driver x).unack = [] ∧
      (l'.driver x).rel = (l.driver x).unack ++ (l.driver x).rel ∧
      l'.driver x.other = l.driver x.other ∧
      ∀ n, (l.driver x).msgqTxseq = num (n + (l.driver x).unack.length) →
        (l'.driver x).msgqTxseq = num n := by
  by_cases hu : (l.driver x).unack = []
  · refine ⟨l, .refl, h, .refl x l, hu, by rw [hu]; rfl, rfl, fun n hn => ?_⟩
    rw [hn, hu]
    rfl
  · obtain ⟨l0, hr0, hc0, hf0, ⟨retrans, hx0⟩, hy0⟩ := start_timer h hu
    let l1 : Link := { l0 with driver := Function.update l0.driver x (l0.driver x).timedEvent }
    have hs : step l0 (.timer x) = some l1 := by
      simp only [step]
      exact if_pos hf0
    have hself : l1.driver x = (l0.driver x).timedEvent := Function.update_self ..
    have hother : l1.driver x.other = l.driver x.other :=
      (Function.update_of_ne (Side.other_ne x) ..).trans hy0
    have heq := (l0.driver x).timedEvent_eq
    refine ⟨l1, hr0.trans (Reaches.of_step hs trivial),
      ⟨good_faultless hc0.toGood hs trivial, hc0.quiet⟩, ⟨?_, ?_⟩, ?_, ?_, hother, ?_⟩
    · rw [hself, heq, hx0]
    · rw [hother]
    · rw [hself, heq]
    · rw [hself, heq, hx0]
    · intro n hn
      rw [hself]
      refine Driver.timedEvent_txseq ?_
      rw [hx0]
      exact hn

theorem flushUnrel (h : l.Calm) (x : Side) :
    ∃ l', Reaches l l' ∧ l'.Calm ∧ Keeps x l l' ∧ (l'.driver x).unrel = [] ∧
      (l'.driver x).unack = (l.driver x).unack ∧ (l'.driver x).rel = (l.driver x).rel ∧
      (l'.driver x).msgqTxseq = (l.driver x).msgqTxseq ∧
      (l'.driver x.other).rxseqTxack = (l.driver x.other).rxseqTxack := by
  generalize hu : (l.driver x).unrel = u
  induction u generalizing l with
  | nil => exact ⟨l, .refl, h, .refl x l, hu, rfl, rfl, rfl, rfl⟩
  | cons p unrel ih =>
    obtain ⟨f, hseq, _, hd⟩ := Driver.dequeue_unrel List.not_mem_nil (h.well.ok x) hu
    obtain ⟨l1, hr1, hc1, hx1, hy1⟩ := hop h hd
    have ht : (l.driver x.other).Takes f := fun q hq => by rw [hseq] at hq; cases hq
    have hk1 : Keeps x l l1 := ⟨by rw [hx1], by rw [hy1, Driver.receive_txseq]⟩
    obtain ⟨l2, hr2, hc2, hk2, h1, h2, h3, h4, h5⟩ := ih hc1 (by rw [hx1])
    refine ⟨l2, hr1.trans hr2, hc2, hk1.trans hk2, h1, ?_, ?_, ?_, ?_⟩
    · rw [h2, hx1]
    · rw [h3, hx1]
    · rw [h4, hx1]
    · rw [h5, hy1, Driver.takes_rxseq ht, hseq]
      rfl

/-- `x` repeats `k` packets the other end already has. -/
theorem catchUp (k n : ℕ) (h : l.Calm) (hu : (l.driver x).unrel = [])
    (hwin : (l.driver x).unack.length + k ≤ txWinSize) (hrel : k ≤ (l.driver x).rel.length)
    (hx : (l.driver x).msgqTxseq = num n) (hy : (l.driver x.other).rxseqTxack = num (n + k)) :
    ∃ l', Reaches l l' ∧ l'.Calm ∧ Keeps x l l' ∧ Synced x l' ∧
      (0 < k ∨ (l.driver x.other).txackReq = true → (l'.driver x.other).txackReq = true) := by
  have hk4 : k ≤ 4 := Nat.le_trans (Nat.le_add_left k _) hwin
  induction k generalizing l n with
  | zero =>
    exact ⟨l, .refl, h, .refl x l, hy.trans hx.symm, fun h0 => h0.resolve_left (by omega)⟩
  | succ k ih =>
    obtain ⟨p, rel, hr⟩ := List.exists_cons_of_length_pos (Nat.lt_of_lt_of_le (Nat.succ_pos k) hrel)
    obtain ⟨f, hseq, _, hd⟩ := Driver.dequeue_rel List.not_mem_nil (h.well.ok x) hu hr (by omega)
    obtain ⟨l1, hr1, hc1, hx1, hy1⟩ := hop h hd
    -- the number is behind what the other end expects
    have hne : (l.driver x).msgqTxseq ≠ (l.driver x.other).rxseqTxack := by
      rw [hx, hy, ne_eq, num_inj]
      omega
    have hout := Driver.receive_of_seq_ne (l.driver x.other) f hseq hne
    have hreq : (l1.driver x.other).txackReq = true := by
      rw [hy1, hout]
      rfl
    have hk1 : Keeps x l l1 := ⟨by rw [hx1], by rw [hy1, Driver.receive_txseq]⟩
    have hrest := ih (n + 1) hc1 (by rw [hx1]; exact hu)
      (by rw [hx1]; simp only [List.length_append, List.length_singleton]; omega)
      (by rw [hx1]; rw [hr, List.length_cons] at hrel; exact Nat.le_of_succ_le_succ hrel)
      (by rw [hx1]; show (l.driver x).msgqTxseq + 1 = _; rw [hx, num_succ])
      (by rw [hy1, hout]; show (l.driver x.other).rxseqTxack = _; rw [hy]; congr 1; omega)
      (by omega)
    obtain ⟨l2, hr2, hc2, hk2, hs2, hreq2⟩ := hrest
    exact ⟨l2, hr1.trans hr2, hc2, hk1.trans hk2, hs2, fun _ => hreq2 (.inr hreq)⟩

/-- Both ends agree on the next number of `x`. -/
theorem sync (h : l.Calm) (x : Side) :
    ∃ l', Reaches l l' ∧ l'.Calm ∧ Keeps x l l' ∧ Synced x l' := by
  obtain ⟨l1, hr1, hc1, hk1, hu1, -⟩ := rewind h x
  obtain ⟨l2, hr2, hc2, hk2, hn2, hu2, -⟩ := flushUnrel hc1 x
  obtain ⟨g, hg⟩ := hc2.agrees x
  -- nothing is on the way, so `x` is at its base, and the other end at most a window ahead
  have hlen := hg.length
  rw [hu2, hu1, List.length_nil] at hlen
  have hnext := hg.inv.base_next
  have hexp := hg.inv.base_expect
  have hhigh := hg.inv.expect_high
  have hwin : g.high ≤ g.base + 4 := hg.inv.high_window
  have hsent := hg.inv.high_sent
  have hrel : (l2.driver x).rel.length = g.sent.length - g.next := by
    rw [← List.length_map (f := (·.toPkt)), hg.rel, GoBackN.State.queued, List.length_drop]
  have hcatch := catchUp (g.expect - g.next) g.next hc2 hn2
    (by rw [hu2, hu1, List.length_nil]; unfold txWinSize; omega) (by omega) hg.txseq
    (by rw [hg.rxseq]; congr 1; omega)
  obtain ⟨l3, hr3, hc3, hk3, hs3, -⟩ := hcatch
  exact ⟨l3, (hr1.trans hr2).trans hr3, hc3, (hk1.trans hk2).trans hk3, hs3⟩

/-- The other end acknowledges everything `x` has sent. -/
theorem answer (h : l.Calm) (hx : Synced x l) (hy : Synced x.other l)
    (hreq : (l.driver x.other).txackReq = true) :
    ∃ l', Reaches l l' ∧ l'.Calm ∧ Synced x l' ∧ Synced x.other l' ∧
      (l'.driver x).unack = [] ∧ (l'.driver x).rel = (l.driver x).rel := by
  obtain ⟨f, s, hd, hack, hrx, hnum⟩ := Driver.dequeue_owed (h.well.ok x.other) hreq
  have hyx : (l.driver x).rxseqTxack = (l.driver x.other).msgqTxseq := by
    unfold Synced at hy
    rwa [Side.other_other] at hy
  have ht : (l.driver x).Takes f := by
    intro q hq
    rcases hnum with ⟨hnone, _⟩ | ⟨hsome, _⟩
    · rw [hnone] at hq
      cases hq
    · rw [hyx]
      exact (Option.some.inj (hsome.symm.trans hq)).symm
  obtain ⟨l1, hr1, hc1, hx1, hy1⟩ := hop h hd
  rw [Side.other_other] at hy1
  refine ⟨l1, hr1, hc1, ?_, ?_, ?_, ?_⟩
  · show (l1.driver x.other).rxseqTxack = (l1.driver x).msgqTxseq
    rw [hx1, hy1, Driver.receive_txseq, hrx]
    exact hx
  · show (l1.driver x.other.other).rxseqTxack = (l1.driver x.other).msgqTxseq
    rw [Side.other_other, hx1, hy1, Driver.takes_rxseq ht, hyx]
    rcases hnum with ⟨hseq, hs⟩ | ⟨hseq, hs⟩ <;> rw [hseq, hs] <;> rfl
  · rw [hy1]
    exact Driver.takes_acked ht (hack.trans hx)
  · rw [hy1, Driver.takes_rel ht]

/-- What is on the way from `x` is acknowledged. -/
theorem settle (h : l.Calm) (hx : Synced x l) (hy : Synced x.other l) :
    ∃ l', Reaches l l' ∧ l'.Calm ∧ Synced x l' ∧ Synced x.other l' ∧
      (l'.driver x).unack = [] := by
  by_cases hu : (l.driver x).unack = []
  · exact ⟨l, .refl, h, hx, hy, hu⟩
  obtain ⟨g, hg⟩ := h.agrees x
  have hbase := hg.inv.base_next
  have hseq : (l.driver x).msgqTxseq = num (g.base + (l.driver x).unack.length) := by
    rw [hg.txseq, hg.length, Nat.add_sub_cancel' hbase]
  have hwin := (h.well.ok x).window
  obtain ⟨l1, hr1, hc1, hk1, hu1, hrel1, hy1, hx1⟩ := rewind h x
  obtain ⟨l2, hr2, hc2, hk2, hn2, hu2, hrel2, htx2, hrx2⟩ := flushUnrel hc1 x
  have hcatch := catchUp (l.driver x).unack.length g.base hc2 hn2
    (by rw [hu2, hu1, List.length_nil]; omega)
    (by rw [hrel2, hrel1, List.length_append]; omega)
    (by rw [htx2]; exact hx1 _ hseq)
    (by rw [hrx2, hy1]; exact hx.trans hseq)
  obtain ⟨l3, hr3, hc3, hk3, hs3, hreq3⟩ := hcatch
  have hsync := ((hk1.trans hk2).trans hk3).synced hy
  obtain ⟨l4, hr4, hc4, hx4, hy4, hu4, -⟩ := answer hc3 hs3 hsync
    (hreq3 (.inl (List.length_pos_iff.2 hu)))
  exact ⟨l4, ((hr1.trans hr2).trans hr3).trans hr4, hc4, hx4, hy4, hu4⟩

/-- Packet after packet goes over and is acknowledged. -/
theorem sendAll (h : l.Calm) (hx : Synced x l) (hy : Synced x.other l)
    (hu : (l.driver x).unack = []) :
    ∃ l', Reaches l l' ∧ l'.Calm ∧ Synced x l' ∧ (l'.driver x).unack = [] ∧
      (l'.driver x).rel = [] := by
  generalize hrel : (l.driver x).rel = rel
  induction rel generalizing l with
  | nil => exact ⟨l, .refl, h, hx, hu, hrel⟩
  | cons p rel ih =>
    obtain ⟨l1, hr1, hc1, hk1, hn1, hu1, hrel1, htx1, hrx1⟩ := flushUnrel h x
    obtain ⟨f, hseq, _, hd⟩ := Driver.dequeue_rel List.not_mem_nil (hc1.well.ok x) hn1
      (hrel1.trans hrel) (by rw [hu1, hu]; decide)
    obtain ⟨l2, hr2, hc2, hx2, hy2⟩ := hop hc1 hd
    have hsync1 : Synced x l1 := hrx1.trans (hx.trans htx1.symm)
    have ht : (l1.driver x.other).Takes f := fun q hq =>
      (Option.some.inj (hseq.symm.trans hq)).symm.trans hsync1.symm
    have hk2 : Keeps x l1 l2 := ⟨by rw [hx2], by rw [hy2, Driver.receive_txseq]⟩
    have hsync2 : Synced x l2 := by
      show (l2.driver x.other).rxseqTxack = (l2.driver x).msgqTxseq
      rw [hx2, hy2, Driver.takes_rxseq ht, hseq]
      show (l1.driver x.other).rxseqTxack + 1 = (l1.driver x).msgqTxseq + 1
      rw [hsync1]
    have hreq : (l2.driver x.other).txackReq = true := by
      rw [hy2, Driver.receive_txackReq, hseq]
      rfl
    obtain ⟨l3, hr3, hc3, hx3, hy3, hu3, hrel3⟩ :=
      answer hc2 hsync2 ((hk1.trans hk2).synced hy) hreq
    obtain ⟨l4, hr4, h4⟩ := ih hc3 hx3 hy3 hu3 (by rw [hrel3, hx2])
    exact ⟨l4, ((hr1.trans hr2).trans hr3).trans hr4, h4⟩

/-- **Progress.** From every state of every run in which damage is seen, the drivers can still
deliver every reliable packet `x` has accepted, and `x` learns of it, by their own steps once the
line does not fail. -/
theorem can_deliver_all (txcrc : Side → Bool) {acts : List Act} {l : Link}
    (hrun : Lts.exec step (init txcrc) acts = some l)
    (hseen : Lts.Along step (fun l a => a.Seen l) (init txcrc) acts) (x : Side) :
    ∃ l', Reaches l l' ∧ (l'.driver x.other).received = l.sent x ∧
      (l'.driver x).unack = [] ∧ (l'.driver x).rel = [] := by
  obtain ⟨l1, hr1, hc1⟩ := calm_down (good_run txcrc hrun hseen)
  obtain ⟨l2, hr2, hc2, -, hy2⟩ := sync hc1 x.other
  obtain ⟨l3, hr3, hc3, hk3, hx3⟩ := sync hc2 x
  obtain ⟨l4, hr4, hc4, hx4, hy4, hu4⟩ := settle hc3 hx3 (hk3.synced hy2)
  obtain ⟨l5, hr5, hc5, hx5, hu5, hrel5⟩ := sendAll hc4 hx4 hy4 hu4
  have hall : Reaches l l5 := (((hr1.trans hr2).trans hr3).trans hr4).trans hr5
  refine ⟨l5, hall, ?_, hu5, hrel5⟩
  -- all is sent, and the other end waits for the number after the last
  obtain ⟨g, hg⟩ := hc5.agrees x
  have hqueued := hg.rel
  rw [hrel5, List.map_nil, GoBackN.State.queued] at hqueued
  have hnext := List.drop_eq_nil_iff.1 hqueued.symm
  have hmod : g.expect % 8 = g.next % 8 := num_inj.1 (hg.rxseq.symm.trans (hx5.trans hg.txseq))
  have h1 := hg.inv.base_next
  have h2 := hg.inv.next_high
  have h3 := hg.inv.base_expect
  have h4 := hg.inv.expect_high
  have h5 : g.high ≤ g.base + 4 := hg.inv.high_window
  rw [hg.received, GoBackN.State.delivered, List.take_of_length_le (by omega), hg.sent,
    hall.sent]

theorem can_deliver_all_refused : ∃ l l', Lts.exec step (init fun _ => true) refused = some l ∧
    (l.driver .card).received = [] ∧ Reaches l l' ∧ (l'.driver .card).received = [reset] := by
  have hrun : (Lts.exec step (init fun _ => true) refused).map
      (fun l => ((l.driver .card).received, l.sent .host)) = some ([], [reset]) := by
    decide +kernel
  obtain ⟨l, hl, hlost⟩ := Option.map_eq_some_iff.1 hrun
  obtain ⟨hlost, hsent⟩ := Prod.mk.inj hlost
  obtain ⟨l', hr, hrec, -⟩ := can_deliver_all _ hl refused_seen .host
  exact ⟨l, l', hl, hlost, hr, hrec.trans hsent⟩

end Link

end Bluetooth.H5
