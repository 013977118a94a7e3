import BrExternal.Bluetooth.Damage
import BrExternal.Bluetooth.Exchange
import BrExternal.Lib.Lts

/-!
# Two H5 drivers on a serial line

The exchange of frames down to the bytes. What `h5_prepare_pkt` built goes on the line as it is and
reaches `h5_recv` of the other end in one chunk, or what the line has made of it: the line keeps the
order, and can lose a frame, bring it again where it stands or turn it into any other bytes. Every
interleaving of the two ends and the line is a run of `Link.step`.

Nothing is assumed about the bytes for the bounds of the window. That packets arrive once and in
order needs that damage is of the kind the checks of a frame see (`Act.Seen`): then the link refines
the exchange, where a damaged frame is a frame lost.
-/

namespace Bluetooth.H5

/-- Both drivers and the line. `wire x` holds what `x` sent and the other end has not seen, frame by
frame, oldest first. `sent x` records the reliable packets `x` accepted. -/
structure Link where
  rx : Side → Rx
  driver : Side → Driver
  wire : Side → List (List Byte)
  sent : Side → List Pkt

namespace Link

def init (txcrc : Side → Bool) : Link :=
  ⟨fun _ => Rx.init, fun x => h5Open (txcrc x), fun _ => [], fun _ => []⟩

inductive Act where
  /-- The HCI layer of an end queues a packet. -/
  | enqueue (x : Side) (p : Pkt)
  /-- The transmit work asks for a frame. -/
  | transmit (x : Side) (mem : List Bool)
  /-- The oldest bytes from `x` arrive. -/
  | deliver (x : Side) (mem : List Bool)
  /-- A frame from `x` turns into other bytes. -/
  | damage (x : Side) (i : Nat) (bytes : List Byte)
  /-- A frame from `x` comes twice. -/
  | again (x : Side) (i : Nat)
  | lose (x : Side) (i : Nat)
  /-- `retrans_work` starts. -/
  | fire (x : Side)
  /-- `retrans_work` gets its lock. -/
  | timer (x : Side)

/-- The receive side of the end `x`, with the allocations to come. -/
def port (l : Link) (x : Side) (mem : List Bool) : Port Driver := ⟨l.rx x, mem, l.driver x⟩

def setPort (l : Link) (x : Side) (t : Port Driver) : Link :=
  { l with rx := Function.update l.rx x t.rx, driver := Function.update l.driver x t.s }

def step (l : Link) : Act → Option Link
  | .enqueue x p =>
    some { l with
      driver := Function.update l.driver x ((l.driver x).enqueue p)
      sent := if p.Accepted then Function.update l.sent x (l.sent x ++ [p]) else l.sent }
  | .transmit x mem =>
    let (frame, s) := (l.driver x).dequeue mem
    some { l with
      driver := Function.update l.driver x s
      wire := Function.update l.wire x (l.wire x ++ frame.toList.map Frame.bytes) }
  | .deliver x mem =>
    match l.wire x with
    | [] => none
    | bytes :: rest =>
      (h5Recv (l.port x.other mem) bytes).map fun t =>
        { l with wire := Function.update l.wire x rest }.setPort x.other t
  | .damage x i bytes =>
    if i < (l.wire x).length then
      some { l with wire := Function.update l.wire x ((l.wire x).set i bytes) }
    else none
  | .again x i =>
    (l.wire x)[i]?.map fun bytes =>
      { l with wire := Function.update l.wire x ((l.wire x).insertIdx i bytes) }
  | .lose x i => some { l with wire := Function.update l.wire x ((l.wire x).eraseIdx i) }
  | .fire x =>
    (l.driver x).fire.map fun s => { l with driver := Function.update l.driver x s }
  | .timer x =>
    if (l.driver x).firing then
      some { l with driver := Function.update l.driver x (l.driver x).timedEvent }
    else none

variable {l l' : Link} {a : Act}

theorem step_deliver {x : Side} {mem : List Bool} (hstep : step l (.deliver x mem) = some l') :
    ∃ bytes rest t, l.wire x = bytes :: rest ∧ h5Recv (l.port x.other mem) bytes = some t ∧
      l' = { l with
        wire := Function.update l.wire x rest
        rx := Function.update l.rx x.other t.rx
        driver := Function.update l.driver x.other t.s } := by
  simp only [step] at hstep
  split at hstep
  · cases hstep
  · rename_i bytes rest hwire
    obtain ⟨t, ht, rfl⟩ := Option.map_eq_some_iff.1 hstep
    exact ⟨bytes, rest, t, hwire, ht, rfl⟩

theorem step_damage {x : Side} {i : Nat} {bytes : List Byte}
    (hstep : step l (.damage x i bytes) = some l') :
    l' = { l with wire := Function.update l.wire x ((l.wire x).set i bytes) } :=
  (Option.some.inj (Option.ite_none_right_eq_some.1 hstep).2).symm

theorem step_timer {x : Side} (hstep : step l (.timer x) = some l') :
    l' = { l with driver := Function.update l.driver x (l.driver x).timedEvent } :=
  (Option.some.inj (Option.ite_none_right_eq_some.1 hstep).2).symm

/-! ## Any bytes -/

structure Well (l : Link) : Prop where
  rx : ∀ x, (l.rx x).Ok
  ok : ∀ x, (l.driver x).Ok

theorem well_init (txcrc : Side → Bool) : (init txcrc).Well :=
  ⟨fun _ => Rx.ok_init, fun x => Driver.Ok.h5Open (txcrc x)⟩

theorem Well.set_driver (h : l.Well) (z : Side) {s : Driver} (hs : s.Ok) :
    ∀ y, (Function.update l.driver z s y).Ok :=
  (Function.forall_update_iff l.driver fun _ => Driver.Ok).2 ⟨hs, fun y _ => h.ok y⟩

theorem Well.set_rx (h : l.Well) (z : Side) {r : Rx} (hr : r.Ok) :
    ∀ y, (Function.update l.rx z r y).Ok :=
  (Function.forall_update_iff l.rx fun _ => Rx.Ok).2 ⟨hr, fun y _ => h.rx y⟩

theorem well_step (h : l.Well) (hstep : step l a = some l') : l'.Well := by
  cases a with
  | enqueue z p =>
    cases hstep
    exact ⟨h.rx, h.set_driver z ((h.ok z).enqueue p)⟩
  | transmit z mem =>
    cases hstep
    exact ⟨h.rx, h.set_driver z ((h.ok z).dequeued (Driver.dequeue_spec (h.ok z) mem))⟩
  | deliver z mem =>
    obtain ⟨bytes, rest, t, _, ht, rfl⟩ := step_deliver hstep
    obtain ⟨t', ht', hok⟩ := recv_ok (P := kernel) (t := l.port z.other mem) (h.rx z.other) bytes
    cases ht.symm.trans ht'
    exact ⟨h.set_rx z.other hok, h.set_driver z.other ((h.ok z.other).recv ht)⟩
  | damage z i bytes =>
    rw [step_damage hstep]
    exact ⟨h.rx, h.ok⟩
  | again z i =>
    obtain ⟨bytes, _, rfl⟩ := Option.map_eq_some_iff.1 hstep
    exact ⟨h.rx, h.ok⟩
  | lose z i =>
    cases hstep
    exact ⟨h.rx, h.ok⟩
  | fire z =>
    obtain ⟨s, hs, rfl⟩ := Option.map_eq_some_iff.1 hstep
    exact ⟨h.rx, h.set_driver z ((h.ok z).fire hs)⟩
  | timer z =>
    rw [step_timer hstep]
    exact ⟨h.rx, h.set_driver z (h.ok z).timedEvent⟩

/-- **Window and timer.** In every state of every run, whatever bytes arrive, at most four packets
are on the way, and while there is one the timer is scheduled or has just gone off. -/
theorem window_and_timer (txcrc : Side → Bool) {acts : List Act} {l : Link}
    (hrun : Lts.exec step (init txcrc) acts = some l) (x : Side) :
    (l.driver x).unack.length ≤ txWinSize ∧
      ((l.driver x).unack ≠ [] → (l.driver x).retrans = true ∨ (l.driver x).firing = true) := by
  have h := Lts.exec_inv (I := Well) (fun _ _ _ h hst => well_step h hst) (well_init txcrc) hrun
  exact ⟨(h.ok x).window, (h.ok x).timer⟩

def reset : Pkt := ⟨.command, [0x03, 0x0c, 0x00]⟩

/-- The timer has gone off while noise answers a command. -/
def noisy : List Act :=
  [.enqueue .host reset, .transmit .host [], .enqueue .card reset, .transmit .card [],
    .damage .card 0 [0xc0, 0x55, 0xc0], .deliver .card [], .fire .host]

theorem window_and_timer_noisy : ∃ l, Lts.exec step (init fun _ => true) noisy = some l ∧
    (l.driver .host).unack ≠ [] ∧ ((l.driver .host).retrans = true ∨
      (l.driver .host).firing = true) := by
  have hrun : (Lts.exec step (init fun _ => true) noisy).map
      (fun l => (l.driver .host).unack.isEmpty) = some false := by decide +kernel
  obtain ⟨l, hl, hne⟩ := Option.map_eq_some_iff.1 hrun
  have hne : (l.driver .host).unack ≠ [] := by
    intro he
    rw [he] at hne
    cases hne
  exact ⟨l, hl, hne, (window_and_timer _ hl .host).2 hne⟩

/-! ## Damage that is seen -/

/-- A frame is damaged in a way its checks see. -/
def Act.Seen (l : Link) : Act → Prop
  | .damage x i bytes => ∃ f w, (l.wire x)[i]? = some (Frame.bytes f) ∧ f.Damaged w ∧
    bytes = slipMsgdelim :: (w ++ [slipMsgdelim])
  | _ => True

end Link

/-- The intact frames among the bytes on a line. -/
inductive Wire : List (List Byte) → List Frame → Prop where
  | nil : Wire [] []
  | frame (f : Frame) {ws : List (List Byte)} {fs : List Frame} (h : Wire ws fs) :
    Wire (f.bytes :: ws) (f :: fs)
  | damaged {f : Frame} {w : List Byte} (hd : f.Damaged w) {ws : List (List Byte)}
    {fs : List Frame} (h : Wire ws fs) : Wire ((slipMsgdelim :: (w ++ [slipMsgdelim])) :: ws) fs

namespace Wire

variable {ws ws' : List (List Byte)} {fs : List Frame}

theorem append (h : Wire ws fs) (o : Option Frame) :
    Wire (ws ++ o.toList.map Frame.bytes) (fs ++ o.toList) := by
  induction h with
  | nil =>
    cases o with
    | none => exact .nil
    | some f => exact .frame f .nil
  | frame f _ ih => exact .frame f ih
  | damaged hd _ ih => exact .damaged hd ih

theorem passes (h : Wire ws fs) (hp : GoBackN.Passes ws ws') :
    ∃ fs', GoBackN.Passes fs fs' ∧ Wire ws' fs' := by
  induction hp generalizing fs with
  | nil => exact ⟨fs, .refl fs, h⟩
  | lost w _ ih =>
    cases h with
    | frame f h =>
      obtain ⟨fs', hp, hw⟩ := ih h
      exact ⟨fs', .lost f hp, hw⟩
    | damaged hd h => exact ih h
  | copy w _ ih =>
    obtain ⟨fs', hp, hw⟩ := ih h
    cases h with
    | frame f h => exact ⟨f :: fs', .copy f hp, .frame f hw⟩
    | damaged hd h => exact ⟨fs', hp, .damaged hd hw⟩

theorem set (h : Wire ws fs) {f : Frame} {w : List Byte} (hd : f.Damaged w) (i : Nat) :
    ∃ fs', GoBackN.Passes fs fs' ∧
      Wire (ws.set i (slipMsgdelim :: (w ++ [slipMsgdelim]))) fs' := by
  induction h generalizing i with
  | nil => exact ⟨[], .nil, .nil⟩
  | @frame g ws fs h ih =>
    cases i with
    | zero => exact ⟨fs, .lost g (.refl fs), .damaged hd h⟩
    | succ i =>
      obtain ⟨fs', hp, hw⟩ := ih i
      exact ⟨g :: fs', hp.keep g, .frame g hw⟩
  | @damaged g v hg ws fs h ih =>
    cases i with
    | zero => exact ⟨fs, .refl fs, .damaged hd h⟩
    | succ i =>
      obtain ⟨fs', hp, hw⟩ := ih i
      exact ⟨fs', hp, .damaged hg hw⟩

end Wire

namespace Link

/-- The link as an exchange of the frames `line`. -/
def view (l : Link) (line : Side → List Frame) : Exchange := ⟨l.driver, line, l.sent⟩

/-- The receivers are between packets, and `line` are the frames that are intact. -/
structure Shows (l : Link) (line : Side → List Frame) : Prop where
  between : ∀ x, (l.rx x).Between
  wire : ∀ x, Wire (l.wire x) (line x)

variable {l l' : Link} {a : Act} {line : Side → List Frame}

theorem Shows.set_wire (h : l.Shows line) (x : Side) {ws : List (List Byte)} {fs : List Frame}
    (hw : Wire ws fs) (y : Side) :
    Wire (Function.update l.wire x ws y) (Function.update line x fs y) := by
  by_cases hy : y = x
  · rw [hy, Function.update_self, Function.update_self]
    exact hw
  · rw [Function.update_of_ne hy, Function.update_of_ne hy]
    exact h.wire y

theorem Shows.set_rx (h : l.Shows line) (x : Side) {r : Rx} (hr : r.Between) :
    ∀ y, (Function.update l.rx x r y).Between :=
  (Function.forall_update_iff l.rx fun _ => Rx.Between).2 ⟨hr, fun y _ => h.between y⟩

theorem view_line (h : l.Shows line) (x : Side) {ws : List (List Byte)}
    (hws : ∃ fs, GoBackN.Passes (line x) fs ∧ Wire ws fs) :
    ∃ line', Shows { l with wire := Function.update l.wire x ws } line' ∧
      Relation.ReflGen Exchange.Step (l.view line)
        (view { l with wire := Function.update l.wire x ws } line') := by
  obtain ⟨fs, hp, hw⟩ := hws
  exact ⟨Function.update line x fs, ⟨h.between, h.set_wire x hw⟩,
    .single (.line (l.view line) x fs hp)⟩

/-- The oldest bytes from `x` arrive: a frame, which is received unless there is no memory for it,
or a damaged one, which is refused. -/
theorem view_deliver (h : l.Shows line) {x : Side} {mem : List Bool}
    (hstep : step l (.deliver x mem) = some l') :
    ∃ line', l'.Shows line' ∧ Relation.ReflGen Exchange.Step (l.view line) (l'.view line') := by
  obtain ⟨bytes, rest, t, hwire, ht, rfl⟩ := step_deliver hstep
  have hx := h.wire x
  rw [hwire] at hx
  generalize hline : line x = fs at hx
  cases hx with
  | @frame f _ fs hrest =>
    obtain ⟨t', ht', hb, hs⟩ := recv_frame (P := kernel) (t := l.port x.other mem)
      (h.between x.other) f
    cases ht.symm.trans ht'
    refine ⟨Function.update line x fs, ⟨h.set_rx x.other hb, h.set_wire x hrest⟩, .single ?_⟩
    split at hs
    · have hlost := Exchange.Step.line (l.view line) x fs
        (show GoBackN.Passes (line x) fs from hline ▸ .lost f (.refl fs))
      show Exchange.Step _ ⟨Function.update l.driver x.other t.s, _, _⟩
      rw [hs]
      show Exchange.Step _ ⟨Function.update l.driver x.other (l.driver x.other), _, _⟩
      rwa [Function.update_eq_self]
    · show Exchange.Step _ ⟨Function.update l.driver x.other t.s, _, _⟩
      rw [hs]
      exact .deliver (l.view line) x f fs hline
  | @damaged f w hd _ _ hrest =>
    obtain ⟨t', ht', hb, hs⟩ := (hd.reads (P := kernel)).enclosed hd.exists_cons
      (t := l.port x.other mem) (h.between x.other)
    cases ht.symm.trans ht'
    have hidle : (l.driver x.other).Idles t.s := by
      split at hs
      · rw [hs]
        rfl
      · rcases hs with hs | hs <;> rw [hs] <;> rfl
    refine ⟨line, ⟨h.set_rx x.other hb, fun y => ?_⟩,
      .single (.idle (l.view line) x.other t.s hidle)⟩
    have hset := h.set_wire x hrest y
    rwa [← hline, Function.update_eq_self] at hset

/-- **Refinement.** A step of the link is at most one step of the exchange. -/
theorem view_step (h : l.Shows line) (hseen : a.Seen l) (hstep : step l a = some l') :
    ∃ line', l'.Shows line' ∧ Relation.ReflGen Exchange.Step (l.view line) (l'.view line') := by
  cases a with
  | enqueue z p =>
    cases hstep
    exact ⟨line, ⟨h.between, h.wire⟩, .single (.enqueue (l.view line) z p)⟩
  | transmit z mem =>
    cases hstep
    refine ⟨Function.update line z (line z ++ ((l.driver z).dequeue mem).1.toList),
      ⟨h.between, h.set_wire z ((h.wire z).append _)⟩, .single (.transmit (l.view line) z mem)⟩
  | deliver z mem => exact view_deliver h hstep
  | damage z i bytes =>
    obtain ⟨f, w, _, hd, rfl⟩ := hseen
    rw [step_damage hstep]
    exact view_line h z ((h.wire z).set hd i)
  | again z i =>
    obtain ⟨bytes, hi, rfl⟩ := Option.map_eq_some_iff.1 hstep
    exact view_line h z ((h.wire z).passes (.again hi))
  | lose z i =>
    cases hstep
    exact view_line h z ((h.wire z).passes (.of_sublist (List.eraseIdx_sublist _ _)))
  | fire z =>
    obtain ⟨s, hs, rfl⟩ := Option.map_eq_some_iff.1 hstep
    have hidle : (l.driver z).Idles s := by
      rw [Driver.fire_some hs]
      rfl
    exact ⟨line, ⟨h.between, h.wire⟩, .single (.idle (l.view line) z s hidle)⟩
  | timer z =>
    rw [step_timer hstep]
    exact ⟨line, ⟨h.between, h.wire⟩, .single (.timer (l.view line) z)⟩

/-! ## Runs -/

/-- What every state of a run has when damage is seen: each direction of the exchange it shows is a
state of the sliding window protocol. -/
structure Good (l : Link) : Prop where
  well : l.Well
  sim : ∃ line, l.Shows line ∧ ∀ x, ∃ g, Exchange.Moves GoBackN.State.init g ∧
    Exchange.Sim x (l.view line) g

theorem good_init (txcrc : Side → Bool) : (init txcrc).Good where
  well := well_init txcrc
  sim := ⟨fun _ => [], ⟨fun _ => ⟨Rx.ok_init, .inl rfl⟩, fun _ => .nil⟩, fun x =>
    ⟨_, .refl, Exchange.sim_init txcrc x⟩⟩

theorem good_step (h : l.Good) (hseen : a.Seen l) (hstep : step l a = some l') : l'.Good := by
  obtain ⟨line, hshows, hsim⟩ := h.sim
  obtain ⟨line', hshows', hview⟩ := view_step hshows hseen hstep
  refine ⟨well_step h.well hstep, line', hshows', fun x => ?_⟩
  obtain ⟨g, hg, hx⟩ := hsim x
  rcases (Relation.reflGen_iff ..).1 hview with heq | hst
  · exact ⟨g, hg, heq ▸ hx⟩
  · obtain ⟨g', hg', hx'⟩ := Exchange.sim_step hx h.well.ok hst
    exact ⟨g', hg.trans hg', hx'⟩

/-- The direction from `x` as a sliding window protocol, without what is on the line. -/
structure Agrees (x : Side) (l : Link) (g : GoBackN.State Pkt) : Prop where
  inv : GoBackN.Inv txWinSize g
  sent : g.sent = l.sent x
  unack : (l.driver x).unack.map (·.toPkt) = g.unacked
  length : (l.driver x).unack.length = g.next - g.base
  rel : (l.driver x).rel.map (·.toPkt) = g.queued
  txseq : (l.driver x).msgqTxseq = num g.next
  rxseq : (l.driver x.other).rxseqTxack = num g.expect
  received : (l.driver x.other).received = g.delivered

theorem Good.agrees (h : l.Good) (x : Side) : ∃ g, Agrees x l g := by
  obtain ⟨line, _, hsim⟩ := h.sim
  obtain ⟨g, _, hg⟩ := hsim x
  exact ⟨g, hg.inv, hg.sent, hg.unack, hg.unack_length, hg.rel, hg.txseq, hg.rxseq, hg.received⟩

theorem good_run (txcrc : Side → Bool) {acts : List Act}
    (hrun : Lts.exec step (init txcrc) acts = some l)
    (hseen : Lts.Along step (fun l a => a.Seen l) (init txcrc) acts) : l.Good :=
  Lts.exec_inv_along (fun _ _ _ h hC hst => good_step h hC hst) (good_init txcrc) hseen hrun

/-- **Delivery.** In every state of every run, whatever was lost or came again, and whatever was
damaged in a way that is seen: the other end has passed up a prefix of the reliable packets `x`
accepted, each once and in order; and every packet it has not passed up yet is still in a queue of
`x`. -/
theorem delivered_in_order (txcrc : Side → Bool) {acts : List Act} {l : Link}
    (hrun : Lts.exec step (init txcrc) acts = some l)
    (hseen : Lts.Along step (fun l a => a.Seen l) (init txcrc) acts) (x : Side) :
    (l.driver x.other).received <+: l.sent x ∧
    ∃ acked, acked <+: (l.driver x.other).received ∧
      l.sent x = acked ++ ((l.driver x).unack ++ (l.driver x).rel).map (·.toPkt) := by
  obtain ⟨g, h⟩ := (good_run txcrc hrun hseen).agrees x
  rw [h.received, ← h.sent]
  refine ⟨List.take_prefix _ _, g.sent.take g.base, ?_, ?_⟩
  · exact List.take_prefix_take_left h.inv.base_expect
  · rw [List.map_append, h.unack, h.rel, h.inv.unacked_append_queued]
    exact (List.take_append_drop _ _).symm

def resetFrame : Frame := ⟨0, some 0, true, 1, reset.data, by decide⟩

/-- The bytes of its payload with one bit wrong. -/
def flipped : List Byte :=
  slip resetFrame.header.bytes ++ ([0x03, 0x0d, 0x00] ++ slip resetFrame.check)

/-- A command is damaged on its way. -/
def refused : List Act :=
  [.enqueue .host reset, .transmit .host []] ++
    [.damage .host 0 (slipMsgdelim :: (flipped ++ [slipMsgdelim])), .deliver .host []]

/-- It is repeated after a while, and arrives twice. -/
def rough : List Act :=
  refused ++ [.fire .host, .timer .host, .transmit .host [], .again .host 0, .deliver .host [],
    .deliver .host []]

theorem flipped_damaged : resetFrame.Damaged flipped :=
  .payload rfl (d := [0x03, 0x0d, 0x00]) rfl
    ⟨Crc.bitsOf (0x03#8 : Byte), [false], [true],
      [false, true, true, false, false, false, false] ++ Crc.bitsOf (0x00#8 : Byte), by decide,
      by decide, rfl, by decide, by decide⟩

theorem refused_seen : Lts.Along step (fun l a => a.Seen l) (init fun _ => true) refused := by
  have hrun : (Lts.exec step (init fun _ => true)
      [.enqueue .host reset, .transmit .host []]).map (fun l => (l.wire .host)[0]?) =
        some (some resetFrame.bytes) := by decide +kernel
  obtain ⟨l, hl, hwire⟩ := Option.map_eq_some_iff.1 hrun
  refine (Lts.along_append hl).2 ⟨⟨trivial, fun _ _ => ⟨trivial, fun _ _ => trivial⟩⟩, ?_⟩
  exact ⟨⟨resetFrame, flipped, hwire, flipped_damaged, rfl⟩, fun _ _ =>
    ⟨trivial, fun _ _ => trivial⟩⟩

theorem rough_seen : Lts.Along step (fun l a => a.Seen l) (init fun _ => true) rough := by
  have hrun : (Lts.exec step (init fun _ => true) refused).isSome := by decide +kernel
  obtain ⟨l, hl⟩ := Option.isSome_iff_exists.1 hrun
  refine (Lts.along_append hl).2 ⟨refused_seen, ?_⟩
  refine (Lts.Along.of_forall (C := fun a : Act => ∀ l : Link, a.Seen l) ?_ l).mono
    fun l a ha => ha l
  simp [Act.Seen]

theorem delivered_in_order_rough : ∃ l, Lts.exec step (init fun _ => true) rough = some l ∧
    (l.driver .card).received.length = 1 ∧ (l.driver .card).received <+: l.sent .host := by
  have hrun : (Lts.exec step (init fun _ => true) rough).map
      (fun l => (l.driver .card).received.length) = some 1 := by decide +kernel
  obtain ⟨l, hl, hlen⟩ := Option.map_eq_some_iff.1 hrun
  exact ⟨l, hl, hlen, (delivered_in_order _ hl rough_seen .host).1⟩

end Link

end Bluetooth.H5
