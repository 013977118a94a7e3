import BrExternal.Bluetooth.Driver
import BrExternal.Lib.Lts

/-!
# The transmit work of the line discipline

`hci_uart_tx_wakeup` may run in any number of threads at once, and while `hci_uart_write_work`
runs. Two bits of `tx_state` are all they share: a caller sets `TX_WAKEUP` and schedules the work if
it is the one to set `SENDING`; the work clears `TX_WAKEUP` before it looks at the queue and
`SENDING` after it, and starts again when `TX_WAKEUP` was set in between. Every bit operation is a
step of its own here.

Behind it is the three-wire protocol, `H5.Driver`, and whatever changes what it has to send goes on
to `hci_uart_tx_wakeup`. In front of it is the tty, whose `write` may take a part of a frame or
nothing, or return an error, and takes no more than it is given.
-/

namespace Bluetooth.Ldisc

open H5 (Driver Frame Rx Pkt)

/-- Where `hci_uart_write_work` is. -/
inductive Work where
  | idle
  /-- At `restart`, before `TX_WAKEUP` is cleared. -/
  | restart
  /-- At the head of the loop. -/
  | dequeue
  /-- With a buffer, before `TTY_DO_WRITE_WAKEUP` is set. -/
  | flag (skb : List Byte)
  /-- Before the buffer is written. -/
  | write (skb : List Byte)
  /-- Behind the loop, before `SENDING` is cleared. -/
  | done
  /-- Before `TX_WAKEUP` is tested. -/
  | test
  deriving DecidableEq, Repr

/-- A frame the work took from the protocol: all of it, or the first `n` bytes when
`hci_uart_flush` freed the rest. -/
inductive Taken where
  | whole (f : Frame)
  | cut (f : Frame) (n : Nat)

namespace Taken

def bytes : Taken → List Byte
  | whole f => f.bytes
  | cut f n => f.bytes.take n

def cutLast (n : Nat) (ts : List Taken) : List Taken :=
  match ts.getLast? with
  | some (whole f) => ts.dropLast ++ [cut f (f.bytes.length - n)]
  | _ => ts

end Taken

/-- The line discipline, its protocol and its tty, and the threads in `hci_uart_tx_wakeup` and
`hci_uart_tty_wakeup`. -/
structure Uart where
  rx : Rx
  proto : Driver
  txSkb : Option (List Byte)
  sending : Bool
  wakeup : Bool
  /-- `write_work` is queued. -/
  pending : Bool
  work : Work
  /-- Callers that have not set `TX_WAKEUP` yet. -/
  calling : Nat
  /-- Callers that have not tested `SENDING` yet. -/
  testing : Nat
  /-- Callers that found `SENDING` clear and have not scheduled the work yet. -/
  scheduling : Nat
  /-- `TTY_DO_WRITE_WAKEUP`. -/
  doWriteWakeup : Bool
  /-- Calls of `hci_uart_tty_wakeup` that have not cleared the flag yet. -/
  waking : Nat
  /-- The last write took less than it was given, and the tty has not called since. -/
  short : Bool
  /-- An allocation failed when the work last asked the protocol for a frame. -/
  noMem : Bool
  /-- The bytes the tty took. -/
  out : List Byte
  /-- The frames taken from the protocol. -/
  taken : List Taken

namespace Uart

def init (txcrc : Bool) : Uart where
  rx := Rx.init
  proto := H5.h5Open txcrc
  txSkb := none
  sending := false
  wakeup := false
  pending := false
  work := .idle
  calling := 0
  testing := 0
  scheduling := 0
  doWriteWakeup := false
  waking := 0
  short := false
  noMem := false
  out := []
  taken := []

inductive Act where
  /-- `hci_uart_send_frame`, up to its call of `hci_uart_tx_wakeup`. -/
  | enqueue (p : Pkt)
  /-- `hci_uart_tty_receive`. -/
  | receive (bytes : List Byte) (mem : List Bool)
  /-- `retrans_work` starts. -/
  | fire
  /-- `h5_timed_event`, up to its call. -/
  | timer
  | setWakeup
  | testSending
  | schedule
  /-- The queued work starts. -/
  | run
  /-- The work makes its next step, other than a write. -/
  | work (mem : List Bool)
  /-- `tty->ops->write` returns `len`. -/
  | write (len : Int)
  /-- The tty layer can take more, and tests `TTY_DO_WRITE_WAKEUP`. -/
  | ttyTest
  /-- `hci_uart_tty_wakeup` clears it. -/
  | ttyClear
  /-- `hci_uart_flush`. -/
  | flush

/-- The steps of `hci_uart_write_work`, with `hci_uart_dequeue`. -/
def workStep (u : Uart) (mem : List Bool) : Option Uart :=
  match u.work with
  | .idle | .write _ => none
  | .restart => some { u with wakeup := false, work := .dequeue }
  | .dequeue =>
    match u.txSkb with
    | some skb => some { u with txSkb := none, work := .flag skb }
    | none =>
      match u.proto.dequeue mem with
      | (some f, s) =>
        some { u with
          proto := s, noMem := mem.contains false, work := .flag f.bytes
          taken := u.taken ++ [.whole f] }
      | (none, s) => some { u with proto := s, noMem := mem.contains false, work := .done }
  | .flag skb => some { u with doWriteWakeup := true, work := .write skb }
  | .done => some { u with sending := false, work := .test }
  | .test => some { u with work := if u.wakeup then .restart else .idle }

/-- The write itself. `skb_pull` leaves the buffer as it is when `len` is an error. -/
def writeStep (u : Uart) (len : Int) : Option Uart :=
  match u.work with
  | .write skb =>
    if (skb.length : Int) < len then none
    else
      let u := { u with
        out := u.out ++ skb.take len.toNat, short := skb.drop len.toNat != [] }
      if skb.drop len.toNat ≠ [] then
        some { u with txSkb := some (skb.drop len.toNat), work := .done }
      else some { u with work := .dequeue }
  | _ => none

def step (u : Uart) : Act → Option Uart
  | .enqueue p => some { u with proto := u.proto.enqueue p, calling := u.calling + 1 }
  | .receive bytes mem =>
    (H5.h5Recv ⟨u.rx, mem, u.proto⟩ bytes).map fun t =>
      { u with
        rx := t.rx, proto := t.s, calling := u.calling + (t.s.wakeups - u.proto.wakeups) }
  | .fire => u.proto.fire.map fun s => { u with proto := s }
  | .timer =>
    if u.proto.firing then some { u with proto := u.proto.timedEvent, calling := u.calling + 1 }
    else none
  | .setWakeup =>
    if u.calling = 0 then none
    else some { u with calling := u.calling - 1, wakeup := true, testing := u.testing + 1 }
  | .testSending =>
    if u.testing = 0 then none
    else if u.sending then some { u with testing := u.testing - 1 }
    else some { u with
      testing := u.testing - 1, sending := true, scheduling := u.scheduling + 1 }
  | .schedule =>
    if u.scheduling = 0 then none
    else some { u with scheduling := u.scheduling - 1, pending := true }
  | .run =>
    if u.pending ∧ u.work = .idle then some { u with pending := false, work := .restart } else none
  | .work mem => u.workStep mem
  | .write len => u.writeStep len
  | .ttyTest =>
    some { u with
      short := false, waking := if u.doWriteWakeup then u.waking + 1 else u.waking }
  | .ttyClear =>
    if u.waking = 0 then none
    else some { u with
      waking := u.waking - 1, doWriteWakeup := false, calling := u.calling + 1 }
  | .flush =>
    match u.txSkb with
    | some skb => some { u with txSkb := none, taken := Taken.cutLast skb.length u.taken }
    | none => some u

end Uart

/-! ## Wakeups -/

namespace Work

/-- The work will still clear `SENDING`. -/
def ClearsSending (w : Work) : Prop := w ≠ .idle ∧ w ≠ .test

/-- The work will still look at the queue. -/
def Looks : Work → Prop
  | .restart | .dequeue | .flag _ | .write _ => True
  | _ => False

theorem Looks.clears {w : Work} (h : w.Looks) : w.ClearsSending := by
  cases w <;> first | exact h.elim | exact ⟨by simp, by simp⟩

end Work

namespace Uart

/-- Something announces that there is work: a caller on its way, or the bit it left. -/
def Announced (u : Uart) : Prop := 0 < u.calling ∨ u.wakeup = true

/-- The next call of the tty leads to one, or a call of the tty has got that far. -/
def Awaited (u : Uart) : Prop := u.doWriteWakeup = true ∧ u.short = true ∨ 0 < u.waking

def Left (u : Uart) : Prop := u.txSkb ≠ none ∨ u.proto.Ready

structure Inv (u : Uart) : Prop where
  rx : u.rx.Ok
  proto : u.proto.Ok
  /-- Whoever set `SENDING` gets the work to run. -/
  sending : u.sending = true →
    u.pending = true ∨ 0 < u.scheduling ∨ u.work.ClearsSending
  /-- `TX_WAKEUP` does not stay behind. -/
  wakeup : u.wakeup = true →
    0 < u.testing ∨ 0 < u.scheduling ∨ u.pending = true ∨ u.work ≠ .idle
  /-- What is left is seen. -/
  left : u.Left → u.Announced ∨ u.Awaited ∨ u.work.Looks ∨ u.txSkb = none ∧ u.noMem = true
  writing : ∀ b, u.work = .write b → u.doWriteWakeup = true ∨ u.Announced

variable {u u' : Uart}

theorem inv_init (txcrc : Bool) : (init txcrc).Inv where
  rx := Rx.ok_init
  proto := Driver.Ok.h5Open txcrc
  sending := by simp [init]
  wakeup := by simp [init]
  left := by simp [init, Left, Driver.Ready, H5.h5Open]
  writing := by simp [init]

/-- While the work looks at the queue nothing else matters. -/
theorem Inv.of_looks (hw : u.work.Looks) (rx : u.rx.Ok) (proto : u.proto.Ok)
    (writing : ∀ b, u.work = .write b → u.doWriteWakeup = true ∨ u.Announced) : u.Inv where
  rx := rx
  proto := proto
  sending := fun _ => .inr (.inr hw.clears)
  wakeup := fun _ => .inr (.inr (.inr hw.clears.1))
  left := fun _ => .inr (.inr (.inl hw))
  writing := writing

/-- Nor while a caller is on its way. -/
theorem Inv.of_announced (hann : u.Announced) (rx : u.rx.Ok) (proto : u.proto.Ok)
    (sending : u.sending = true → u.pending = true ∨ 0 < u.scheduling ∨ u.work.ClearsSending)
    (wakeup : u.wakeup = true →
      0 < u.testing ∨ 0 < u.scheduling ∨ u.pending = true ∨ u.work ≠ .idle) : u.Inv where
  rx := rx
  proto := proto
  sending := sending
  wakeup := wakeup
  left := fun _ => .inl hann
  writing := fun _ _ => .inr hann

/-- The head of the loop: the rest of a frame, the next frame, or nothing more. Without a frame the
protocol had nothing to send, or no memory. -/
theorem inv_dequeue (h : u.Inv) (hw : u.work = .dequeue) {mem : List Bool}
    (hstep : u.workStep mem = some u') : u'.Inv := by
  cases htx : u.txSkb with
  | some skb =>
    simp only [workStep, hw, htx, Option.some.injEq] at hstep
    subst hstep
    exact .of_looks trivial h.rx h.proto (by simp)
  | none =>
    simp only [workStep, hw, htx] at hstep
    have hspec := Driver.dequeue_spec h.proto mem
    split at hstep
    · rename_i f s hd
      rw [hd] at hspec
      cases hstep
      exact .of_looks trivial h.rx (h.proto.dequeued hspec) (by simp)
    · rename_i s hd
      have hnone := congrArg Prod.fst hd
      rw [hd] at hspec
      cases hstep
      cases hspec
      refine { h with
        sending := fun _ => .inr (.inr ⟨by simp, by simp⟩)
        wakeup := fun _ => .inr (.inr (.inr (by simp)))
        left := fun hleft => .inr (.inr (.inr ⟨rfl, ?_⟩))
        writing := by simp }
      have hready : u.proto.Ready := hleft.resolve_left fun hne => hne rfl
      by_contra hmem
      exact Driver.dequeue_ready (by simpa using hmem) h.proto hready hnone

/-- What is not written is kept; then the tty owes a call, and will find the flag set unless a
caller is on its way already. -/
theorem inv_write (h : u.Inv) {len : Int} (hstep : u.writeStep len = some u') : u'.Inv := by
  unfold writeStep at hstep
  split at hstep
  case h_2 => cases hstep
  rename_i skb hw
  split at hstep
  · cases hstep
  dsimp only at hstep
  split at hstep
  · rename_i hrest
    cases hstep
    refine { h with
      sending := fun _ => .inr (.inr ⟨by simp, by simp⟩)
      wakeup := fun _ => .inr (.inr (.inr (by simp)))
      left := fun _ => ?_
      writing := by simp }
    rcases h.writing skb hw with hflag | hann
    · exact .inr (.inl (.inl ⟨hflag, by simpa using hrest⟩))
    · exact .inl hann
  · cases hstep
    exact .of_looks trivial h.rx h.proto (by simp)

theorem inv_workStep (h : u.Inv) {mem : List Bool} (hstep : u.workStep mem = some u') :
    u'.Inv := by
  have hleft := h.left
  cases hw : u.work with
  | dequeue => exact inv_dequeue h hw hstep
  | idle => simp [workStep, hw] at hstep
  | write skb => simp [workStep, hw] at hstep
  | restart =>
    simp only [workStep, hw, Option.some.injEq] at hstep
    subst hstep
    exact .of_looks trivial h.rx h.proto (by simp)
  | flag skb =>
    simp only [workStep, hw, Option.some.injEq] at hstep
    subst hstep
    exact .of_looks trivial h.rx h.proto fun _ _ => .inl rfl
  | done =>
    simp only [workStep, hw, Option.some.injEq] at hstep
    subst hstep
    simp only [hw, Work.Looks, false_or] at hleft
    exact { h with
      sending := by simp
      wakeup := fun _ => .inr (.inr (.inr (by simp)))
      left := fun hl => (hleft hl).imp_right fun h => h.imp_right .inr
      writing := by simp }
  | test =>
    simp only [workStep, hw, Option.some.injEq] at hstep
    subst hstep
    by_cases hwake : u.wakeup = true
    · rw [if_pos hwake]
      exact .of_looks trivial h.rx h.proto (by simp)
    · rw [if_neg hwake]
      simp only [hw, Work.Looks, false_or] at hleft
      exact { h with
        sending := fun hs => by simpa [hw, Work.ClearsSending] using h.sending hs
        wakeup := fun hw' => absurd hw' hwake
        left := fun hl => (hleft hl).imp_right fun h => h.imp_right .inr
        writing := by simp }

/-- The three steps of a caller. The second relies on whoever set `SENDING`. -/
theorem inv_caller {a : Act} (h : u.Inv) (ha : a = .setWakeup ∨ a = .testSending ∨ a = .schedule)
    (hstep : step u a = some u') : u'.Inv := by
  rcases ha with rfl | rfl | rfl
  · obtain ⟨_, hstep⟩ := Option.ite_none_left_eq_some.1 hstep
    cases hstep
    exact .of_announced (.inr rfl) h.rx h.proto h.sending fun _ => .inl (Nat.succ_pos _)
  · obtain ⟨_, hstep⟩ := Option.ite_none_left_eq_some.1 hstep
    split at hstep
    · rename_i hsend
      cases hstep
      refine { h with wakeup := fun _ => .inr ?_ }
      rcases h.sending hsend with hp | hs | hc
      · exact .inr (.inl hp)
      · exact .inl hs
      · exact .inr (.inr hc.1)
    · cases hstep
      exact { h with
        sending := fun _ => .inr (.inl (Nat.succ_pos _))
        wakeup := fun _ => .inr (.inl (Nat.succ_pos _)) }
  · obtain ⟨_, hstep⟩ := Option.ite_none_left_eq_some.1 hstep
    cases hstep
    exact { h with
      sending := fun _ => .inl rfl
      wakeup := fun _ => .inr (.inr (.inl rfl)) }

theorem inv_receive (h : u.Inv) {bytes : List Byte} {mem : List Bool}
    (hstep : step u (.receive bytes mem) = some u') : u'.Inv := by
  obtain ⟨t, ht, rfl⟩ := Option.map_eq_some_iff.1 hstep
  obtain ⟨t', ht', hrx⟩ := H5.recv_ok (P := H5.kernel) (t := ⟨u.rx, mem, u.proto⟩) h.rx bytes
  cases ht.symm.trans ht'
  have hwakes : u.proto.Wakes t.s :=
    H5.recv_keeps (Driver.wakes_packets u.proto).1 (Driver.wakes_packets u.proto).2 ht (.inl rfl)
  rcases hwakes with hs | hlt
  · rw [hs, Nat.sub_self]
    exact { h with rx := hrx }
  · have hok := Driver.Ok.recv (t := ⟨u.rx, mem, u.proto⟩) h.proto ht
    exact .of_announced (.inl (Nat.add_pos_right _ (Nat.sub_pos_of_lt hlt))) hrx hok h.sending
      h.wakeup

theorem inv_step {a : Act} (h : u.Inv) (hstep : step u a = some u') : u'.Inv := by
  cases a with
  | setWakeup => exact inv_caller h (.inl rfl) hstep
  | testSending => exact inv_caller h (.inr (.inl rfl)) hstep
  | schedule => exact inv_caller h (.inr (.inr rfl)) hstep
  | work mem => exact inv_workStep h hstep
  | write len => exact inv_write h hstep
  | receive bytes mem => exact inv_receive h hstep
  | enqueue p =>
    cases hstep
    exact .of_announced (.inl (Nat.succ_pos _)) h.rx (h.proto.enqueue p) h.sending h.wakeup
  | fire =>
    obtain ⟨s, hs, rfl⟩ := Option.map_eq_some_iff.1 hstep
    have hready : s.Ready → u.proto.Ready := by
      rw [Driver.fire_some hs]
      exact id
    exact { h with
      proto := h.proto.fire hs
      left := fun hl => h.left (hl.imp_right hready) }
  | timer =>
    obtain ⟨_, hstep⟩ := Option.ite_none_right_eq_some.1 hstep
    cases hstep
    exact .of_announced (.inl (Nat.succ_pos _)) h.rx h.proto.timedEvent h.sending h.wakeup
  | run =>
    obtain ⟨_, hstep⟩ := Option.ite_none_right_eq_some.1 hstep
    cases hstep
    exact .of_looks trivial h.rx h.proto (by simp)
  | ttyTest =>
    cases hstep
    by_cases hflag : u.doWriteWakeup = true
    · rw [if_pos hflag]
      exact { h with
        left := fun hl => (h.left hl).imp_right fun h =>
          h.imp_left fun _ => .inr (Nat.succ_pos _) }
    · rw [if_neg hflag]
      exact { h with
        left := fun hl => (h.left hl).imp_right fun h =>
          h.imp_left fun ha => .inr (ha.resolve_left fun hf => hflag hf.1) }
  | ttyClear =>
    obtain ⟨_, hstep⟩ := Option.ite_none_left_eq_some.1 hstep
    cases hstep
    exact .of_announced (.inl (Nat.succ_pos _)) h.rx h.proto h.sending h.wakeup
  | flush =>
    simp only [step] at hstep
    split at hstep
    · cases hstep
      refine { h with left := fun hl => ?_ }
      have hready : u.proto.Ready := hl.resolve_left fun hne => hne rfl
      exact (h.left (.inr hready)).imp_right fun h => h.imp_right fun h => h.imp_right fun h =>
        ⟨rfl, h.2⟩
    · cases hstep
      exact h

/-- Nobody is in the middle of anything. -/
structure Quiet (u : Uart) : Prop where
  work : u.work = .idle
  pending : u.pending = false
  calling : u.calling = 0
  testing : u.testing = 0
  scheduling : u.scheduling = 0
  waking : u.waking = 0

/-- **No wakeup is lost.** However callers, the work, the tty and the protocol interleave, when
everything has come to rest no frame is half written and the protocol has nothing it may send; or
the tty took only a part of a frame and has not called since, and its next call will wake the work;
or the work found no memory for the frame. -/
theorem no_frame_left (txcrc : Bool) {acts : List Act} {u : Uart}
    (hrun : Lts.exec step (init txcrc) acts = some u) (hq : u.Quiet) :
    (u.txSkb = none ∧ ¬ u.proto.Ready) ∨ (u.short = true ∧ u.doWriteWakeup = true) ∨
      (u.txSkb = none ∧ u.noMem = true) := by
  have h := Lts.exec_inv (I := Inv) (fun _ _ _ hi hst => inv_step hi hst) (inv_init txcrc) hrun
  have hwake : u.wakeup = false := by
    cases hw : u.wakeup with
    | false => rfl
    | true =>
      have := h.wakeup hw
      simp [hq.work, hq.pending, hq.testing, hq.scheduling] at this
  have hann : ¬ u.Announced := by simp [Announced, hq.calling, hwake]
  by_cases hl : u.Left
  · rcases (h.left hl).resolve_left hann with ha | hlooks | hmem
    · have hw : ¬ 0 < u.waking := by simp [hq.waking]
      exact .inr (.inl (ha.resolve_right hw).symm)
    · rw [hq.work] at hlooks
      exact hlooks.elim
    · exact .inr (.inr hmem)
  · exact .inl (by simpa [Left] using hl)

instance (u : Uart) : Decidable u.Quiet :=
  decidable_of_iff (u.work = .idle ∧ u.pending = false ∧ u.calling = 0 ∧ u.testing = 0 ∧
      u.scheduling = 0 ∧ u.waking = 0)
    ⟨fun ⟨h1, h2, h3, h4, h5, h6⟩ => ⟨h1, h2, h3, h4, h5, h6⟩,
      fun h => ⟨h.work, h.pending, h.calling, h.testing, h.scheduling, h.waking⟩⟩

/-- A command is queued, and the tty takes two bytes of its frame. -/
def halfSent : List Act :=
  [.enqueue ⟨.command, [0x03, 0x0c, 0x00]⟩, .setWakeup, .testSending, .schedule, .run, .work [],
    .work [], .work [], .write 2, .work [], .work []]

theorem no_frame_left_halfSent : ∃ u, Lts.exec step (init true) halfSent = some u ∧ u.Quiet ∧
    u.txSkb ≠ none ∧ u.short = true ∧ u.doWriteWakeup = true := by
  have hrun : (Lts.exec step (init true) halfSent).map
      (fun u => decide (u.Quiet ∧ u.txSkb ≠ none)) = some true := by decide +kernel
  obtain ⟨u, hu, hq⟩ := Option.map_eq_some_iff.1 hrun
  obtain ⟨hq, hne⟩ := of_decide_eq_true hq
  rcases no_frame_left true hu hq with h | h | h
  · exact absurd h.1 hne
  · exact ⟨u, hu, hq, hne, h⟩
  · exact absurd h.1 hne

end Uart

/-! ## Bytes -/

def Work.skb : Work → Option (List Byte)
  | .flag b | .write b => some b
  | _ => none

namespace Uart

variable {u u' : Uart}

/-- Where the bytes of the frames are. -/
structure Data (u : Uart) : Prop where
  held : u.work.skb ≠ none → u.txSkb = none
  bytes : u.out ++ u.work.skb.getD [] ++ u.txSkb.getD [] = u.taken.flatMap Taken.bytes
  /-- What is not written yet is the end of the last frame. -/
  last : ∀ b, u.work.skb = some b ∨ u.txSkb = some b →
    ∃ ts f, u.taken = ts ++ [.whole f] ∧ b <:+ f.bytes

theorem Data.congr (h : u.Data) (hw : u'.work.skb = u.work.skb) (htx : u'.txSkb = u.txSkb)
    (hout : u'.out = u.out) (htaken : u'.taken = u.taken) : u'.Data where
  held := by rw [hw, htx]; exact h.held
  bytes := by rw [hw, htx, hout, htaken]; exact h.bytes
  last := by rw [hw, htx, htaken]; exact h.last

end Uart

end Bluetooth.Ldisc
