import BrExternal.Bluetooth.Download
import BrExternal.Lib.Lts

/-!
# Attaching over the three-wire transport

`hciattach_rtk.c` brings the link up, asks the controller what it is, downloads the patch and resets
the controller, all before the kernel driver takes the line over. It has an H5 of its own, with one
packet on the way at a time and an answer of the controller, not an acknowledgement, as what it
waits for. The steps below are the passes of its wait loops, over any bytes the line can bring.
Functions have the names of the source, without `h5_` and `rtb_`.
-/

namespace Bluetooth.Attach

open H5 (Frame Packet Port Proto Rx num be16 reliable hasCrc seqOf ackOf chanOf)

inductive LinkState where
  | sync
  | config
  | init
  | patch
  | hciReset
  | active
  deriving DecidableEq, Repr

/-- `enum rtk_read_class`; `READ_NONE` is `none`. -/
inductive ReadClass where
  | chipType
  | lmpSubVersion
  | chipVer
  | secProj
  deriving DecidableEq, Repr

/-- The types `h5_prepare_pkt` knows. -/
inductive PktType where
  | command
  | acl
  | event
  | ack
  | vdrspec
  | linkCtl
  deriving DecidableEq, Repr

def PktType.chan : PktType → Fin 16
  | .command => 1
  | .acl => 2
  | .event => 4
  | .ack => 0
  | .vdrspec => 14
  | .linkCtl => 15

def PktType.rel : PktType → Bool
  | .acl | .command | .event => true
  | .ack | .vdrspec | .linkCtl => false

structure CmdState where
  opcode : BitVec 16
  subopcode : Option ReadClass
  success : Bool
  deriving DecidableEq, Repr

/-- `rtb_struct` without its receive fields. `exited` is set by `exit` in a handler, `written` are
the writes to the line, and `prepared` the packets of `h5_prepare_pkt`. -/
structure Rtb where
  rxseqTxack : Fin 8
  rxack : Fin 8
  useCrc : Bool
  isTxackReq : Bool
  msgqTxseq : Fin 8
  link : LinkState
  numOfCmdSent : BitVec 16
  lmpSubver : BitVec 16
  hciRev : BitVec 16
  hciVer : Byte
  eversion : Byte
  chipType : Byte
  chipVer : Byte
  keyId : Byte
  totalNum : Int
  txIndex : Int
  rxIndex : Int
  cmd : CmdState
  exited : Bool
  written : List (List Byte)
  prepared : List Frame
  deriving DecidableEq

/-! ## Packets -/

namespace Rtb

/-- `rtb_cfg` after `memset`. -/
def init : Rtb :=
  ⟨0, 0, false, false, 0, .sync, 0, 0, 0, 0, 0, 0, 0, 0, 0, 0, 0, ⟨0, none, false⟩, false, [], []⟩

def preparePkt (s : Rtb) (type : PktType) (data : List Byte) (short : data.length < 0x1000) :
    Frame × Rtb :=
  let f : Frame :=
    ⟨s.rxseqTxack, if type.rel then some s.msgqTxseq else none, s.useCrc, type.chan, data, short⟩
  (f, { s with
    isTxackReq := false
    msgqTxseq := if type.rel then s.msgqTxseq + 1 else s.msgqTxseq
    prepared := s.prepared ++ [f] })

def write (s : Rtb) (bytes : List Byte) : Rtb := { s with written := s.written ++ [bytes] }

def sendAck (s : Rtb) : Rtb :=
  let (f, s) := s.preparePkt .ack [] (by decide)
  s.write f.bytes

/-! ## Answers of the controller

`d` is the buffer behind the pointer: the source reads it at fixed places, whatever its length. -/

/-- The fields `h5_init_hci_cc` takes from the answer to `opcode`; `none` is `default`. -/
def record (s : Rtb) (opcode : BitVec 16) (d : Nat → Byte) : Option Rtb :=
  if opcode = 0xfc17#16 then some s
  else if opcode = 0x1009#16 then some s
  else if opcode = 0x1001#16 then
    some { s with hciVer := d 6, hciRev := be16 (d 8) (d 7), lmpSubver := be16 (d 13) (d 12) }
  else if opcode = 0xfc6d#16 then some { s with eversion := d 6 }
  else if opcode = 0xfc61#16 then
    match s.cmd.subopcode with
    | some .chipType => some { s with chipType := d 6 &&& 0x0f#8, chipVer := d 7 &&& 0x0f#8 }
    | some .lmpSubVersion => some { s with lmpSubver := be16 (d 7) (d 6) }
    | some .chipVer => some { s with hciRev := be16 (d 7) (d 6) }
    | some .secProj => some { s with keyId := d 6 }
    | none => some s
  else none

def initHciCc (s : Rtb) (len : Nat) (d : Nat → Byte) : Rtb :=
  -- the two calls of `skb_pull`
  if len < 5 then { s with exited := true }
  else if d 5 ≠ 0 then s
  else if s.cmd.opcode ≠ be16 (d 4) (d 3) then s
  else
    let s := { s with cmd := { s.cmd with success := true } }
    match s.record s.cmd.opcode d with
    | some s => { s with numOfCmdSent := s.numOfCmdSent + 1 }
    | none => s

def postHciCc (s : Rtb) (len : Nat) (d : Nat → Byte) : Rtb :=
  if len < 5 then { s with exited := true }
  else if d 5 ≠ 0 then s
  else if s.cmd.opcode ≠ be16 (d 4) (d 3) then s
  else
    let s := { s with cmd := { s.cmd with success := true } }
    if s.cmd.opcode = 0x0c03#16 then { s with link := .active } else s

def hciRecvFrame (s : Rtb) (len : Nat) (d : Nat → Byte) : Rtb :=
  match s.link with
  | .init => if d 0 = 0x0e#8 then s.initHciCc len d else s
  | .patch =>
    if d 0 ≠ 0x0e#8 then s
    else if d 6 &&& 0x80#8 ≠ 0 then
      { s with rxIndex := (d 6 &&& 0x7f#8).toNat, link := .hciReset }
    else { s with rxIndex := (d 6).toNat }
  | .hciReset => if d 0 = 0x0e#8 then s.postHciCc len d else s
  | .sync | .config | .active => s

def syncRespPkt : List Byte := [0xc0, 0x00, 0x2F, 0x00, 0xD0, 0x02, 0x7D, 0xc0]

def confRespPkt : List Byte := [0xc0, 0x00, 0x2F, 0x00, 0xD0, 0x04, 0x7B, 0xc0]

def handleInternalRx (s : Rtb) (len : Nat) (d : Nat → Byte) : Rtb :=
  match s.link with
  | .sync =>
    if d 0 = 0x01#8 ∧ d 1 = 0x7E#8 then s.write syncRespPkt
    else if d 0 = 0x02#8 ∧ d 1 = 0x7D#8 then { s with link := .config }
    else s
  | .config =>
    if d 0 = 0x01#8 ∧ d 1 = 0x7E#8 then s.write syncRespPkt
    else if d 0 = 0x03#8 ∧ d 1 = 0xFC#8 then s.write confRespPkt
    else if d 0 = 0x04#8 ∧ d 1 = 0x7B#8 then
      { s with
        link := .init
        useCrc := if len > 2 then (d 2 >>> 4) &&& 0x01#8 != 0 else s.useCrc }
    else s.sendAck
  | .init | .patch | .hciReset | .active => s

/-- What stands at `skb->data[k]` once the header is pulled: the payload, a checksum that was cut
off, and the zeroes of `skb_alloc`. -/
def skbData (p : Packet) (k : Nat) : Byte :=
  let crc := if hasCrc p.b0 then
      H5.crcBytes (H5.bitrev16 (H5.crcOf ([p.b0, p.b1, p.b2, p.b3] ++ p.payload)))
    else []
  (p.payload ++ crc).getD k 0

def completeRxPkt (s : Rtb) (p : Packet) : Rtb :=
  if s.exited then s
  else
    let s :=
      if reliable p.b0 then { s with rxseqTxack := seqOf p.b0 + 1, isTxackReq := true } else s
    let s := { s with rxack := ackOf p.b0 }
    let s :=
      if chanOf p.b1 = 2 ∨ chanOf p.b1 = 4 ∨ chanOf p.b1 = 1 ∨ chanOf p.b1 = 3 then
        s.hciRecvFrame p.payload.length (skbData p)
      else if chanOf p.b1 = 15 then s.handleInternalRx p.payload.length (skbData p)
      else s
    if s.exited then s else if s.isTxackReq then s.sendAck else s

/-- A reliable packet with the wrong number, in `h5_recv`. -/
def outOfOrder (s : Rtb) (b0 : Byte) : Rtb :=
  if s.exited then s
  else { s with
    isTxackReq := true
    rxseqTxack := if s.link = .patch ∧ s.txIndex = s.totalNum then seqOf b0 else s.rxseqTxack }

end Rtb

def tool : Proto Rtb where
  rxseq := Rtb.rxseqTxack
  outOfOrder := Rtb.outOfOrder
  complete := Rtb.completeRxPkt

/-! ## The program -/

/-- A command `rtb_config` sends. -/
inductive Command where
  /-- `h5_vendor_change_speed`. -/
  | changeSpeed (b0 b1 b2 b3 : Byte)
  /-- `rtb_read_local_version`. -/
  | readLocalVersion
  /-- `rtb_read_eversion`. -/
  | readEversion
  /-- `rtb_vendor_read`. -/
  | vendorRead (c : ReadClass)
  deriving DecidableEq, Repr

namespace Command

def bytes : Command → List Byte
  | .changeSpeed b0 b1 b2 b3 => [0x17, 0xfc, 4, b0, b1, b2, b3]
  | .readLocalVersion => [0x01, 0x10, 0x00]
  | .readEversion => [0x6d, 0xfc, 0x00]
  | .vendorRead .chipType => [0x61, 0xfc, 0x05, 0x10, 0xA6, 0xAD, 0x00, 0xB0]
  | .vendorRead .lmpSubVersion => [0x61, 0xfc, 0x05, 0x10, 0x38, 0x04, 0x28, 0x80]
  | .vendorRead .chipVer => [0x61, 0xfc, 0x05, 0x10, 0x3A, 0x04, 0x28, 0x80]
  | .vendorRead .secProj => [0x61, 0xfc, 0x05, 0x10, 0xA4, 0x0D, 0x00, 0xb0]

theorem bytes_length (c : Command) : c.bytes.length < 0x1000 := by
  rcases c with _ | _ | _ | c
  case vendorRead => cases c <;> decide
  all_goals simp [bytes]

def opcode : Command → BitVec 16
  | .changeSpeed .. => 0xfc17#16
  | .readLocalVersion => 0x1001#16
  | .readEversion => 0xfc6d#16
  | .vendorRead _ => 0xfc61#16

/-- `retry` of `start_transmit_wait`. -/
def retry : Command → Nat
  | .changeSpeed .. => 0
  | .readLocalVersion | .readEversion | .vendorRead _ => 3

def cmdState (c : Command) (st : CmdState) : CmdState :=
  match c with
  | .vendorRead k => ⟨c.opcode, some k, false⟩
  | .changeSpeed .. | .readLocalVersion | .readEversion => ⟨c.opcode, st.subopcode, false⟩

theorem cmdState_opcode (c : Command) (st : CmdState) : (c.cmdState st).opcode = c.opcode := by
  cases c <;> rfl

theorem opcode_ne_reset (c : Command) : c.opcode ≠ 0x0c03#16 := by
  cases c <;> simp [opcode]

end Command

def hciPatch (p : PatchPkt) : List Byte :=
  [0x20, 0xfc, BitVec.ofNat 8 (p.data.length + 1), p.index] ++ p.data

/-- The command of `h5_hci_reset`. -/
def resetCmd : List Byte := [0x03, 0x0c, 0x00]

/-- Where the program is: in `rtb_init_h5`, in `rtb_config` between commands, waiting for an answer,
in `h5_download_patch`, in `h5_hci_reset`, or at its end. -/
inductive Phase where
  | sync
  | config
  | ready
  | command
  | patch
  | reset
  | finished
  | failed
  deriving DecidableEq, Repr

/-- The phases with a wait loop. -/
def Phase.waits : Phase → Bool
  | .sync | .config | .command | .patch | .reset => true
  | .ready | .finished | .failed => false

/-- Where the program goes when `writev` fails: the functions that send a command drop the error and
`rtb_config` goes on, all others hand it up. -/
def Phase.unsent : Phase → Phase
  | .command => .ready
  | _ => .failed

/-- The program: its globals, the packet it sends again on a timeout, how often it still may, and
the packets of the download that follow. -/
structure Tool where
  port : Port Rtb
  phase : Phase
  nskb : List Byte
  retry : Nat
  todo : List PatchPkt

namespace Tool

/-- Prepare a packet, write it and wait. A packet that could not be written has its number all the
same. -/
def transmit (t : Tool) (sent : Bool) (phase : Phase) (retry : Nat) (s : Rtb) (type : PktType)
    (data : List Byte) (short : data.length < 0x1000) : Tool :=
  let (f, s) := s.preparePkt type data short
  { t with
    port := ⟨t.port.rx, t.port.mem, if sent then s.write f.bytes else s⟩
    phase := if sent then phase else phase.unsent
    nskb := f.bytes
    retry := retry }

/-- The program in the first wait loop of `rtb_init_h5`. -/
def start (mem : List Bool) : Tool :=
  transmit ⟨⟨Rx.init, mem, Rtb.init⟩, .sync, [], 0, []⟩ true .sync 10 Rtb.init .linkCtl
    [0x01, 0x7E] (by decide)

/-- `h5_download_patch` up to its wait loop, or `h5_hci_reset` after the last packet. There is no
answer when the data overflows `hci_patch`. -/
def nextPatch (t : Tool) (sent : Bool) : Option Tool :=
  let s := t.port.s
  match t.todo with
  | p :: todo =>
    if h : p.data.length ≤ fieldMax then
      some (transmit { t with todo := todo } sent .patch 3
        { s with txIndex := p.txIndex } .command (hciPatch p)
        (by simp only [hciPatch, List.length_append]; simp; unfold fieldMax at h; omega))
    else none
  | [] =>
    some (t.transmit sent .reset 1 { s with cmd := ⟨0x0c03#16, s.cmd.subopcode, false⟩ } .command
      resetCmd (by decide))

/-- What can happen; `sent` says whether the `writev` it comes to succeeds. -/
inductive Act where
  /-- Bytes come in. -/
  | read (bytes : List Byte)
  /-- The timer expires. -/
  | timeout (sent : Bool)
  /-- The loop sees what it waits for. -/
  | proceed (sent : Bool)
  /-- `rtb_config` sends a command. -/
  | issue (c : Command) (sent : Bool)
  /-- `rtb_config` starts the download for the chip of the patch entry. -/
  | download (chipType : Byte) (buf : List Byte) (sent : Bool)

def step (t : Tool) : Act → Option Tool
  | .read bytes =>
    if t.phase.waits then
      (H5.recv tool t.port bytes).map fun port =>
        { t with port := port, phase := if port.s.exited then .failed else t.phase }
    else none
  | .timeout sent =>
    if t.phase.waits then
      if t.retry = 0 then some { t with phase := .failed }
      else if sent then
        some { t with
          port := ⟨t.port.rx, t.port.mem, t.port.s.write t.nskb⟩
          retry := t.retry - 1 }
      else some { t with phase := t.phase.unsent }
    else none
  | .proceed sent =>
    let s := t.port.s
    match t.phase with
    | .sync =>
      if s.link = .config then
        some (t.transmit sent .config 10 s .linkCtl [0x03, 0xFC, 0x14] (by decide))
      else none
    | .config =>
      if s.link = .init then
        let s := s.sendAck
        some { t with
          port := ⟨t.port.rx, t.port.mem, { s with cmd := { s.cmd with success := false } }⟩
          phase := .ready }
      else none
    | .command => if s.cmd.success then some { t with phase := .ready } else none
    | .patch => if s.rxIndex = s.txIndex then t.nextPatch sent else none
    | .reset => if s.cmd.success then some { t with phase := .finished } else none
    | .ready | .finished | .failed => none
  | .issue c sent =>
    if t.phase = .ready then
      let s := t.port.s
      some (t.transmit sent .command c.retry { s with cmd := c.cmdState s.cmd } .command c.bytes
        c.bytes_length)
    else none
  | .download chipType buf sent =>
    if t.phase = .ready ∧ 0 < buf.length ∧ buf.length ≤ maxPatchSize chipType then
      let s := t.port.s
      let num := s.numOfCmdSent.toNat
      match downloadFwc buf num .threeWire with
      | some pkts =>
        { t with
          port := ⟨t.port.rx, t.port.mem, { s with
            link := .patch
            rxIndex := -1
            totalNum := (plan buf.length num .threeWire).totalIdx }⟩
          todo := pkts }.nextPatch sent
      | none => none
    else none

def issued (acts : List Act) : List Command :=
  acts.filterMap fun
    | .issue c _ => some c
    | _ => none

/-- The patches a run has started to download. -/
def downloaded (acts : List Act) : List (List Byte) :=
  acts.filterMap fun
    | .download _ buf _ => some buf
    | _ => none

end Tool

/-! ## What a chunk can change -/

def LinkState.rank : LinkState → Nat
  | .sync => 0
  | .config => 1
  | .init => 2
  | .patch => 3
  | .hciReset => 4
  | .active => 5

def IsFrame (bytes : List Byte) : Prop := ∃ f : Frame, bytes = f.bytes

/-- The reliable packets in the order they were prepared, with their numbers. -/
def Rtb.reliables (s : Rtb) : List (Fin 8 × List Byte) :=
  s.prepared.filterMap fun f => f.seq.map (·, f.data)

/-- From `s` to `s'` by packets that came in. The link state only moves forward, from its first
three states only to these, and to its last only by the answer to the reset. -/
structure Heard (s s' : Rtb) : Prop where
  reliables : s'.reliables = s.reliables
  txseq : s'.msgqTxseq = s.msgqTxseq
  txIndex : s'.txIndex = s.txIndex
  opcode : s'.cmd.opcode = s.cmd.opcode
  frames : (∀ b ∈ s.written, IsFrame b) → ∀ b ∈ s'.written, IsFrame b
  forward : s.link.rank ≤ s'.link.rank
  establish : s.link.rank ≤ 2 → s'.link.rank ≤ 2
  active : s'.link = .active → s.link = .active ∨ s.cmd.opcode = 0x0c03#16
  count : 3 ≤ s.link.rank → s'.numOfCmdSent = s.numOfCmdSent
  success : 3 ≤ s.link.rank → s.cmd.opcode = 0x0c03#16 →
    (s.cmd.success → s.link = .active) → s'.cmd.success → s'.link = .active

namespace Heard

theorem refl (s : Rtb) : Heard s s where
  reliables := rfl
  txseq := rfl
  txIndex := rfl
  opcode := rfl
  frames := fun h => h
  forward := Nat.le_refl _
  establish := fun h => h
  active := .inl
  count := fun _ => rfl
  success := fun _ _ h => h

theorem trans {s s' s'' : Rtb} (h : Heard s s') (h' : Heard s' s'') : Heard s s'' where
  reliables := h'.reliables.trans h.reliables
  txseq := h'.txseq.trans h.txseq
  txIndex := h'.txIndex.trans h.txIndex
  opcode := h'.opcode.trans h.opcode
  frames := fun hw => h'.frames (h.frames hw)
  forward := Nat.le_trans h.forward h'.forward
  establish := fun hl => h'.establish (h.establish hl)
  active := fun ha => by
    rcases h'.active ha with ha' | ho
    · exact h.active ha'
    · exact .inr (h.opcode ▸ ho)
  count := fun hl => (h'.count (Nat.le_trans hl h.forward)).trans (h.count hl)
  success := fun hl ho hs =>
    h'.success (Nat.le_trans hl h.forward) (h.opcode.trans ho) (h.success hl ho hs)

theorem of_fields {s s' : Rtb} (hp : s'.prepared = s.prepared) (hseq : s'.msgqTxseq = s.msgqTxseq)
    (hi : s'.txIndex = s.txIndex) (hc : s'.cmd = s.cmd) (hw : s'.written = s.written)
    (hl : s'.link = s.link) (hn : s'.numOfCmdSent = s.numOfCmdSent) : Heard s s' where
  reliables := by rw [Rtb.reliables, hp, Rtb.reliables]
  txseq := hseq
  txIndex := hi
  opcode := by rw [hc]
  frames := by rw [hw]; exact fun h => h
  forward := by rw [hl]
  establish := by rw [hl]; exact fun h => h
  active := by rw [hl]; exact .inl
  count := fun _ => hn
  success := by rw [hc, hl]; exact fun _ _ h => h

theorem write (s : Rtb) {bytes : List Byte} (h : IsFrame bytes) : Heard s (s.write bytes) :=
  { refl s with
    frames := by
      intro hw b hb
      rcases List.mem_append.1 hb with hb | hb
      · exact hw b hb
      · rw [List.mem_singleton.1 hb]
        exact h }

theorem sendAck (s : Rtb) : Heard s s.sendAck := by
  have hprep : Heard s (s.preparePkt .ack [] (by decide)).2 :=
    { refl s with
      reliables := by simp [Rtb.reliables, Rtb.preparePkt, PktType.rel]
      txseq := rfl }
  exact hprep.trans (write _ ⟨_, rfl⟩)

theorem exit (s : Rtb) : Heard s { s with exited := true } :=
  of_fields rfl rfl rfl rfl rfl rfl rfl

end Heard

namespace Rtb

theorem syncRespPkt_isFrame : IsFrame syncRespPkt :=
  ⟨⟨0, none, false, 15, [0x02, 0x7D], by decide⟩, by decide⟩

theorem confRespPkt_isFrame : IsFrame confRespPkt :=
  ⟨⟨0, none, false, 15, [0x04, 0x7B], by decide⟩, by decide⟩

theorem record_fields {s s' : Rtb} {opcode : BitVec 16} {d : Nat → Byte}
    (h : s.record opcode d = some s') :
    s'.prepared = s.prepared ∧ s'.msgqTxseq = s.msgqTxseq ∧ s'.txIndex = s.txIndex ∧
      s'.cmd = s.cmd ∧ s'.written = s.written ∧ s'.link = s.link := by
  unfold record at h
  repeat' split at h
  all_goals cases h
  all_goals exact ⟨rfl, rfl, rfl, rfl, rfl, rfl⟩

theorem initHciCc_heard {s : Rtb} (hl : s.link = .init) (len : Nat) (d : Nat → Byte) :
    Heard s (s.initHciCc len d) := by
  have hrank : s.link.rank = 2 := by rw [hl]; rfl
  unfold initHciCc
  split
  · exact Heard.exit s
  split
  · exact Heard.refl s
  split
  · exact Heard.refl s
  dsimp only
  split
  · rename_i s' hrec
    obtain ⟨hp, hseq, hi, hc, hw, hlink⟩ := record_fields hrec
    dsimp only at hp hseq hi hc hw hlink
    exact {
      reliables := by rw [reliables, reliables]; exact congrArg _ hp
      txseq := hseq
      txIndex := hi
      opcode := by show s'.cmd.opcode = _; rw [hc]
      frames := by show _ → ∀ b ∈ s'.written, _; rw [hw]; exact fun h => h
      forward := by show _ ≤ s'.link.rank; rw [hlink]
      establish := by show _ → s'.link.rank ≤ 2; rw [hlink]; exact fun h => h
      active := by show s'.link = _ → _; rw [hlink]; exact .inl
      count := by omega
      success := by omega }
  · exact { Heard.refl s with success := by omega }

theorem postHciCc_heard {s : Rtb} (hl : s.link = .hciReset) (len : Nat) (d : Nat → Byte) :
    Heard s (s.postHciCc len d) := by
  have hrank : s.link.rank = 4 := by rw [hl]; rfl
  unfold postHciCc
  split
  · exact Heard.exit s
  split
  · exact Heard.refl s
  split
  · exact Heard.refl s
  dsimp only
  split
  · rename_i hop
    exact { Heard.refl s with
      forward := hrank.le.trans (show 4 ≤ LinkState.active.rank by decide)
      establish := by omega
      active := fun _ => .inr hop
      success := fun _ _ _ _ => rfl }
  · rename_i hop
    exact { Heard.refl s with success := fun _ h => absurd h hop }

theorem hciRecvFrame_heard (s : Rtb) (len : Nat) (d : Nat → Byte) :
    Heard s (s.hciRecvFrame len d) := by
  unfold hciRecvFrame
  split
  case h_1 hl =>
    split
    · exact initHciCc_heard hl len d
    · exact Heard.refl s
  case h_2 hl =>
    have hrank : s.link.rank = 3 := by rw [hl]; rfl
    split
    · exact Heard.refl s
    split
    · exact { Heard.refl s with
        forward := hrank.le.trans (show 3 ≤ LinkState.hciReset.rank by decide)
        establish := by omega
        active := by simp
        success := fun _ _ h hs => absurd (h hs) (by rw [hl]; decide) }
    · exact Heard.of_fields rfl rfl rfl rfl rfl rfl rfl
  case h_3 hl =>
    split
    · exact postHciCc_heard hl len d
    · exact Heard.refl s
  all_goals exact Heard.refl s

theorem handleInternalRx_heard (s : Rtb) (len : Nat) (d : Nat → Byte) :
    Heard s (s.handleInternalRx len d) := by
  unfold handleInternalRx
  split
  case h_1 hl =>
    have hrank : s.link.rank = 0 := by rw [hl]; rfl
    split
    · exact Heard.write s syncRespPkt_isFrame
    split
    · exact { Heard.refl s with
        forward := by omega
        establish := by simp [LinkState.rank]
        active := by simp
        success := by omega }
    · exact Heard.refl s
  case h_2 hl =>
    have hrank : s.link.rank = 1 := by rw [hl]; rfl
    split
    · exact Heard.write s syncRespPkt_isFrame
    split
    · exact Heard.write s confRespPkt_isFrame
    split
    · exact { Heard.refl s with
        forward := hrank.le.trans (show 1 ≤ LinkState.init.rank by decide)
        establish := by simp [LinkState.rank]
        active := by simp
        success := by omega }
    · exact Heard.sendAck s
  all_goals exact Heard.refl s

theorem completeRxPkt_heard (s : Rtb) (p : Packet) : Heard s (s.completeRxPkt p) := by
  unfold completeRxPkt
  split
  · exact Heard.refl s
  extract_lets s1 s2 s3
  have h1 : Heard s s1 := by
    simp only [s1]
    split
    · exact Heard.of_fields rfl rfl rfl rfl rfl rfl rfl
    · exact Heard.refl s
  have h2 : Heard s1 s2 := Heard.of_fields rfl rfl rfl rfl rfl rfl rfl
  have h3 : Heard s2 s3 := by
    simp only [s3]
    split
    · exact hciRecvFrame_heard _ _ _
    split
    · exact handleInternalRx_heard _ _ _
    · exact Heard.refl _
  have h := (h1.trans h2).trans h3
  split
  · exact h
  split
  · exact h.trans (Heard.sendAck _)
  · exact h

theorem outOfOrder_heard (s : Rtb) (b0 : Byte) : Heard s (s.outOfOrder b0) := by
  unfold outOfOrder
  split
  · exact Heard.refl s
  · exact Heard.of_fields rfl rfl rfl rfl rfl rfl rfl

end Rtb

theorem recv_heard {t t' : Port Rtb} {bytes : List Byte} (h : H5.recv tool t bytes = some t') :
    Heard t.s t'.s :=
  H5.recv_keeps (Q := Heard t.s) (fun s b hs => hs.trans (s.outOfOrder_heard b))
    (fun s p hs => hs.trans (s.completeRxPkt_heard p)) h (Heard.refl _)

/-! ## What holds in each phase -/

/-- Commands with the numbers they go out under. -/
def numbered (cmds : List (List Byte)) : List (Fin 8 × List Byte) :=
  cmds.mapIdx fun i c => (num i, c)

/-- The reliable packets so far are `cmds`, numbered without a gap. -/
structure Sent (s : Rtb) (cmds : List (List Byte)) : Prop where
  reliables : s.reliables = numbered cmds
  txseq : s.msgqTxseq = num cmds.length

theorem Sent.heard {s s' : Rtb} {cmds : List (List Byte)} (h : Sent s cmds) (hh : Heard s s') :
    Sent s' cmds :=
  ⟨hh.reliables.trans h.reliables, hh.txseq.trans h.txseq⟩

theorem Sent.preparePkt {s : Rtb} {cmds : List (List Byte)} (h : Sent s cmds) (type : PktType)
    (data : List Byte) (short : data.length < 0x1000) :
    Sent (s.preparePkt type data short).2 (if type.rel then cmds ++ [data] else cmds) := by
  have hrel := h.reliables
  unfold Rtb.reliables at hrel
  constructor
  · unfold Rtb.reliables Rtb.preparePkt
    dsimp only
    rw [List.filterMap_append, hrel]
    cases type.rel with
    | true => simp [numbered, h.txseq]
    | false => simp
  · unfold Rtb.preparePkt
    dsimp only
    rw [h.txseq]
    cases type.rel with
    | true => simp [H5.num_succ]
    | false => simp

/-- `pkts` are the packets of a patch `buf` that passed the size check. -/
structure Planned (num : Nat) (buf : List Byte) (pkts : List PatchPkt) : Prop where
  fits : (plan buf.length num .threeWire).Fits buf
  download : downloadFwc buf num .threeWire = some pkts
  pkts : pkts = (List.range' 0 ((plan buf.length num .threeWire).totalIdx + 1)).map
    (packet (plan buf.length num .threeWire) buf)

namespace Planned

variable {num : Nat} {buf : List Byte} {pkts : List PatchPkt}

theorem of_download {chipType : Byte} (hpos : 0 < buf.length)
    (hmax : buf.length ≤ maxPatchSize chipType)
    (h : downloadFwc buf num .threeWire = some pkts) : Planned num buf pkts := by
  have hpkts := h
  rw [downloadFwc_eq hpos hmax] at hpkts
  exact ⟨plan_fits hpos hmax num .threeWire, h, (Option.some.inj hpkts).symm⟩

theorem chain (h : Planned num buf pkts) : pkts.IsChain fun p q => p.txIndex ≠ q.txIndex :=
  h.pkts ▸ packets_chain _ _ _

theorem reassemble_eq (h : Planned num buf pkts) : reassemble pkts = some buf :=
  h.pkts ▸ reassemble_packet h.fits

theorem length_mod (h : Planned num buf pkts) : (num + pkts.length + 1) % 8 = 0 := by
  rw [h.pkts, List.length_map, List.length_range']
  exact plan_aligned buf.length num

end Planned

abbrev opReset : BitVec 16 := 0x0c03#16

/-- What holds in a phase, with the packets of the download that follow, the commands sent and the
patches downloaded. -/
def Phase.Inv : Phase → Rtb → List PatchPkt → List Command → List (List Byte) → Prop
  | .sync, s, _, cmds, bufs | .config, s, _, cmds, bufs =>
    s.link.rank ≤ 2 ∧ s.cmd.opcode ≠ opReset ∧ cmds = [] ∧ bufs = [] ∧ Sent s []
  | .ready, s, _, cmds, bufs | .command, s, _, cmds, bufs =>
    s.link = .init ∧ s.cmd.opcode ≠ opReset ∧ bufs = [] ∧ Sent s (cmds.map (·.bytes))
  | .patch, s, todo, cmds, bufs =>
    3 ≤ s.link.rank ∧ s.link ≠ .active ∧ s.cmd.opcode ≠ opReset ∧
    ∃ (buf : List Byte) (done : List PatchPkt) (p : PatchPkt), bufs = [buf] ∧
      Planned s.numOfCmdSent.toNat buf (done ++ p :: todo) ∧ s.txIndex = p.txIndex ∧
      Sent s (cmds.map (·.bytes) ++ (done ++ [p]).map hciPatch)
  | .reset, s, _, cmds, bufs =>
    3 ≤ s.link.rank ∧ s.cmd.opcode = opReset ∧ (s.cmd.success → s.link = .active) ∧
    ∃ (buf : List Byte) (pkts : List PatchPkt), bufs = [buf] ∧
      Planned s.numOfCmdSent.toNat buf pkts ∧
      Sent s (cmds.map (·.bytes) ++ pkts.map hciPatch ++ [resetCmd])
  | .finished, s, _, cmds, bufs =>
    s.link = .active ∧ ∃ (buf : List Byte) (pkts : List PatchPkt), bufs = [buf] ∧
      Planned s.numOfCmdSent.toNat buf pkts ∧
      Sent s (cmds.map (·.bytes) ++ pkts.map hciPatch ++ [resetCmd])
  | .failed, _, _, _, _ => True

theorem LinkState.eq_init {l l' : LinkState} (hl : l = .init) (hle : l.rank ≤ l'.rank)
    (h2 : l.rank ≤ 2 → l'.rank ≤ 2) : l' = .init := by
  subst hl
  have := h2 (Nat.le_refl 2)
  cases l' <;> simp [rank] at hle this ⊢

section

variable {cmds : List Command} {bufs : List (List Byte)}

theorem Phase.Inv.heard {ph : Phase} {s s' : Rtb} {todo : List PatchPkt}
    (h : ph.Inv s todo cmds bufs) (hh : Heard s s') (hw : ph.waits) :
    ph.Inv s' todo cmds bufs := by
  have hop := hh.opcode
  cases ph with
  | sync =>
    obtain ⟨hl, ho, hc, hb, hs⟩ := h
    exact ⟨hh.establish hl, hop ▸ ho, hc, hb, hs.heard hh⟩
  | config =>
    obtain ⟨hl, ho, hc, hb, hs⟩ := h
    exact ⟨hh.establish hl, hop ▸ ho, hc, hb, hs.heard hh⟩
  | command =>
    obtain ⟨hl, ho, hb, hs⟩ := h
    exact ⟨LinkState.eq_init hl hh.forward hh.establish, hop ▸ ho, hb, hs.heard hh⟩
  | patch =>
    obtain ⟨hl, hna, ho, buf, done, p, hb, hplan, hi, hs⟩ := h
    refine ⟨hl.trans hh.forward, fun ha => ?_, hop ▸ ho, buf, done, p, hb, ?_,
      hh.txIndex.trans hi, hs.heard hh⟩
    · rcases hh.active ha with ha | ha
      · exact hna ha
      · exact ho ha
    · rw [hh.count hl]
      exact hplan
  | reset =>
    obtain ⟨hl, ho, hsucc, buf, pkts, hb, hplan, hs⟩ := h
    refine ⟨hl.trans hh.forward, hop ▸ ho, hh.success hl ho hsucc, buf, pkts, hb, ?_,
      hs.heard hh⟩
    rw [hh.count hl]
    exact hplan
  | ready => cases hw
  | finished => cases hw
  | failed => cases hw

theorem Phase.Inv.unsent {ph : Phase} {s : Rtb} {todo : List PatchPkt}
    (h : ph.Inv s todo cmds bufs) : ph.unsent.Inv s todo cmds bufs := by
  cases ph with
  | command => exact h
  | _ => trivial

namespace Tool

structure Inv (t : Tool) (cmds : List Command) (bufs : List (List Byte)) : Prop where
  rx : t.port.rx.Ok
  written : ∀ b ∈ t.port.s.written, IsFrame b
  nskb : IsFrame t.nskb
  phase : t.phase.Inv t.port.s t.todo cmds bufs

theorem heard_transmit (t : Tool) (sent : Bool) (ph : Phase) (retry : Nat) (s : Rtb)
    (type : PktType) (data : List Byte) (short : data.length < 0x1000) :
    Heard (s.preparePkt type data short).2
      (t.transmit sent ph retry s type data short).port.s := by
  cases sent with
  | true => exact Heard.write _ ⟨_, rfl⟩
  | false => exact Heard.refl _

theorem inv_transmit {t : Tool} (sent : Bool) {ph : Phase} (hwaits : ph.waits) (retry : Nat)
    {s : Rtb} {type : PktType} {data : List Byte} (short : data.length < 0x1000)
    (hrx : t.port.rx.Ok) (hw : ∀ b ∈ s.written, IsFrame b)
    (h : ph.Inv (s.preparePkt type data short).2 t.todo cmds bufs) :
    (t.transmit sent ph retry s type data short).Inv cmds bufs := by
  have hh := heard_transmit t sent ph retry s type data short
  refine ⟨hrx, hh.frames hw, ⟨_, rfl⟩, ?_⟩
  cases sent with
  | true => exact h.heard hh hwaits
  | false => exact h.unsent

theorem inv_start (mem : List Bool) : (start mem).Inv [] [] :=
  inv_transmit true rfl 10 _ Rx.ok_init (by simp [Rtb.init])
    ⟨Nat.zero_le 2, show (0 : BitVec 16) ≠ opReset by decide, rfl, rfl,
      Sent.preparePkt ⟨rfl, rfl⟩ .linkCtl _ _⟩

/-- The packets in `done` are out; the next one goes out, or the reset after the last. -/
theorem inv_nextPatch {t t' : Tool} {sent : Bool} {buf : List Byte} {done : List PatchPkt}
    (hrx : t.port.rx.Ok) (hw : ∀ b ∈ t.port.s.written, IsFrame b)
    (hl : 3 ≤ t.port.s.link.rank) (hna : t.port.s.link ≠ .active)
    (hop : t.port.s.cmd.opcode ≠ opReset)
    (hplan : Planned t.port.s.numOfCmdSent.toNat buf (done ++ t.todo))
    (hsent : Sent t.port.s (cmds.map (·.bytes) ++ done.map hciPatch))
    (h : t.nextPatch sent = some t') : t'.Inv cmds [buf] := by
  unfold nextPatch at h
  dsimp only at h
  split at h
  · rename_i p todo htodo
    split at h
    · cases h
      rw [htodo] at hplan
      have hs : Sent { t.port.s with txIndex := p.txIndex } _ := ⟨hsent.reliables, hsent.txseq⟩
      refine inv_transmit sent rfl 3 _ hrx hw ⟨hl, hna, hop, buf, done, p, rfl, hplan, rfl, ?_⟩
      rw [List.map_append, ← List.append_assoc]
      exact hs.preparePkt .command (hciPatch p) _
    · cases h
  · rename_i htodo
    cases h
    rw [htodo, List.append_nil] at hplan
    have hs : Sent { t.port.s with cmd := ⟨0x0c03#16, t.port.s.cmd.subopcode, false⟩ } _ :=
      ⟨hsent.reliables, hsent.txseq⟩
    exact inv_transmit sent rfl 1 _ hrx hw
      ⟨hl, rfl, nofun, buf, done, rfl, hplan, hs.preparePkt .command resetCmd _⟩

theorem inv_read {t t' : Tool} {bytes : List Byte} (h : t.Inv cmds bufs)
    (hstep : step t (.read bytes) = some t') : t'.Inv cmds bufs := by
  simp only [step] at hstep
  split at hstep
  · rename_i hwaits
    obtain ⟨port, hrecv, rfl⟩ := Option.map_eq_some_iff.1 hstep
    have hh := recv_heard hrecv
    obtain ⟨port', hrecv', hok⟩ := H5.recv_ok (P := tool) h.rx bytes
    cases hrecv.symm.trans hrecv'
    refine ⟨hok, hh.frames h.written, h.nskb, ?_⟩
    dsimp only
    split
    · trivial
    · exact h.phase.heard hh hwaits
  · cases hstep

theorem inv_timeout {t t' : Tool} {sent : Bool} (h : t.Inv cmds bufs)
    (hstep : step t (.timeout sent) = some t') : t'.Inv cmds bufs := by
  simp only [step] at hstep
  split at hstep
  · rename_i hwaits
    split at hstep
    · cases hstep
      exact ⟨h.rx, h.written, h.nskb, trivial⟩
    split at hstep
    · cases hstep
      have hh := Heard.write t.port.s h.nskb
      exact ⟨h.rx, hh.frames h.written, h.nskb, h.phase.heard hh hwaits⟩
    · cases hstep
      exact ⟨h.rx, h.written, h.nskb, h.phase.unsent⟩
  · cases hstep

theorem inv_proceed {t t' : Tool} {sent : Bool} (h : t.Inv cmds bufs)
    (hstep : step t (.proceed sent) = some t') : t'.Inv cmds bufs := by
  have hph := h.phase
  simp only [step] at hstep
  split at hstep <;> rename_i hp <;> rw [hp] at hph
  case h_1 =>
    split at hstep
    · cases hstep
      obtain ⟨hl, hop, hc, hb, hs⟩ := hph
      exact inv_transmit sent rfl 10 _ h.rx h.written
        ⟨hl, hop, hc, hb, hs.preparePkt .linkCtl _ _⟩
    · cases hstep
  case h_2 =>
    split at hstep
    · rename_i hl
      cases hstep
      obtain ⟨-, hop, rfl, hb, hs⟩ := hph
      have hh := Heard.sendAck t.port.s
      have hsent := hs.heard hh
      exact ⟨h.rx, hh.frames h.written, h.nskb, hl, hop, hb, hsent.reliables, hsent.txseq⟩
    · cases hstep
  case h_3 =>
    split at hstep
    · cases hstep
      exact ⟨h.rx, h.written, h.nskb, hph⟩
    · cases hstep
  case h_4 =>
    split at hstep
    · obtain ⟨hl, hna, hop, buf, done, p, rfl, hplan, _, hsent⟩ := hph
      rw [List.append_cons] at hplan
      exact inv_nextPatch h.rx h.written hl hna hop hplan hsent hstep
    · cases hstep
  case h_5 =>
    split at hstep
    · rename_i hsucc
      cases hstep
      obtain ⟨_, _, hactive, hrest⟩ := hph
      exact ⟨h.rx, h.written, h.nskb, hactive hsucc, hrest⟩
    · cases hstep
  all_goals cases hstep

theorem inv_issue {t t' : Tool} {c : Command} {sent : Bool} (h : t.Inv cmds bufs)
    (hstep : step t (.issue c sent) = some t') : t'.Inv (cmds ++ [c]) bufs := by
  have hph := h.phase
  simp only [step] at hstep
  split at hstep
  · rename_i hready
    rw [hready] at hph
    cases hstep
    obtain ⟨hl, _, hb, hsent⟩ := hph
    have hs : Sent { t.port.s with cmd := c.cmdState t.port.s.cmd } _ :=
      ⟨hsent.reliables, hsent.txseq⟩
    refine inv_transmit sent rfl c.retry _ h.rx h.written ⟨hl, ?_, hb, ?_⟩
    · show (c.cmdState _).opcode ≠ _
      rw [c.cmdState_opcode]
      exact c.opcode_ne_reset
    · rw [List.map_append]
      exact hs.preparePkt .command c.bytes _
  · cases hstep

theorem inv_download {t t' : Tool} {chipType : Byte} {buf : List Byte} {sent : Bool}
    (h : t.Inv cmds bufs) (hstep : step t (.download chipType buf sent) = some t') :
    t'.Inv cmds (bufs ++ [buf]) := by
  have hph := h.phase
  simp only [step] at hstep
  split at hstep
  · rename_i hguard
    obtain ⟨hready, hpos, hmax⟩ := hguard
    rw [hready] at hph
    split at hstep
    · rename_i pkts hpkts
      obtain ⟨_, hop, rfl, hsent⟩ := hph
      have hplan : Planned t.port.s.numOfCmdSent.toNat buf ([] ++ pkts) :=
        Planned.of_download hpos hmax hpkts
      refine inv_nextPatch ?_ ?_ ?_ ?_ ?_ hplan ?_ hstep
      · exact h.rx
      · exact h.written
      · exact Nat.le_refl 3
      · simp
      · exact hop
      · rw [List.map_nil, List.append_nil]
        exact ⟨hsent.reliables, hsent.txseq⟩
    · cases hstep
  · cases hstep

end Tool

end

namespace Tool

/-- **One step.** The invariant goes with the commands and patches of the run so far. -/
theorem inv_step (acts : List Act) (t : Tool) (a : Act) (t' : Tool)
    (h : t.Inv (issued acts) (downloaded acts)) (hstep : step t a = some t') :
    t'.Inv (issued (acts ++ [a])) (downloaded (acts ++ [a])) := by
  simp only [issued, downloaded, List.filterMap_append]
  cases a with
  | read bytes => simpa [issued, downloaded] using inv_read h hstep
  | timeout sent => simpa [issued, downloaded] using inv_timeout h hstep
  | proceed sent => simpa [issued, downloaded] using inv_proceed h hstep
  | issue c sent => simpa [issued, downloaded] using inv_issue h hstep
  | download chipType buf sent => simpa [issued, downloaded] using inv_download h hstep

theorem inv_exec {mem : List Bool} {acts : List Act} {t : Tool}
    (hrun : Lts.exec step (start mem) acts = some t) : t.Inv (issued acts) (downloaded acts) :=
  Lts.exec_hist (I := fun acts t => Inv t (issued acts) (downloaded acts)) inv_step
    (p := []) (inv_start mem) hrun

/-! ## Runs -/

def linkUp : List Act :=
  [.read Rtb.syncRespPkt, .proceed true, .read Rtb.confRespPkt, .proceed true]

/-- The event with which the controller answers, under its number `n`. -/
def answer (n : Fin 8) (b0 b1 b2 b3 : Byte) : Act :=
  .read (Frame.bytes ⟨0, some n, false, 4, [0x0e, 0x04, 0x01, b0, b1, b2, b3], by simp⟩)

/-- The download of a patch of one byte, which takes seven packets, and the reset. -/
def oneByte : List Act :=
  [.download 0 [0x42] true, answer 0 0x20 0xfc 0 0, .proceed true, answer 1 0x20 0xfc 0 1,
    .proceed true, answer 2 0x20 0xfc 0 2, .proceed true, answer 3 0x20 0xfc 0 3, .proceed true,
    answer 4 0x20 0xfc 0 4, .proceed true, answer 5 0x20 0xfc 0 5, .proceed true,
    answer 6 0x20 0xfc 0 0x86, .proceed true, answer 7 0x03 0x0c 0 0, .proceed true]

/-- A packet of the download goes out while the last answer is that to another one. -/
theorem nextPatch_awaits {t t' : Tool} {sent : Bool} (h : t.nextPatch sent = some t')
    (hph : t'.phase = .patch) (hne : ∀ p ∈ t.todo.head?, t.port.s.rxIndex ≠ p.txIndex) :
    t'.port.s.rxIndex ≠ t'.port.s.txIndex := by
  unfold nextPatch at h
  dsimp only at h
  split at h
  · rename_i p todo htodo
    split at h
    · cases h
      have hp := hne p (by rw [htodo]; rfl)
      cases sent with
      | true => exact hp
      | false => cases hph
    · cases h
  · cases h
    cases sent with
    | true => cases hph
    | false => cases hph

/-- **Every packet of the download has an answer of its own.** When the program first sends one, in
any run, the index it waits for is not yet there. (It may be when the packet is sent again: a wait
loop that finds both the answer and an expired timer looks at the two in turn.) -/
theorem patch_awaits_answer {mem : List Bool} {acts : List Act} {t t' : Tool} {a : Act}
    (hrun : Lts.exec step (start mem) acts = some t) (hstep : step t a = some t')
    (ha : (∃ sent, a = .proceed sent) ∨ ∃ chipType buf sent, a = .download chipType buf sent)
    (hph : t'.phase = .patch) : t'.port.s.rxIndex ≠ t'.port.s.txIndex := by
  have hinv := (inv_exec hrun).phase
  rcases ha with ⟨sent, rfl⟩ | ⟨chipType, buf, sent, rfl⟩
  · simp only [step] at hstep
    split at hstep <;> rename_i hp <;> rw [hp] at hinv
    case h_4 =>
      split at hstep
      · rename_i hi
        obtain ⟨_, _, _, _, done, p, _, hplan, htx, _⟩ := hinv
        refine nextPatch_awaits hstep hph fun q hq => ?_
        have hchain := (List.isChain_append.1 hplan.chain).2.1
        obtain ⟨rest, hrest⟩ : ∃ rest, t.todo = q :: rest := by
          cases htodo : t.todo with
          | nil => rw [htodo] at hq; cases hq
          | cons r rest => rw [htodo] at hq; cases hq; exact ⟨rest, rfl⟩
        rw [hrest] at hchain
        rw [hi, htx]
        exact fun he => (List.isChain_cons_cons.1 hchain).1 (Int.ofNat_inj.1 he)
      · cases hstep
    case h_1 =>
      split at hstep
      · cases hstep
        cases sent with
        | true => cases hph
        | false => cases hph
      · cases hstep
    all_goals
      first
        | cases hstep
        | split at hstep <;> cases hstep; cases hph
  · simp only [step] at hstep
    split at hstep
    · split at hstep
      · refine nextPatch_awaits hstep hph fun q _ => ?_
        show (-1 : Int) ≠ _
        omega
      · cases hstep
    · cases hstep

theorem patch_awaits_answer_second : ∃ t t',
    Lts.exec step (start []) (linkUp ++ [.download 0 [0x42] true, answer 0 0x20 0xfc 0 0]) =
      some t ∧
    step t (.proceed true) = some t' ∧ t'.port.s.rxIndex = 0 ∧ t'.port.s.txIndex = 1 ∧
    t'.port.s.rxIndex ≠ t'.port.s.txIndex := by
  have hrun : (Lts.exec step (start [])
      (linkUp ++ [.download 0 [0x42] true, answer 0 0x20 0xfc 0 0] ++ [.proceed true])).map
        (fun t => (t.phase, t.port.s.rxIndex, t.port.s.txIndex)) = some (.patch, 0, 1) := by
    decide +kernel
  obtain ⟨t', ht', hvalues⟩ := Option.map_eq_some_iff.1 hrun
  obtain ⟨hph, hrx, htx⟩ : t'.phase = .patch ∧ t'.port.s.rxIndex = 0 ∧ t'.port.s.txIndex = 1 := by
    simpa using hvalues
  obtain ⟨t, ht, hlast⟩ := Lts.exec_append.1 ht'
  obtain ⟨u, hstep, hu⟩ := Lts.exec_cons.1 hlast
  cases hu
  exact ⟨t, t', ht, hstep, hrx, htx, patch_awaits_answer ht hstep (.inl ⟨_, rfl⟩) hph⟩

/-- **All the program ever writes are packets.** -/
theorem writes_packets {mem : List Bool} {acts : List Act} {t : Tool}
    (hrun : Lts.exec step (start mem) acts = some t) :
    ∀ bytes ∈ t.port.s.written, ∃ f : Frame, bytes = f.bytes :=
  (inv_exec hrun).written

theorem writes_packets_linkUp : ∃ t, Lts.exec step (start []) linkUp = some t ∧
    t.port.s.written.length = 3 ∧ ∀ bytes ∈ t.port.s.written, ∃ f : Frame, bytes = f.bytes := by
  have hrun : (Lts.exec step (start []) linkUp).map (·.port.s.written.length) = some 3 := by
    decide +kernel
  obtain ⟨t, ht, hlen⟩ := Option.map_eq_some_iff.1 hrun
  exact ⟨t, ht, hlen, writes_packets ht⟩

/-- **The hand-over to the kernel driver.** When the program is done the link is active, and the
reliable packets it prepared were the commands it issued, the packets of the one patch it was told
to download and the reset, numbered without a gap. The next number is the one the driver starts with
just when the answers it counted are as many as its commands modulo eight. -/
theorem finished_hands_over {mem : List Bool} {acts : List Act} {t : Tool}
    (hrun : Lts.exec step (start mem) acts = some t) (hfin : t.phase = .finished) (txcrc : Bool) :
    t.port.s.link = .active ∧
    ∃ (buf : List Byte) (pkts : List PatchPkt), downloaded acts = [buf] ∧
      downloadFwc buf t.port.s.numOfCmdSent.toNat .threeWire = some pkts ∧
      reassemble pkts = some buf ∧
      t.port.s.reliables =
        numbered ((issued acts).map (·.bytes) ++ pkts.map hciPatch ++ [resetCmd]) ∧
      (t.port.s.msgqTxseq = (H5.h5Open txcrc).msgqTxseq ↔
        (issued acts).length % 8 = t.port.s.numOfCmdSent.toNat % 8) := by
  have hinv := (inv_exec hrun).phase
  rw [hfin] at hinv
  obtain ⟨hactive, buf, pkts, hbuf, hplan, hsent⟩ := hinv
  refine ⟨hactive, buf, pkts, hbuf, hplan.download, hplan.reassemble_eq, hsent.reliables, ?_⟩
  have hmod := hplan.length_mod
  rw [hsent.txseq]
  show num _ = num 0 ↔ _
  rw [H5.num_inj]
  simp only [List.length_append, List.length_map, List.length_singleton]
  omega

/-- The download of one byte; and the same after a command that could not be written, which has
taken a number without an answer to it. -/
theorem finished_hands_over_oneByte :
    (∃ t, Lts.exec step (start []) (linkUp ++ oneByte) = some t ∧ t.phase = .finished ∧
      t.port.s.link = .active ∧ t.port.s.msgqTxseq = (H5.h5Open false).msgqTxseq) ∧
    ∃ t, Lts.exec step (start []) (linkUp ++ .issue .readEversion false :: oneByte) = some t ∧
      t.phase = .finished ∧ t.port.s.link = .active ∧
      t.port.s.msgqTxseq ≠ (H5.h5Open false).msgqTxseq := by
  have hrun : ∀ acts, acts = linkUp ++ oneByte ∨
      acts = linkUp ++ .issue .readEversion false :: oneByte →
      (Lts.exec step (start []) acts).map (fun t => (t.phase, t.port.s.numOfCmdSent)) =
        some (.finished, 0) := by
    rintro _ (rfl | rfl)
    · decide +kernel
    · decide +kernel
  refine ⟨?_, ?_⟩
  · obtain ⟨t, ht, hvalues⟩ := Option.map_eq_some_iff.1 (hrun _ (.inl rfl))
    obtain ⟨hph, hnum⟩ := Prod.mk.inj hvalues
    obtain ⟨hactive, _, _, -, -, -, -, hiff⟩ := finished_hands_over ht hph false
    exact ⟨t, ht, hph, hactive, hiff.2 (by rw [hnum]; rfl)⟩
  · obtain ⟨t, ht, hvalues⟩ := Option.map_eq_some_iff.1 (hrun _ (.inr rfl))
    obtain ⟨hph, hnum⟩ := Prod.mk.inj hvalues
    obtain ⟨hactive, _, _, -, -, -, -, hiff⟩ := finished_hands_over ht hph false
    refine ⟨t, ht, hph, hactive, fun he => ?_⟩
    have hmod := hiff.1 he
    rw [hnum] at hmod
    exact absurd hmod (by decide)

end Tool

end Bluetooth.Attach
