import BrExternal.Bluetooth.Driver
import Mathlib.Data.List.Chain

/-!
# The download of firmware and config

`rtb_download_fwc` cuts the patch into packets of 252 bytes with an index that rolls over from
`0x7f` to `1` and has its top bit set on the last packet. Over the three-wire transport it adds
empty packets, so that the sequence number is zero again after the reset that follows, which is
where the kernel driver starts. The counters are the 8 and 16 bit ones of the source, and the
pointer into the buffer is moved as the source moves it.
-/

namespace Bluetooth.Attach

inductive UartProto where
  | h4
  | threeWire
  deriving DecidableEq, Repr

abbrev fieldMax : Nat := 252

/-- The largest patch `rtb_config` lets pass, by `chip_type`. -/
def maxPatchSize (chipType : Byte) : Nat :=
  if chipType = 0x70#8 then 25 * 1024
  else if chipType ∈ [0x72#8, 0x71#8, 0x73#8, 0x74#8, 0x05#8] then 40 * 1024
  else if chipType = 0x75#8 then 0x114D0 + 529
  else if chipType = 0x76#8 then 0xC4CF + 529
  else if chipType ∈ [0x00#8, 0x78#8] then 0x104D0 + 529
  else if chipType = 0x77#8 then 0x130D0 + 529
  else if chipType = 0x79#8 then 0x24620 + 529
  else if chipType = 0x7A#8 then 0x10050 + 529
  else 24 * 1024

theorem maxPatchSize_le (chipType : Byte) : maxPatchSize chipType ≤ 0x24620 + 529 := by
  unfold maxPatchSize
  repeat' split
  all_goals decide

/-- What `rtb_download_fwc` works out before the loop. -/
structure Plan where
  endIdx : Nat
  totalIdx : Nat
  lpLen : Nat
  deriving DecidableEq, Repr

def plan (size numOfCmdSent : Nat) (proto : UartProto) : Plan :=
  let endIdx := (size - 1) / fieldMax % 2 ^ 16
  let lpLen := size % fieldMax % 2 ^ 8
  let num := (numOfCmdSent + endIdx + 1) % 2 ^ 16
  let addPkts := if num % 8 ≠ 0 then 8 - num % 8 else 0
  let addPkts := match proto with
    | .threeWire => if addPkts ≠ 0 then addPkts - 1 else addPkts + 7
    | .h4 => 0
  { endIdx := endIdx
    totalIdx := (addPkts + endIdx) % 2 ^ 16
    lpLen := if lpLen = 0 then fieldMax else lpLen }

/-- `pkt_buf`: into the buffer, null, or moved from null. -/
inductive Ptr where
  | at (off : Nat)
  | null
  | wild
  deriving DecidableEq, Repr

def Ptr.advance : Ptr → Ptr
  | .at off => .at (off + fieldMax)
  | .null | .wild => .wild

/-- What a download command copies from `pkt_buf`. There is no answer outside the buffer. -/
def Ptr.read (buf : List Byte) (len : Nat) : Ptr → Option (List Byte)
  | .at off => if off + len ≤ buf.length then some ((buf.drop off).take len) else none
  | .null => if len = 0 then some [] else none
  | .wild => none

structure PatchPkt where
  index : Byte
  data : List Byte
  deriving DecidableEq, Repr

/-- The loop over `i`, with `n` packets to go. -/
def downloadLoop (pl : Plan) (buf : List Byte) : Nat → Nat → Nat → Ptr → Option (List PatchPkt)
  | 0, _, _, _ => some []
  | n + 1, i, idx, pktBuf =>
    let j := idx
    let idx := if j = 0x7f then 1 else (idx + 1) % 2 ^ 16
    let curIdx : Byte := BitVec.ofNat 8 j
    let (curIdx, pktBuf, curLen) :=
      if i < pl.endIdx then (curIdx, pktBuf, fieldMax)
      else if i = pl.endIdx then
        if i = pl.totalIdx then (curIdx ||| 0x80#8, pktBuf, pl.lpLen)
        else (curIdx, pktBuf, pl.lpLen)
      else if i < pl.totalIdx then (curIdx, .null, 0)
      else (curIdx ||| 0x80#8, .null, 0)
    match pktBuf.read buf curLen with
    | none => none
    | some data =>
      let pktBuf := if curIdx.toNat < pl.endIdx then pktBuf.advance else pktBuf
      (downloadLoop pl buf n (i + 1) idx pktBuf).map (⟨curIdx, data⟩ :: ·)

/-- The packets of `rtb_download_fwc`. -/
def downloadFwc (buf : List Byte) (numOfCmdSent : Nat) (proto : UartProto) :
    Option (List PatchPkt) :=
  let pl := plan buf.length numOfCmdSent proto
  downloadLoop pl buf (pl.totalIdx + 1) 0 0 (.at 0)

/-! ## The loop in closed form -/

/-- The index of packet `i` without its top bit. -/
def rolled (i : Nat) : Nat := if i ≤ 127 then i else (i - 1) % 127 + 1

theorem rolled_succ (i : Nat) :
    rolled (i + 1) = if rolled i = 0x7f then 1 else (rolled i + 1) % 2 ^ 16 := by
  unfold rolled
  split <;> split <;> split <;> omega

theorem rolled_le (i : Nat) : rolled i ≤ 127 := by
  unfold rolled
  split <;> omega

theorem rolled_ne_succ (i : Nat) : rolled i ≠ rolled (i + 1) := by
  unfold rolled
  split <;> split <;> omega

def piece (buf : List Byte) (i : Nat) : List Byte := (buf.drop (fieldMax * i)).take fieldMax

def packet (pl : Plan) (buf : List Byte) (i : Nat) : PatchPkt :=
  { index := if i = pl.totalIdx then BitVec.ofNat 8 (rolled i) ||| 0x80#8
      else BitVec.ofNat 8 (rolled i)
    data := if i ≤ pl.endIdx then piece buf i else [] }

theorem rolled_le_self (i : Nat) : rolled i ≤ i := by
  unfold rolled
  split <;> omega

theorem toNat_rolled (i : Nat) : (BitVec.ofNat 8 (rolled i) : Byte).toNat = rolled i := by
  have := rolled_le i
  rw [BitVec.toNat_ofNat]
  omega

/-- What the counters amount to when none of them overflows. -/
structure Plan.Fits (pl : Plan) (buf : List Byte) : Prop where
  pos : 0 < buf.length
  endIdx : pl.endIdx = (buf.length - 1) / fieldMax
  lpLen : fieldMax * pl.endIdx + pl.lpLen = buf.length
  total : pl.endIdx ≤ pl.totalIdx

theorem read_full {pl : Plan} {buf : List Byte} (h : pl.Fits buf) {i : Nat} (hi : i < pl.endIdx) :
    Ptr.read buf fieldMax (.at (fieldMax * i)) = some (piece buf i) := by
  have hend := h.endIdx
  have hpos := h.pos
  refine if_pos ?_
  unfold fieldMax at *
  omega

theorem read_last {pl : Plan} {buf : List Byte} (h : pl.Fits buf) :
    Ptr.read buf pl.lpLen (.at (fieldMax * pl.endIdx)) = some (piece buf pl.endIdx) := by
  have hend := h.endIdx
  have hlp := h.lpLen
  have hrest : (buf.drop (fieldMax * pl.endIdx)).length = pl.lpLen := by
    rw [List.length_drop]
    omega
  have hmax : pl.lpLen ≤ fieldMax := by
    unfold fieldMax at *
    omega
  rw [piece, List.take_of_length_le (by omega)]
  refine (if_pos (by omega)).trans ?_
  rw [List.take_of_length_le (by omega)]

theorem downloadLoop_eq {pl : Plan} {buf : List Byte} (h : pl.Fits buf) (n i : Nat) (p : Ptr)
    (hn : i + n = pl.totalIdx + 1) (hp : i ≤ pl.endIdx → p = .at (fieldMax * i)) :
    downloadLoop pl buf n i (rolled i) p = some ((List.range' i n).map (packet pl buf)) := by
  have htotal := h.total
  induction n generalizing i p with
  | zero => rfl
  | succ n ih =>
    rw [List.range'_succ, List.map_cons, downloadLoop, ← rolled_succ]
    rcases Nat.lt_trichotomy i pl.endIdx with hi | hi | hi
    · -- a full packet; its index is below `endIdx` even when it has rolled over
      have hadv : (BitVec.ofNat 8 (rolled i) : Byte).toNat < pl.endIdx := by
        rw [toNat_rolled]
        exact Nat.lt_of_le_of_lt (rolled_le_self i) hi
      have hrest := ih (i + 1) (.at (fieldMax * i + fieldMax)) (by omega) fun _ => by
        rw [Nat.mul_succ]
      rw [if_pos hi, hp (by omega)]
      dsimp only
      rw [read_full h hi, if_pos hadv, Ptr.advance, hrest, packet, if_neg (by omega),
        if_pos (by omega)]
      rfl
    · have hrest := fun q => ih (i + 1) q (by omega) fun hle => absurd hle (by omega)
      rw [if_neg (by omega), if_pos hi, hp (by omega)]
      subst hi
      by_cases ht : pl.endIdx = pl.totalIdx
      · rw [if_pos ht]
        dsimp only
        rw [read_last h, hrest, packet, if_pos ht, if_pos (Nat.le_refl _)]
        rfl
      · rw [if_neg ht]
        dsimp only
        rw [read_last h, hrest, packet, if_neg ht, if_pos (Nat.le_refl _)]
        rfl
    · have hrest := fun q => ih (i + 1) q (by omega) fun hle => absurd hle (by omega)
      rw [if_neg (by omega), if_neg (by omega)]
      by_cases ht : i < pl.totalIdx
      · rw [if_pos ht]
        dsimp only
        rw [Ptr.read, if_pos rfl, hrest, packet, if_neg (by omega), if_neg (by omega)]
        rfl
      · rw [if_neg ht]
        dsimp only
        rw [Ptr.read, if_pos rfl, hrest, packet, if_pos (by omega), if_neg (by omega)]
        rfl

/-- The commands before the download, its packets and the reset fill up the sequence numbers. -/
theorem plan_aligned (size numOfCmdSent : Nat) :
    (numOfCmdSent + (plan size numOfCmdSent .threeWire).totalIdx + 2) % 8 = 0 := by
  unfold plan fieldMax
  dsimp only
  split <;> split <;> omega

/-! ## Patches that pass the size check -/

section Checked

variable {buf : List Byte} {chipType : Byte} (hpos : 0 < buf.length)
  (hmax : buf.length ≤ maxPatchSize chipType) (numOfCmdSent : Nat) (proto : UartProto)

include hpos hmax

theorem plan_fits : (plan buf.length numOfCmdSent proto).Fits buf := by
  have hlimit := maxPatchSize_le chipType
  have hend : (plan buf.length numOfCmdSent proto).endIdx = (buf.length - 1) / fieldMax := by
    refine Nat.mod_eq_of_lt ?_
    unfold fieldMax
    omega
  refine ⟨hpos, hend, ?_, ?_⟩
  · rw [hend]
    unfold plan fieldMax
    dsimp only
    split <;> omega
  · rw [hend]
    unfold plan fieldMax
    dsimp only
    cases proto with
    | threeWire => dsimp only; split <;> split <;> omega
    | h4 => dsimp only; omega

theorem downloadFwc_eq :
    let pl := plan buf.length numOfCmdSent proto
    downloadFwc buf numOfCmdSent proto =
      some ((List.range' 0 (pl.totalIdx + 1)).map (packet pl buf)) :=
  downloadLoop_eq (plan_fits hpos hmax numOfCmdSent proto) _ 0 (.at 0) (by omega) fun _ => rfl

end Checked

/-! ## What the controller puts together -/

def PatchPkt.isLast (p : PatchPkt) : Bool := p.index.getLsbD 7

/-- A controller that appends the data of the commands up to the one marked as the last. -/
def reassemble : List PatchPkt → Option (List Byte)
  | [] => none
  | p :: ps =>
    if p.isLast then (if ps = [] then some p.data else none)
    else (reassemble ps).map (p.data ++ ·)

theorem packet_isLast {pl : Plan} {buf : List Byte} (i : Nat) :
    (packet pl buf i).isLast = decide (i = pl.totalIdx) := by
  have hlt : rolled i < 2 ^ 7 := Nat.lt_of_le_of_lt (rolled_le i) (by decide)
  have hroll : (BitVec.ofNat 8 (rolled i) : Byte).getLsbD 7 = false := by
    rw [BitVec.getLsbD_ofNat, Nat.testBit_lt_two_pow hlt]
    rfl
  unfold packet PatchPkt.isLast
  dsimp only
  split
  · rename_i h
    rw [BitVec.getLsbD_or, hroll]
    simp [h]
  · rename_i h
    rw [hroll]
    simp [h]

/-- The answer `h5_download_patch` waits for. -/
def PatchPkt.txIndex (p : PatchPkt) : Nat := (p.index &&& 0x7f#8).toNat

theorem packet_txIndex (pl : Plan) (buf : List Byte) (i : Nat) :
    (packet pl buf i).txIndex = rolled i := by
  have key : ∀ r : Fin 128, (BitVec.ofNat 8 r.val &&& 0x7f#8).toNat = r.val ∧
      ((BitVec.ofNat 8 r.val ||| 0x80#8) &&& 0x7f#8).toNat = r.val := by decide
  have hr := key ⟨rolled i, Nat.lt_succ_of_le (rolled_le i)⟩
  unfold packet PatchPkt.txIndex
  dsimp only
  split
  · exact hr.2
  · exact hr.1

theorem packet_length_le (pl : Plan) (buf : List Byte) (i : Nat) :
    (packet pl buf i).data.length ≤ fieldMax := by
  unfold packet piece
  dsimp only
  split
  · rw [List.length_take]
    omega
  · exact Nat.zero_le _

theorem packets_chain (pl : Plan) (buf : List Byte) (n : Nat) :
    ((List.range' 0 n).map (packet pl buf)).IsChain fun p q => p.txIndex ≠ q.txIndex := by
  refine List.isChain_iff_getElem.2 fun i hi => ?_
  simp only [List.getElem_map, List.getElem_range', packet_txIndex, Nat.zero_add, Nat.one_mul]
  exact rolled_ne_succ i

theorem reassemble_packets {pl : Plan} {buf : List Byte} (n i : Nat)
    (hn : i + n = pl.totalIdx) :
    reassemble ((List.range' i (n + 1)).map (packet pl buf)) =
      some ((List.range' i (n + 1)).flatMap fun j => (packet pl buf j).data) := by
  induction n generalizing i with
  | zero =>
    have hlast : (packet pl buf i).isLast = true := by simp [packet_isLast]; omega
    simp [reassemble, hlast]
  | succ n ih =>
    have hlast : (packet pl buf i).isLast = false := by simp [packet_isLast]; omega
    rw [List.range'_succ, List.map_cons, reassemble, hlast, ih (i + 1) (by omega)]
    rfl

theorem flatMap_piece (buf : List Byte) (n : Nat) :
    (List.range' 0 n).flatMap (piece buf) = buf.take (fieldMax * n) := by
  induction n with
  | zero => rfl
  | succ n ih =>
    rw [List.range'_1_concat, List.flatMap_append, ih, Nat.mul_succ, List.take_add]
    simp [piece]

theorem flatMap_packet {pl : Plan} {buf : List Byte} (h : pl.Fits buf) :
    ((List.range' 0 (pl.totalIdx + 1)).flatMap fun j => (packet pl buf j).data) = buf := by
  have hlen : pl.totalIdx + 1 = pl.endIdx + 1 + (pl.totalIdx - pl.endIdx) := by
    have := h.total
    omega
  have hdata : (List.range' 0 (pl.endIdx + 1)).flatMap (fun j => (packet pl buf j).data) =
      (List.range' 0 (pl.endIdx + 1)).flatMap (piece buf) := by
    simp only [List.flatMap]
    refine congrArg List.flatten (List.map_congr_left fun j hj => ?_)
    have := (List.mem_range'_1.1 hj).2
    exact if_pos (by omega)
  have hempty : (List.range' (pl.endIdx + 1) (pl.totalIdx - pl.endIdx)).flatMap
      (fun j => (packet pl buf j).data) = [] := by
    refine List.flatMap_eq_nil_iff.2 fun j hj => ?_
    have := (List.mem_range'_1.1 hj).1
    exact if_neg (by omega)
  have hall : buf.length ≤ fieldMax * (pl.endIdx + 1) := by
    have := h.endIdx
    unfold fieldMax at *
    omega
  rw [hlen, ← List.range'_append_1, List.flatMap_append, hdata, Nat.zero_add, hempty,
    flatMap_piece, List.append_nil, List.take_of_length_le hall]

theorem reassemble_packet {pl : Plan} {buf : List Byte} (h : pl.Fits buf) :
    reassemble ((List.range' 0 (pl.totalIdx + 1)).map (packet pl buf)) = some buf := by
  rw [reassemble_packets _ 0 (Nat.zero_add _), flatMap_packet h]

/-- **The download carries the patch.** For every patch that passes the size check the packets
never read outside it, a controller that puts them together in order has the patch, and no two
packets in a row have the same index, so that one answer cannot stand for two. -/
theorem download_reassembles {buf : List Byte} {chipType : Byte} (hpos : 0 < buf.length)
    (hmax : buf.length ≤ maxPatchSize chipType) (numOfCmdSent : Nat) (proto : UartProto) :
    ∃ pkts, downloadFwc buf numOfCmdSent proto = some pkts ∧ reassemble pkts = some buf ∧
      (∀ p ∈ pkts, p.data.length ≤ fieldMax) ∧
      pkts.IsChain fun p q => p.txIndex ≠ q.txIndex := by
  refine ⟨_, downloadFwc_eq hpos hmax numOfCmdSent proto,
    reassemble_packet (plan_fits hpos hmax numOfCmdSent proto), ?_, packets_chain _ _ _⟩
  intro p hp
  obtain ⟨i, _, rfl⟩ := List.mem_map.1 hp
  exact packet_length_le _ _ _

theorem download_reassembles_oneByte :
    ∃ pkts, downloadFwc [0x42] 5 .threeWire = some pkts ∧ reassemble pkts = some [0x42] := by
  have hpos : 0 < ([0x42] : List Byte).length := by decide
  have hmax : ([0x42] : List Byte).length ≤ maxPatchSize 0x72 := by decide
  obtain ⟨pkts, h1, h2, -⟩ := download_reassembles hpos hmax 5 .threeWire
  exact ⟨pkts, h1, h2⟩

end Bluetooth.Attach
