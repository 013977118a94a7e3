import BrExternal.Bluetooth.Image
import Mathlib.Data.List.Sort
import Mathlib.Data.List.Forall2

/-!
# The sections of the newer format

An image of the newer format is a list of sections, each with patches for several revisions of the
chip. `rtb_get_patch_header` collects the ones for the chip at hand in the order of their priority.
Its loops count in 16 bits up to a 32 bit bound and can run for ever; `headerLoop` is given the
number of passes it may take.
-/

namespace Bluetooth.Fwc

structure PatchNode where
  pri : Byte
  len : BitVec 32
  /-- Where the payload starts in the image. -/
  payload : Nat
  deriving DecidableEq

/-- `insert_queue_sort`: before the first node that does not come earlier. -/
def insertQueueSort (node : PatchNode) : List PatchNode → List PatchNode
  | [] => [node]
  | tmp :: queue =>
    if node.pri ≤ tmp.pri then node :: tmp :: queue else tmp :: insertQueueSort node queue

/-- The sections that hold patches. -/
inductive Kind where
  | snippets
  | dummyHeader
  | securityHeader
  deriving DecidableEq

/-- What the scan has found: the nodes, `patch_len` and `sec_flag`. -/
structure Found where
  queue : List PatchNode
  patchLen : BitVec 32
  secFlag : Bool
  deriving DecidableEq

/-- The chip whose patches are wanted, and the key it was given. -/
structure Target where
  eversion : Byte
  keyId : Byte

/-- The loop of `insert_patch`, with `k` patches left. -/
def insertLoop (fw : List Byte) (t : Target) (kind : Kind) : Nat → Nat → Found → Outcome Found
  | 0, _, found => .ok found
  | k + 1, pos, found => do
    let eco ← read8 fw pos
    if eco.toNat = t.eversion.toNat + 1 then
      let pri ← read8 fw (pos + 1)
      let len ← read32 fw (pos + 4)
      let patchLen := found.patchLen + len
      if kind = .securityHeader then
        if t.keyId = pri ∧ 0#8 < t.keyId then
          insertLoop fw t kind k (pos + (8 + len).toNat)
            ⟨insertQueueSort ⟨pri, len, pos + 8⟩ found.queue, patchLen, true⟩
        else insertLoop fw t kind k (pos + (8 + len).toNat) ⟨found.queue, patchLen, found.secFlag⟩
      else
        insertLoop fw t kind k (pos + (8 + len).toNat)
          ⟨insertQueueSort ⟨pri, len, pos + 8⟩ found.queue, patchLen, found.secFlag⟩
    else
      let len ← read32 fw (pos + 4)
      insertLoop fw t kind k (pos + (8 + len).toNat) found

def insertPatch (fw : List Byte) (t : Target) (kind : Kind) (sectionPos : Nat) (found : Found) :
    Outcome Found := do
  let numbers ← read16 fw (sectionPos + 8)
  insertLoop fw t kind numbers.toNat (sectionPos + 12) found

/-- Where `rtb_get_patch_header` is. `inner` is the loop over the dummy headers, which shares `i`
and `section_pos` with the outer one. -/
structure Scan where
  i : BitVec 16
  pos : Nat
  sectionLen : BitVec 32
  inner : Bool
  found : Found
  deriving DecidableEq

def Scan.next (s : Scan) (len : BitVec 32) (found : Found) : Scan :=
  { s with i := s.i + 1, pos := s.pos + (8 + len).toNat, sectionLen := len, found := found }

/-- One pass of the loop over the dummy headers, or the way back to the outer loop. -/
def stepInner (fw : List Byte) (t : Target) (n : BitVec 32) (s : Scan) : Outcome Scan :=
  if s.i.toNat < n.toNat then do
    let opcode ← read32 fw s.pos
    let len ← read32 fw (s.pos + 4)
    if opcode = 0x02#32 then
      let found ← insertPatch fw t .dummyHeader s.pos s.found
      pure (s.next len found)
    else pure (s.next len s.found)
  else .ok { s.next s.sectionLen s.found with inner := false }

/-- What the outer loop does with a section. The loop over the flags of an OTA section takes the
length of the section for their number, and never ends when that needs more than 16 bits. -/
def stepSection (fw : List Byte) (t : Target) (s : Scan) (opcode len : BitVec 32) : Outcome Scan :=
  if opcode = 0x01#32 then do
    let found ← insertPatch fw t .snippets s.pos s.found
    pure (s.next len found)
  else if opcode = 0x03#32 then
    if t.keyId = 0#8 then .ok (s.next len s.found)
    else do
      let found ← insertPatch fw t .securityHeader s.pos { s.found with secFlag := false }
      if found.secFlag then pure (s.next len found)
      else pure { s with i := 0, inner := true, found := found }
  else if opcode = 0x02#32 then
    if t.keyId ≠ 0#8 then .ok (s.next len s.found)
    else do
      let found ← insertPatch fw t .dummyHeader s.pos s.found
      pure (s.next len found)
  else if opcode = 0x04#32 then do
    let eco ← read8 fw (s.pos + 5)
    if eco.toNat = t.eversion.toNat + 1 ∧ len ≠ 0#32 then
      let _ ← read32 fw (s.pos + 8)
      if len.toNat < 0x10000 then pure (s.next len s.found) else pure s
    else pure (s.next len s.found)
  else .ok (s.next len s.found)

def stepOuter (fw : List Byte) (t : Target) (s : Scan) : Outcome Scan := do
  let opcode ← read32 fw s.pos
  let len ← read32 fw (s.pos + 4)
  stepSection fw t s opcode len

/-- The loops of `rtb_get_patch_header`, or `none` when they go on after `fuel` passes. -/
def headerLoop (fw : List Byte) (t : Target) (n : BitVec 32) : Nat → Scan → Option (Outcome Found)
  | 0, s => if s.inner = false ∧ n.toNat ≤ s.i.toNat then some (.ok s.found) else none
  | fuel + 1, s =>
    if s.inner = false ∧ n.toNat ≤ s.i.toNat then some (.ok s.found)
    else
      match if s.inner then stepInner fw t n s else stepOuter fw t s with
      | .ok s => headerLoop fw t n fuel s
      | .error => some .error
      | .fault => some .fault

def getPatchHeader (fuel : Nat) (fw : List Byte) (t : Target) : Option (Outcome Found) :=
  match read32 fw 16 with
  | .ok n => headerLoop fw t n fuel ⟨0, 20, 0, false, ⟨[], 0, false⟩⟩
  | .error => some .error
  | .fault => some .fault

/-! ## What an image holds -/

structure SubPatch where
  eco : Byte
  pri : Byte
  reserve : BitVec 16
  payload : List Byte
  fits : payload.length + 8 < 0x100000000

def SubPatch.bytes (s : SubPatch) : List Byte :=
  [s.eco, s.pri] ++ le16Bytes s.reserve ++ le32Bytes (BitVec.ofNat 32 s.payload.length) ++ s.payload

/-- A section; `tail` is what may follow the patches. -/
inductive Section where
  | patches (kind : Kind) (subs : List SubPatch) (reserve : BitVec 16) (tail : List Byte)
  | other (opcode : BitVec 32) (body : List Byte)

namespace Section

def opcode : Section → BitVec 32
  | patches .snippets .. => 0x01
  | patches .dummyHeader .. => 0x02
  | patches .securityHeader .. => 0x03
  | other opcode _ => opcode

def body : Section → List Byte
  | patches _ subs reserve tail =>
    le16Bytes (BitVec.ofNat 16 subs.length) ++ le16Bytes reserve ++
      (subs.flatMap SubPatch.bytes ++ tail)
  | other _ body => body

def bytes (s : Section) : List Byte :=
  le32Bytes s.opcode ++ le32Bytes (BitVec.ofNat 32 s.body.length) ++ s.body

/-- The lengths fit their fields. An OTA section has room for a flag, and its length fits the 16
bits of the loop over it. -/
def Ok : Section → Prop
  | patches kind subs reserve tail =>
    subs.length < 0x10000 ∧ (patches kind subs reserve tail).body.length + 8 < 0x100000000
  | other opcode body => opcode ∉ [0x01#32, 0x02#32, 0x03#32] ∧ body.length + 8 < 0x100000000 ∧
      (opcode = 0x04#32 → 4 ≤ body.length ∧ body.length < 0x10000)

end Section

/-! ## The patches that are picked -/

/-- What the scan should find: the patches in their order, the length of all that were looked at for
the revision, and whether one had the key. -/
structure Picked where
  queue : List SubPatch
  total : Nat
  secFlag : Bool

def SubPatch.Before (a b : SubPatch) : Prop := a.pri ≤ b.pri

instance : DecidableRel SubPatch.Before := fun a b => inferInstanceAs (Decidable (a.pri ≤ b.pri))

namespace Picked

variable (t : Target)

def add (kind : Kind) (p : Picked) (s : SubPatch) : Picked :=
  if s.eco.toNat = t.eversion.toNat + 1 then
    if kind = .securityHeader then
      if t.keyId = s.pri ∧ 0#8 < t.keyId then
        ⟨p.queue.orderedInsert SubPatch.Before s, p.total + s.payload.length, true⟩
      else ⟨p.queue, p.total + s.payload.length, p.secFlag⟩
    else ⟨p.queue.orderedInsert SubPatch.Before s, p.total + s.payload.length, p.secFlag⟩
  else p

def scan (p : Picked) : Section → Picked
  | .patches .snippets subs _ _ => subs.foldl (add t .snippets) p
  | .patches .dummyHeader subs _ _ =>
    if t.keyId ≠ 0#8 then p else subs.foldl (add t .dummyHeader) p
  | .patches .securityHeader subs _ _ =>
    if t.keyId = 0#8 then p else subs.foldl (add t .securityHeader) { p with secFlag := false }
  | .other .. => p

end Picked

structure PatchNode.Holds (fw : List Byte) (n : PatchNode) (s : SubPatch) : Prop where
  pri : n.pri = s.pri
  payload : slice fw n.payload n.len.toNat = .ok s.payload

structure Found.Shows (fw : List Byte) (f : Found) (p : Picked) : Prop where
  queue : List.Forall₂ (PatchNode.Holds fw) f.queue p.queue
  len : f.patchLen = BitVec.ofNat 32 p.total
  secFlag : f.secFlag = p.secFlag

section

variable {fw rest : List Byte} {t : Target}

theorem holds_insertQueueSort {n : PatchNode} {s : SubPatch} {queue : List PatchNode}
    {q : List SubPatch} (h : n.Holds fw s) (hq : List.Forall₂ (PatchNode.Holds fw) queue q) :
    List.Forall₂ (PatchNode.Holds fw) (insertQueueSort n queue)
      (q.orderedInsert SubPatch.Before s) := by
  induction hq with
  | nil => exact .cons h .nil
  | @cons m r queue q hm hq ih =>
    rw [insertQueueSort, List.orderedInsert]
    by_cases hle : n.pri ≤ m.pri
    · have hb : s.Before r := by rwa [SubPatch.Before, ← h.pri, ← hm.pri]
      rw [if_pos hle, if_pos hb]
      exact .cons h (.cons hm hq)
    · have hb : ¬ s.Before r := by rwa [SubPatch.Before, ← h.pri, ← hm.pri]
      rw [if_neg hle, if_neg hb]
      exact .cons hm ih

/-- Picking one patch more. -/
theorem Found.Shows.add {f : Found} {p : Picked} (h : f.Shows fw p) {n : PatchNode} {s : SubPatch}
    (hn : n.Holds fw s) (flag : Bool) :
    Found.Shows fw ⟨insertQueueSort n f.queue, f.patchLen + BitVec.ofNat 32 s.payload.length, flag⟩
      ⟨p.queue.orderedInsert SubPatch.Before s, p.total + s.payload.length, flag⟩ where
  queue := holds_insertQueueSort hn h.queue
  len := by rw [h.len, BitVec.ofNat_add]
  secFlag := rfl

end

/-! ## The picked patches in closed form -/

def payloads (subs : List SubPatch) : List Byte := subs.flatMap (·.payload)

theorem payloads_append (subs subs' : List SubPatch) :
    payloads (subs ++ subs') = payloads subs ++ payloads subs' := List.flatMap_append

section

variable (t : Target)

def enqueue (q subs : List SubPatch) : List SubPatch :=
  subs.foldl (fun q s => q.orderedInsert SubPatch.Before s) q

theorem enqueue_append (q subs subs' : List SubPatch) :
    enqueue q (subs ++ subs') = enqueue (enqueue q subs) subs' := List.foldl_append ..

variable {t}

/-- A pick follows: the patches come into the queue, and their length and that of the ones passed
over is added. -/
structure Picked.Follows (p p' : Picked) (subs passed : List SubPatch) : Prop where
  queue : p'.queue = enqueue p.queue subs
  total : p'.total = p.total + (payloads subs).length + (payloads passed).length

theorem Picked.Follows.trans {p p' p'' : Picked} {subs passed subs' passed' : List SubPatch}
    (h : p.Follows p' subs passed) (h' : p'.Follows p'' subs' passed') :
    p.Follows p'' (subs ++ subs') (passed ++ passed') where
  queue := by rw [h'.queue, h.queue, enqueue_append]
  total := by
    rw [h'.total, h.total, payloads_append, payloads_append, List.length_append, List.length_append]
    omega

end

end Bluetooth.Fwc
