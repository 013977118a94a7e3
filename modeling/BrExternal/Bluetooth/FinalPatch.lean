import BrExternal.Bluetooth.Sections
import BrExternal.Bluetooth.Download

/-!
# From the files to the patch

`rtb_config` picks the files for the chip, puts patch and config into one buffer
(`rtb_get_final_patch`) and hands it to the download. The buffer comes from `malloc`: a byte that
was not written is `none`.
-/

namespace Bluetooth.Fwc

open Attach

/-! ## The table of chips -/

/-- `patch_info`, with the flags of `match_flags` as fields of their own. -/
structure PatchInfo where
  matchChipType : Bool
  matchHciVer : Bool
  matchHciRev : Bool
  chipType : Byte
  lmpSubver : BitVec 16
  projId : BitVec 16
  hciVer : Byte
  hciRev : BitVec 16
  patchFile : String
  configFile : String
  deriving DecidableEq

/-- `h4_patch_table`, up to the last entry. -/
def h4PatchTable : List PatchInfo :=
  [⟨true, false, false, 0x1F, 0x8761, 0xffff, 0, 0x000a, "rtl8761at_fw", "rtl8761at_config"⟩,
    ⟨true, false, false, 0x2F, 0x8761, 0xffff, 0, 0x000a, "rtl8761atf_fw", "rtl8761atf_config"⟩,
    ⟨true, false, false, 0x3F, 0x8763, 0xffff, 0, 0x000b, "rtl8761btc_fw", "rtl8761btc_config"⟩,
    ⟨true, false, false, 0x4F, 0x8761, 0xffff, 0, 0x000b, "rtl8761bh4_fw", "rtl8761bh4_config"⟩,
    ⟨false, true, true, 0x71, 0x8723, 0x8723, 8, 0x000d, "rtl8723dsh4_fw", "rtl8723dsh4_config"⟩]

/-- `patch_table`, up to the last entry. -/
def patchTable : List PatchInfo :=
  [⟨false, false, false, 0, 0x1200, 0x1200, 0, 0, "rtl8723a_fw", "rtl8723a_config"⟩,
    ⟨false, false, true, 0x72, 0x8821, 0x8821, 0, 0x000c, "rtl8821c_fw", "rtl8821c_config"⟩,
    ⟨false, false, false, 0, 0x8821, 0x8821, 0, 0, "rtl8821a_fw", "rtl8821a_config"⟩,
    ⟨false, true, true, 0, 0x8761, 0x8761, 0x06, 0x000a, "rtl8761a_fw", "rtl8761a_config"⟩,
    ⟨true, true, true, 0x05, 0x8761, 0x8761, 0x0a, 0x000b, "rtl8725as_fw", "rtl8725as_config"⟩,
    ⟨false, true, true, 0x74, 0x8761, 0x8761, 0x0a, 0x000b, "rtl8761b_fw", "rtl8761b_config"⟩,
    ⟨false, false, true, 0x70, 0x8822, 0x8822, 0, 0x000b, "rtl8822b_fw", "rtl8822b_config"⟩,
    ⟨false, false, true, 0x73, 0x8822, 0x8822, 0, 0x000c, "rtl8822cs_fw", "rtl8822cs_config"⟩,
    ⟨false, true, true, 0x79, 0x8822, 0x8822, 0, 0x000e, "rtl8822es_fw", "rtl8822es_config"⟩,
    ⟨false, false, true, 0x75, 0x8852, 0x8852, 11, 0x000a, "rtl8852as_fw", "rtl8852as_config"⟩,
    ⟨true, true, true, 0x00, 0x8852, 0x8852, 11, 0x000b, "rtl8852bs_fw", "rtl8852bs_config"⟩,
    ⟨true, true, true, 0x78, 0x8852, 0x8852, 11, 0x000b, "rtl8852bps_fw", "rtl8852bps_config"⟩,
    ⟨false, false, true, 0x77, 0x8852, 0x8852, 11, 0x000c, "rtl8852cs_fw", "rtl8852cs_config"⟩,
    ⟨false, false, true, 0x7A, 0x8851, 0x8851, 0x0c, 0x000b, "rtl8851bs_fw", "rtl8851bs_config"⟩,
    ⟨true, false, false, 0x07, 0x8703, 0x8703, 0, 0, "rtl8703b_fw", "rtl8703b_config"⟩,
    ⟨true, false, false, 0x05, 0x8703, 0x8704, 0, 0, "rtl8723cs_fw", "rtl8723cs_config"⟩,
    ⟨true, false, false, 0x03, 0x8703, 0x8705, 0, 0, "rtl8723cs_fw", "rtl8723cs_config"⟩,
    ⟨true, false, false, 0x04, 0x8703, 0x8706, 0, 0, "rtl8723cs_fw", "rtl8723cs_config"⟩,
    ⟨false, true, true, 0, 0x8723, 0x8723, 6, 0x000b, "rtl8723b_fw", "rtl8723b_config"⟩,
    ⟨false, true, true, 0x71, 0x8723, 0x8723, 8, 0x000d, "rtl8723d_fw", "rtl8723d_config"⟩,
    ⟨false, true, true, 0x76, 0x8723, 0x8723, 11, 0x000f, "rtl8723fs_fw", "rtl8723fs_config"⟩]

/-- The last entry of both tables. -/
def noneInfo : PatchInfo :=
  ⟨false, false, false, 0, 0, 0x0000, 0, 0, "rtl_none_fw", "rtl_none_config"⟩

structure Chip where
  proto : UartProto
  lmpSubver : BitVec 16
  hciVer : Byte
  hciRev : BitVec 16
  chipType : Byte
  eversion : Byte
  keyId : Byte

def PatchInfo.fits (n : PatchInfo) (chip : Chip) : Bool :=
  (!n.matchChipType || n.chipType == chip.chipType) &&
    (!n.matchHciVer || n.hciVer == chip.hciVer) &&
    (!n.matchHciRev || n.hciRev == chip.hciRev) && n.lmpSubver == chip.lmpSubver

/-- `get_patch_entry`. The last entry stands for every chip that is not in the table. -/
def getPatchEntry (chip : Chip) : PatchInfo :=
  let table := match chip.proto with
    | .threeWire => patchTable
    | .h4 => h4PatchTable
  (table.find? (·.fits chip)).getD noneInfo

/-! ## The buffer -/

abbrev Buf := List (Option Byte)

def memcpy (buf : Buf) (p : Nat) (src : List Byte) : Outcome Buf :=
  if p + src.length ≤ buf.length then
    .ok (buf.take p ++ src.map some ++ buf.drop (p + src.length))
  else .fault

/-- The loop over the nodes in `rtb_get_final_patch`. -/
def copyNodes (fw : List Byte) : List PatchNode → Nat → Buf → Outcome Buf
  | [], _, buf => .ok buf
  | n :: queue, tmpLen, buf => do
    let payload ← slice fw n.payload n.len.toNat
    let buf ← memcpy buf tmpLen payload
    copyNodes fw queue (tmpLen + n.len.toNat) buf

/-- The buffer for the newer format. The length is a signed number; a negative one is more than
`malloc` has. -/
def newPatch (fw config : List Byte) (f : Found) : Outcome Buf :=
  let len := f.patchLen.toNat + config.length
  if f.patchLen = 0#32 then .error
  else if 0x80000000 ≤ f.patchLen.toNat then (if len < 0x100000000 then .error else .fault)
  else if 0x80000000 ≤ len then .fault
  else do
    let buf ← copyNodes fw f.queue 0 (List.replicate len none)
    memcpy buf (len - config.length) config

/-- The buffer for the older format, with the version of the firmware at the end of the patch. -/
def legacyPatch (fw config : List Byte) (eversion : Byte) : Outcome Buf := do
  let entry ← rtbGetPatchEntry fw eversion
  let patch ← slice fw entry.soffset.toNat entry.patchLen.toNat
  let version ← slice fw 8 4
  if entry.patchLen.toNat < 4 then .fault
  else pure ((patch.take (entry.patchLen.toNat - 4) ++ version ++ config).map some)

/-- The buffer for the 8723A, whose file has no signature. -/
def singlePatch (fw config : List Byte) : Outcome Buf :=
  if fw.length < 12 then .fault else .ok ((fw ++ config).map some)

def epatchSignature : List Byte := [0x52, 0x65, 0x61, 0x6C, 0x74, 0x65, 0x63, 0x68]

def epatchSignatureNew : List Byte := [0x52, 0x54, 0x42, 0x54, 0x43, 0x6F, 0x72, 0x65]

/-- The checks of `rtb_get_final_patch`; the result is the signature. -/
def checkImage (chip : Chip) (info : PatchInfo) (fw : List Byte) : Outcome (List Byte) := do
  let signature ← slice fw 0 8
  if signature ≠ epatchSignature ∧ signature ≠ epatchSignatureNew then .error
  else
    let ext ← slice fw (fw.length - 4) 4
    if ext ≠ extensionSignature then .error
    else
      let projId ← getFwProjectId fw
      match projectId[projId.toNat]? with
      | none => .fault
      | some id =>
        if chip.lmpSubver ≠ 0x8703#16 then
          (if chip.lmpSubver ≠ id then .error else .ok signature)
        else (if info.projId ≠ id then .error else .ok signature)

/-- `rtb_get_final_patch`, or `none` when its loops go on after `fuel` passes. -/
def getFinalPatch (fuel : Nat) (chip : Chip) (info : PatchInfo) (fw config : List Byte) :
    Option (Outcome Buf) :=
  if chip.proto = .threeWire ∧ chip.lmpSubver = 0x1200#16 then
    match slice fw 0 8 with
    | .ok signature =>
      if signature = epatchSignature then some .error else some (singlePatch fw config)
    | .error => some .error
    | .fault => some .fault
  else
    match checkImage chip info fw with
    | .ok signature =>
      if signature = epatchSignatureNew then
        match getPatchHeader fuel fw ⟨chip.eversion, chip.keyId⟩ with
        | some (.ok f) => some (newPatch fw config f)
        | some .error => some .error
        | some .fault => some .fault
        | none => none
      else some (legacyPatch fw config chip.eversion)
    | .error => some .error
    | .fault => some .fault

/-! ## The preparation -/

structure Files where
  config : String → Option (List Byte)
  firmware : String → Option (List Byte)
  extra : Option (List Char)
  addr : Option (List Char)

inductive Prepared where
  /-- The buffer, `vendor_baud` and `uart_flow_ctrl` for the download. -/
  | download (total : Buf) (vendorBaud : BitVec 32) (uartFlowCtrl : Bool)
  /-- The function fails. -/
  | fail
  /-- The program ends. -/
  | exit
  | fault
  deriving DecidableEq

/-- `rtb_config` once the config is read: the patch is put together, and its length checked. -/
def finish (fuel : Nat) (chip : Chip) (info : PatchInfo) (files : Files) (config : List Byte)
    (baud : BitVec 32) (flow : Bool) : Option Prepared :=
  match files.firmware info.patchFile with
  | none => some .fail
  | some fw =>
    match getFinalPatch fuel chip info fw config with
    | none => none
    | some .error => some .exit
    | some .fault => some .fault
    | some (.ok total) =>
      if maxPatchSize info.chipType < total.length then some .fail
      else some (.download total baud flow)

/-- `rtb_config` from the choice of the files to the check of the length. -/
def prepare (fuel : Nat) (chip : Chip) (files : Files) : Option Prepared :=
  let info := getPatchEntry chip
  match readConfig files.extra files.addr (files.config info.configFile) info.chipType with
  | .null => finish fuel chip info files [] 0 false
  | .exit => some .exit
  | .fault => some .fault
  | .ok c => finish fuel chip info files c.buf c.vendorBaud c.uartFlowCtrl

/-! ## Filling the buffer -/

def wantedProject (chip : Chip) (info : PatchInfo) : BitVec 16 :=
  if chip.lmpSubver ≠ 0x8703#16 then chip.lmpSubver else info.projId

/-- The extension section names the project of the chip. -/
structure Names (chip : Chip) (info : PatchInfo) (exts : List ExtEntry) : Prop where
  entries : exts ≠ []
  opcodes : ∀ e ∈ exts, e.opcode ≠ 0xff#8
  project : projectId[(projectOf exts).toNat]? = some (wantedProject chip info)

section

variable {chip : Chip} {info : PatchInfo} {exts : List ExtEntry}

theorem checkImage_eq (h : Names chip info exts) {signature : List Byte}
    (hsig : signature = epatchSignature ∨ signature = epatchSignatureNew) (mid : List Byte) :
    checkImage chip info (signature ++ (mid ++ extBytes exts)) = .ok signature := by
  have hlen : signature.length = 8 := by rcases hsig with rfl | rfl <;> rfl
  have hfirst : slice (signature ++ (mid ++ extBytes exts)) 0 8 = .ok signature :=
    slice_eq rfl hlen
  have hlast : slice (signature ++ (mid ++ extBytes exts))
      ((signature ++ (mid ++ extBytes exts)).length - 4) 4 = .ok extensionSignature := by
    have hcut : signature ++ (mid ++ extBytes exts) =
        (signature ++ (mid ++ (exts.flatMap ExtEntry.back ++ [0xff]).reverse)) ++
          extensionSignature := by
      rw [extBytes]
      simp only [List.append_assoc]
    have hdrop : (signature ++ (mid ++ extBytes exts)).drop
        ((signature ++ (mid ++ extBytes exts)).length - 4) = extensionSignature ++ [] := by
      rw [hcut, List.length_append, List.append_nil]
      exact List.drop_left
    exact slice_eq hdrop rfl
  have hproj : getFwProjectId (signature ++ (mid ++ extBytes exts)) = .ok (projectOf exts) := by
    rw [← List.append_assoc]
    exact getFwProjectId_extBytes h.entries h.opcodes _
  have hknown : ¬ (signature ≠ epatchSignature ∧ signature ≠ epatchSignatureNew) := by
    rcases hsig with h | h <;> simp [h]
  rw [checkImage, hfirst, Outcome.ok_bind, if_neg hknown, hlast, Outcome.ok_bind,
    if_neg (not_not.2 rfl), hproj, Outcome.ok_bind, h.project]
  unfold wantedProject
  dsimp only
  split <;> simp

/-! ## The newer format -/

def legacyImage (version : List Byte) (es : List PatchEntry) (body : List Byte)
    (exts : List ExtEntry) : List Byte :=
  epatchSignature ++ (tableBytes version es ++ body ++ extBytes exts)

/-- The patch of an entry without its last four bytes. -/
def patchOf (fw : List Byte) (e : PatchEntry) : List Byte :=
  (fw.drop e.soffset.toNat).take (e.patchLen.toNat - 4)

/-- The patch lies in the image and has room for the version. -/
structure PatchEntry.Within (e : PatchEntry) (fw : List Byte) : Prop where
  version : 4 ≤ e.patchLen.toNat
  logged : 12 ≤ e.soffset.toNat + e.patchLen.toNat
  inside : e.soffset.toNat + e.patchLen.toNat ≤ fw.length

theorem legacyPatch_eq {version body config : List Byte} {es : List PatchEntry} {e : PatchEntry}
    {eversion : Byte} (hver : version.length = 4) (hes : es.length < 0x10000)
    (he : es.find? (·.chipId.toNat = eversion.toNat + 1) = some e)
    (hin : e.Within (legacyImage version es body exts)) :
    legacyPatch (legacyImage version es body exts) config eversion =
      .ok ((patchOf (legacyImage version es body exts) e ++ version ++ config).map some) := by
  have himage : legacyImage version es body exts =
      epatchSignature ++ tableBytes version es ++ (body ++ extBytes exts) := by
    rw [legacyImage]
    simp only [List.append_assoc]
  have h8 : slice (legacyImage version es body exts) 8 4 = .ok version := by
    have hdrop : (legacyImage version es body exts).drop 8 = version ++
        (le16Bytes (BitVec.ofNat 16 es.length) ++ (es.flatMap (le16Bytes ·.chipId) ++
          (es.flatMap (le16Bytes ·.patchLen) ++ (es.flatMap (le32Bytes ·.soffset) ++
            (body ++ extBytes exts))))) := by
      rw [legacyImage, tableBytes]
      simp only [List.append_assoc]
      exact List.drop_left' rfl
    exact slice_eq hdrop hver
  have hentry := rtbGetPatchEntry_table (show epatchSignature.length = 8 from rfl) hver hes
    (body ++ extBytes exts) eversion
  rw [← himage, he] at hentry
  obtain ⟨h4, h12, hinside⟩ := hin
  generalize legacyImage version es body exts = fw at h8 hentry hinside
  have hlog : logVersions fw e = .ok e := by
    rw [logVersions, if_neg (by omega), slice_of_le (by rw [List.length_drop]; omega)]
    rfl
  have hpatch : slice fw e.soffset.toNat e.patchLen.toNat =
      .ok ((fw.drop e.soffset.toNat).take e.patchLen.toNat) :=
    slice_of_le (by rw [List.length_drop]; omega)
  rw [legacyPatch, hentry]
  dsimp only
  rw [hlog, Outcome.ok_bind, hpatch, Outcome.ok_bind, h8, Outcome.ok_bind, if_neg (by omega),
    List.take_take, Nat.min_eq_left (Nat.sub_le _ _)]
  rfl

theorem legacy_image_patch {version body config : List Byte} {es : List PatchEntry} {e : PatchEntry}
    (fuel : Nat) (h8723a : ¬ (chip.proto = .threeWire ∧ chip.lmpSubver = 0x1200#16))
    (hext : Names chip info exts) (hver : version.length = 4) (hes : es.length < 0x10000)
    (he : es.find? (·.chipId.toNat = chip.eversion.toNat + 1) = some e)
    (hin : e.Within (legacyImage version es body exts)) :
    getFinalPatch fuel chip info (legacyImage version es body exts) config =
      some (.ok
        ((patchOf (legacyImage version es body exts) e ++ version ++ config).map some)) := by
  have hcheck : checkImage chip info (legacyImage version es body exts) = .ok epatchSignature :=
    checkImage_eq hext (.inl rfl) _
  rw [getFinalPatch, if_neg h8723a, hcheck]
  dsimp only
  rw [if_neg (by decide)]
  exact congrArg some (legacyPatch_eq hver hes he hin)

end

/-! ## The board's chip -/

theorem getPatchEntry_8821cs {chip : Chip} (hproto : chip.proto = .threeWire)
    (hlmp : chip.lmpSubver = 0x8821) (hrev : chip.hciRev = 0x000c) :
    (getPatchEntry chip).chipType = 0x72 ∧ (getPatchEntry chip).patchFile = "rtl8821c_fw" ∧
      (getPatchEntry chip).configFile = "rtl8821c_config" := by
  simp [getPatchEntry, hproto, patchTable, PatchInfo.fits, hlmp, hrev]

theorem finish_eq {fuel : Nat} {chip : Chip} {info : PatchInfo} {files : Files}
    {fw config total : List Byte} (hfw : files.firmware info.patchFile = some fw)
    (hfinal : getFinalPatch fuel chip info fw config = some (.ok (total.map some)))
    (hmax : total.length ≤ maxPatchSize info.chipType) (baud : BitVec 32) (flow : Bool) :
    finish fuel chip info files config baud flow =
      some (.download (total.map some) baud flow) := by
  rw [finish, hfw]
  dsimp only
  rw [hfinal]
  dsimp only
  rw [List.length_map, if_neg (by omega)]

/-- **From the files to the controller.** For an RTL8821CS with a valid config and an image of the
older format that has a patch for its revision, which with the config and the 143 bytes that may be
added to it is no longer than the 40 KiB of the chip, the tool prepares this patch with the version
of the firmware at its end, followed by the config with the settings of the text files merged in.
The packets of the download put together are just that. -/
theorem prepared_8821cs {chip : Chip} {files : Files} {version body : List Byte}
    {es : List PatchEntry} {exts : List ExtEntry} {e : PatchEntry} {items : List CfgItem}
    (fuel : Nat) (hproto : chip.proto = .threeWire) (hlmp : chip.lmpSubver = 0x8821)
    (hrev : chip.hciRev = 0x000c)
    (hfw : files.firmware "rtl8821c_fw" = some (legacyImage version es body exts))
    (hcfg : files.config "rtl8821c_config" = some (configBytes items))
    (hext : Names chip (getPatchEntry chip) exts) (hver : version.length = 4)
    (hes : es.length < 0x10000)
    (he : es.find? (·.chipId.toNat = chip.eversion.toNat + 1) = some e)
    (hin : e.Within (legacyImage version es body exts))
    (hsize : e.patchLen.toNat + sizes items + 143 ≤ 40 * 1024) :
    let total := patchOf (legacyImage version es body exts) e ++ version ++
      configBytes (merged files.extra files.addr 0x72 items)
    (∃ baud flow, prepare fuel chip files = some (.download (total.map some) baud flow)) ∧
      ∀ numOfCmdSent, ∃ pkts, downloadFwc total numOfCmdSent .threeWire = some pkts ∧
        reassemble pkts = some total := by
  intro total
  have h8723a : ¬ (chip.proto = .threeWire ∧ chip.lmpSubver = 0x1200#16) := by
    rw [hlmp]
    exact fun h => absurd h.2 (by decide)
  have hmerged := merged_sizes files.extra files.addr 0x72 items
  have hlen : total.length = e.patchLen.toNat + 6 +
      sizes (merged files.extra files.addr 0x72 items) := by
    have hpatch : (patchOf (legacyImage version es body exts) e).length = e.patchLen.toNat - 4 := by
      have := hin.inside
      rw [patchOf, List.length_take, List.length_drop]
      omega
    have := hin.version
    simp only [total, List.length_append, hpatch, hver, configBytes_length]
    omega
  have hmax : total.length ≤ maxPatchSize 0x72 := by
    show _ ≤ 40 * 1024
    omega
  obtain ⟨htype, hpatch, hconfig⟩ := getPatchEntry_8821cs hproto hlmp hrev
  obtain ⟨baud, flow, hread⟩ : ∃ baud flow, readConfig files.extra files.addr
      (files.config "rtl8821c_config") 0x72 =
        .ok ⟨configBytes (merged files.extra files.addr 0x72 items), baud, flow⟩ := by
    have h := readConfig_configBytes files.extra files.addr 0x72
      (show sizes items + 143 < 0x10000 by omega)
    rw [← hcfg] at h
    exact ⟨_, _, h⟩
  refine ⟨⟨baud, flow, ?_⟩, fun num => ?_⟩
  · rw [prepare, htype, hconfig, hread]
    exact finish_eq (by rw [hpatch, hfw])
      (legacy_image_patch fuel h8723a hext hver hes he hin) (by rw [htype]; exact hmax) _ _
  · exact ⟨_, downloadFwc_eq (by omega) hmax num .threeWire,
      reassemble_packet (plan_fits (by omega) hmax num .threeWire)⟩

def smallImage : List Byte :=
  legacyImage [0x01, 0x02, 0x03, 0x04] [⟨1, 12, 22⟩]
    [0xa0, 0xa1, 0xa2, 0xa3, 0xa4, 0xa5, 0xa6, 0xa7, 0xa8, 0xa9, 0xaa, 0xab]
    [⟨0x00, [10], by decide⟩]

theorem prepared_8821cs_small : ∃ baud flow,
    prepare 0 ⟨.threeWire, 0x8821, 8, 0x000c, 0x00, 0, 0⟩
        ⟨fun _ => some (configBytes shipped), fun _ => some smallImage, none, none⟩ =
      some (.download (([0xa0, 0xa1, 0xa2, 0xa3, 0xa4, 0xa5, 0xa6, 0xa7, 0x01, 0x02, 0x03, 0x04] ++
        configBytes shipped).map some) baud flow) := by
  have hext : Names ⟨.threeWire, 0x8821, 8, 0x000c, 0x00, 0, 0⟩
      (getPatchEntry ⟨.threeWire, 0x8821, 8, 0x000c, 0x00, 0, 0⟩) [⟨0x00, [10], by decide⟩] :=
    ⟨List.cons_ne_nil _ _, by simp, by decide⟩
  have hin : PatchEntry.Within ⟨1, 12, 22⟩ smallImage := ⟨by decide, by decide, by decide⟩
  exact (prepared_8821cs 0 rfl rfl rfl rfl rfl hext rfl (by decide) rfl hin (by decide)).1

end Bluetooth.Fwc
