import BrExternal.Publish.SemVer
import BrExternal.Lib.Json

/-!
# `manifest.json` and `latest.json`

The record `publish-r2.yml` prints for a release, its JSON text as `printf` lays it
out, and the `grep -oP '"version":"\K[^"]+'` that reads the version back from
`latest.json`. That reading finds exactly the version that was printed
(`grepVersion_text`), and a reader of the JSON finds the version, the digests and the
sizes (`stated_text`).
-/

namespace BrExternal.Publish

open Text

abbrev Bytes := List UInt8

/-- A value printed between double quotes. -/
structure Field where
  text : String
  noQuote : '"' ∉ text.toList
  deriving DecidableEq

/-- The digest the script prints for an absent image. -/
def Field.dash : Field := ⟨"-", by decide⟩

structure Image where
  sha256 : Field
  bytes : Nat
  deriving DecidableEq

/-- What the manifest says of a release. -/
structure Manifest where
  version : Tag
  released : Field
  ext2 : Image
  erofs : Image
  deriving DecidableEq

/-! The fixed parts of the format string, up to each `%s`. -/

def fmtVersion : String := "\x7b\"product\":\"br-external\",\"version\":\""
def fmtReleased : String := "\",\"released\":\""
def fmtExt2Url : String := "\",\"images\":\x7b\"ext2\":\x7b\"url\":\"releases/"
def fmtExt2Sha : String := "/rootfs.ext2.zst\",\"sha256\":\""
def fmtBytes : String := "\",\"bytes\":"
def fmtErofsUrl : String := "\x7d,\"erofs\":\x7b\"url\":\"releases/"
def fmtErofsSha : String := "/rootfs.erofs\",\"sha256\":\""
def fmtEnd : String := "\x7d\x7d\x7d\n"

def Manifest.text (m : Manifest) : String :=
  fmtVersion ++ m.version.text ++ fmtReleased ++ m.released.text ++
  fmtExt2Url ++ m.version.text ++ fmtExt2Sha ++ m.ext2.sha256.text ++
  fmtBytes ++ toString m.ext2.bytes ++
  fmtErofsUrl ++ m.version.text ++ fmtErofsSha ++ m.erofs.sha256.text ++
  fmtBytes ++ toString m.erofs.bytes ++ fmtEnd

def versionLit : List Char := "\"version\":\"".toList

/-- `grep -oP '"version":"\K[^"]+'`, one line a match. -/
def grepVersion (s : String) : List String :=
  (grepRuns versionLit (fun c => c ≠ '"') 1 s.toList).map String.ofList

/-! ## The reading -/

theorem Tag.noQuote (t : Tag) : '"' ∉ t.text.toList := by
  intro h
  rcases t.legal _ h with h | h | h
  · exact absurd h (by decide)
  · exact absurd h (by decide)
  · exact absurd h (by decide)

theorem toString_noQuote (n : Nat) : '"' ∉ (toString n).toList := by
  intro h
  rw [Nat.toString_eq_repr, Nat.toList_repr] at h
  exact absurd (Nat.isDigit_of_mem_toDigits (by decide) (by decide) h) (by decide)

abbrev scan (s : List Char) : List (List Char) :=
  grepFrom versionLit (fun c => c ≠ '"') 1 0 s

theorem scan_free {u : List Char} (h : '"' ∉ u) (r : List Char) : scan (u ++ r) = scan r :=
  grepFrom_free h r

/-- A literal that opens a quoted value and holds no version field before it. -/
def opens (p : List Char) : Bool := p.getLast? = some '"' && quiet versionLit p.dropLast

/-- A literal that closes a quoted value inside an object. -/
def closes (q : List Char) : Bool := q.take 2 = ['"', ',']

theorem scan_value {p u q : List Char} (hp : opens p = true) (hu : '"' ∉ u)
    (hq : closes q = true) (r : List Char) : scan (p ++ (u ++ (q ++ r))) = scan (q ++ r) := by
  simp only [opens, Bool.and_eq_true, decide_eq_true_eq] at hp
  simp only [closes, decide_eq_true_eq] at hq
  obtain ⟨q', rfl⟩ : ∃ q', q = '"' :: ',' :: q' := ⟨q.drop 2, by
    rw [← List.take_append_drop 2 q, hq]; rfl⟩
  have hmiss : ∀ t, '"' :: (u ++ '"' :: ',' :: (q' ++ r)) ≠ versionLit ++ t := by
    intro t he
    have hlit : versionLit ++ t = '"' :: ("version".toList ++ '"' :: (':' :: '"' :: t)) := rfl
    rw [hlit] at he
    obtain ⟨-, hr⟩ := append_sep_inj hu (by decide) (List.cons.inj he).2
    exact absurd (List.cons.inj hr).1 (by decide)
  have hsplit : p ++ (u ++ ('"' :: ',' :: q' ++ r)) =
      p.dropLast ++ ('"' :: (u ++ '"' :: ',' :: (q' ++ r))) := by
    nth_rewrite 1 [← List.dropLast_append_getLast? '"' hp.1]
    rw [List.append_assoc]
    rfl
  calc scan (p ++ (u ++ ('"' :: ',' :: q' ++ r)))
      = scan (p.dropLast ++ ('"' :: (u ++ '"' :: ',' :: (q' ++ r)))) := by rw [hsplit]
    _ = scan ('"' :: (u ++ '"' :: ',' :: (q' ++ r))) := grepFrom_quiet hp.2 _
    _ = scan (u ++ ('"' :: ',' :: (q' ++ r))) := grepFrom_miss hmiss
    _ = scan ('"' :: ',' :: (q' ++ r)) := scan_free hu _

theorem scan_quiet {u : List Char} (h : quiet versionLit u = true) (r : List Char) :
    scan (u ++ r) = scan r :=
  grepFrom_quiet h r

theorem scan_version (t : Tag) {q : List Char} (hq : closes q = true) (r : List Char) :
    scan (fmtVersion.toList ++ (t.text.toList ++ (q ++ r))) = t.text.toList :: scan (q ++ r) := by
  simp only [closes, decide_eq_true_eq] at hq
  obtain ⟨q', rfl⟩ : ∃ q', q = '"' :: ',' :: q' := ⟨q.drop 2, by
    rw [← List.take_append_drop 2 q, hq]; rfl⟩
  have hrun : ∀ c ∈ t.text.toList, decide (c ≠ '"') = true := fun c hc =>
    decide_eq_true fun he => t.noQuote (he ▸ hc)
  have hfmt : fmtVersion.toList = "\x7b\"product\":\"br-external\",".toList ++ versionLit := by
    decide
  have hhead : quiet versionLit "\x7b\"product\":\"br-external\",".toList = true := by decide
  have hnext : ∀ c ∈ ('"' :: ',' :: q' ++ r).head?, decide (c ≠ '"') = false := by
    intro c hc
    cases hc
    rfl
  rw [hfmt, List.append_assoc, scan_quiet hhead]
  exact grepFrom_hit hrun (List.length_pos_iff.2 t.nonempty) hnext

/-- The text of a manifest holds one version field, the manifest's. -/
theorem scan_text (m : Manifest) : scan m.text.toList = [m.version.text.toList] := by
  have hreleased : opens fmtReleased.toList = true ∧ closes fmtReleased.toList = true := by decide
  have hurl : closes fmtExt2Url.toList = true ∧ quiet versionLit fmtExt2Url.toList = true := by
    decide
  have hext2 : opens fmtExt2Sha.toList = true := by decide
  have hbytes : closes fmtBytes.toList = true ∧ quiet versionLit fmtBytes.toList = true := by decide
  have herofs : quiet versionLit fmtErofsUrl.toList = true ∧ opens fmtErofsSha.toList = true := by
    decide
  have hend : scan fmtEnd.toList = [] := by decide
  delta Manifest.text
  simp only [String.toList_append, List.append_assoc]
  rw [scan_version m.version hreleased.2, scan_value hreleased.1 m.released.noQuote hurl.1,
    scan_quiet hurl.2, scan_free m.version.noQuote,
    scan_value hext2 m.ext2.sha256.noQuote hbytes.1, scan_quiet hbytes.2,
    scan_free (toString_noQuote _), scan_quiet herofs.1, scan_free m.version.noQuote,
    scan_value herofs.2 m.erofs.sha256.noQuote hbytes.1, scan_quiet hbytes.2,
    scan_free (toString_noQuote _), hend]

/-- **The pointer reads back.** `grep` finds the version of a manifest in its text. -/
theorem grepVersion_text (m : Manifest) : grepVersion m.text = [m.version.text] := by
  have h : grepRuns versionLit (fun c => c ≠ '"') 1 m.text.toList = [m.version.text.toList] :=
    scan_text m
  rw [grepVersion, h, List.map_singleton, String.ofList_toList]

/-! ## What the text states -/

/-- What a reader of the text learns of an image. -/
structure StatedImage where
  sha256 : String
  bytes : Nat
  deriving DecidableEq

/-- What a reader of the text learns of a release. -/
structure Stated where
  version : String
  ext2 : StatedImage
  erofs : StatedImage
  deriving DecidableEq

def statedImage (j : Json) : Option StatedImage := do
  let sha256 ← (← j.get "sha256").string
  let bytes ← (← j.get "bytes").nat
  return ⟨sha256, bytes⟩

/-- The fields of a JSON text of the layout of `manifest.json`. -/
def stated (text : String) : Option Stated := do
  let j ← Json.parse text.toList
  let version ← (← j.get "version").string
  let images ← j.get "images"
  let ext2 ← statedImage (← images.get "ext2")
  let erofs ← statedImage (← images.get "erofs")
  return ⟨version, ext2, erofs⟩

def Image.stated (i : Image) : StatedImage := ⟨i.sha256.text, i.bytes⟩

def Manifest.stated (m : Manifest) : Stated := ⟨m.version.text, m.ext2.stated, m.erofs.stated⟩

def Image.json (i : Image) (url : List Char) : Json :=
  .obj [("url".toList, .str url), ("sha256".toList, .str i.sha256.text.toList),
    ("bytes".toList, .num i.bytes)]

def Manifest.url (m : Manifest) (file : String) : List Char :=
  "releases/".toList ++ (m.version.text.toList ++ ("/".toList ++ file.toList))

def Manifest.json (m : Manifest) : Json :=
  .obj [("product".toList, .str "br-external".toList),
    ("version".toList, .str m.version.text.toList),
    ("released".toList, .str m.released.text.toList),
    ("images".toList, .obj [("ext2".toList, m.ext2.json (m.url "rootfs.ext2.zst")),
      ("erofs".toList, m.erofs.json (m.url "rootfs.erofs"))])]

theorem Image.print_json (i : Image) (url : List Char) : (i.json url).print =
    '\x7b' :: '"' :: ("url".toList ++ '"' :: ':' :: '"' :: (url ++ '"' :: ',' :: '"' ::
      ("sha256".toList ++ '"' :: ':' :: '"' :: (i.sha256.text.toList ++ '"' :: ',' :: '"' ::
        ("bytes".toList ++ '"' :: ':' :: (Nat.toDigits 10 i.bytes ++ ['\x7d'])))))) := by
  rw [Image.json, Json.print, Json.printMembers, Json.printMembers, Json.printMembers,
    Json.printMembers, Json.print, Json.print, Json.print]
  simp only [List.append_assoc, List.cons_append, List.nil_append]

theorem text_eq_print (m : Manifest) : m.text.toList = m.json.print ++ ['\n'] := by
  have hversion : fmtVersion.toList = '\x7b' :: '"' :: ("product".toList ++ '"' :: ':' :: '"' ::
      ("br-external".toList ++ '"' :: ',' :: '"' :: ("version".toList ++ ['"', ':', '"']))) := by
    decide
  have hreleased : fmtReleased.toList =
      '"' :: ',' :: '"' :: ("released".toList ++ ['"', ':', '"']) := by decide
  have hurl : fmtExt2Url.toList = '"' :: ',' :: '"' :: ("images".toList ++ '"' :: ':' :: '\x7b' ::
      '"' :: ("ext2".toList ++ '"' :: ':' :: '\x7b' :: '"' :: ("url".toList ++ '"' :: ':' :: '"' ::
      "releases/".toList))) := by decide
  have hext2 : fmtExt2Sha.toList = "/".toList ++ ("rootfs.ext2.zst".toList ++ '"' :: ',' :: '"' ::
      ("sha256".toList ++ ['"', ':', '"'])) := by decide
  have hbytes : fmtBytes.toList = '"' :: ',' :: '"' :: ("bytes".toList ++ ['"', ':']) := by decide
  have herofs : fmtErofsUrl.toList = '\x7d' :: ',' :: '"' :: ("erofs".toList ++ '"' :: ':' ::
      '\x7b' :: '"' :: ("url".toList ++ '"' :: ':' :: '"' :: "releases/".toList)) := by decide
  have hsha : fmtErofsSha.toList = "/".toList ++ ("rootfs.erofs".toList ++ '"' :: ',' :: '"' ::
      ("sha256".toList ++ ['"', ':', '"'])) := by decide
  have hend : fmtEnd.toList = ['\x7d', '\x7d', '\x7d', '\n'] := by decide
  have hdigits : ∀ n : Nat, (toString n).toList = Nat.toDigits 10 n := fun n => by
    rw [Nat.toString_eq_repr, Nat.toList_repr]
  delta Manifest.text
  simp only [String.toList_append, hversion, hreleased, hurl, hext2, hbytes, herofs, hsha, hend,
    hdigits]
  rw [Manifest.json, Json.print, Json.printMembers, Json.printMembers, Json.printMembers,
    Json.printMembers, Json.printMembers, Json.print, Json.print, Json.print, Json.print,
    Json.printMembers, Json.printMembers, Json.printMembers, Image.print_json, Image.print_json]
  delta Manifest.url
  simp only [List.append_assoc, List.cons_append, List.nil_append]

theorem json_clean (m : Manifest) : m.json.Clean := by
  have hurl : ∀ f : String, '"' ∉ f.toList → '"' ∉ m.url f := fun f hf h => by
    have hdir : '"' ∉ "releases/".toList ∧ '"' ∉ "/".toList := by decide
    delta Manifest.url at h
    rw [List.mem_append, List.mem_append, List.mem_append] at h
    rcases h with h | h | h | h
    · exact hdir.1 h
    · exact m.version.noQuote h
    · exact hdir.2 h
    · exact hf h
  have himage : ∀ (i : Image) (f : String), '"' ∉ f.toList → (i.json (m.url f)).Clean :=
    fun i f hf =>
      ⟨by decide, hurl f hf, by decide, i.sha256.noQuote, by decide, trivial, trivial⟩
  have hproduct : '"' ∉ "br-external".toList := by decide
  exact ⟨by decide, hproduct, by decide, m.version.noQuote, by decide, m.released.noQuote,
    by decide, ⟨by decide, himage _ _ (by decide), by decide, himage _ _ (by decide), trivial⟩,
    trivial⟩

theorem statedImage_json (i : Image) (url : List Char) :
    statedImage (i.json url) = some i.stated := by
  have hsha : (i.json url).get "sha256" = some (.str i.sha256.text.toList) := rfl
  have hbytes : (i.json url).get "bytes" = some (.num i.bytes) := rfl
  simp only [statedImage, hsha, hbytes, Json.string, Json.nat, String.ofList_toList,
    Option.bind_eq_bind, Option.bind_some, Option.pure_def]
  rfl

/-- **The text states the manifest.** -/
theorem stated_text (m : Manifest) : stated m.text = some m.stated := by
  have hparse : Json.parse m.text.toList = some m.json := by
    rw [text_eq_print]
    exact Json.parse_print (json_clean m) (by simp [Json.Ends])
  have hversion : m.json.get "version" = some (.str m.version.text.toList) := rfl
  obtain ⟨images, himages, hext2, herofs⟩ : ∃ images, m.json.get "images" = some images ∧
      images.get "ext2" = some (m.ext2.json (m.url "rootfs.ext2.zst")) ∧
      images.get "erofs" = some (m.erofs.json (m.url "rootfs.erofs")) := ⟨_, rfl, rfl, rfl⟩
  simp only [stated, hparse, hversion, himages, hext2, herofs, statedImage_json, Json.string,
    String.ofList_toList, Option.bind_eq_bind, Option.bind_some, Option.pure_def]
  rfl

end BrExternal.Publish
