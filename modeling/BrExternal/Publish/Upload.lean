import BrExternal.Publish.Manifest
import BrExternal.Lib.Script
import BrExternal.Lib.Assoc

/-!
# The upload step of `publish-r2.yml`

The bucket holds the objects of all releases, `latest.json` and the index page. A
`Job` is one run of the upload step: the tag, the assets it downloaded, the time it
prints, and whether its read of `latest.json` succeeds. `upload` is the step as a
`set -e` script, one command for each call that touches the bucket. A run that a
failing call or a cancelled job ends is the run of its first commands (`Run`).
-/

namespace BrExternal.Publish

open Script

/-! ## The bucket -/

inductive Object where
  | image (data : Bytes)
  | digest (sha256 : Field)
  | manifest (m : Manifest)
  | page (html : String)
  deriving DecidableEq

def Object.text : Object → String
  | .image data => String.ofList (data.map fun b => Char.ofNat b.toNat)
  | .digest sha256 => sha256.text ++ "\n"
  | .manifest m => m.text
  | .page html => html

abbrev Bucket := List (String × Object)

def Bucket.get (b : Bucket) (key : String) : Option Object := b.lookup key

/-- Object writes are atomic and replace. -/
def Bucket.put (b : Bucket) (key : String) (o : Object) : Bucket := Assoc.insert key o b

def releasesDir : String := "br-external/releases/"

/-- `br-external/releases/$TAG/$f`. -/
def releaseKey (tag : Tag) (file : String) : String := releasesDir ++ tag.text ++ "/" ++ file

def latestKey : String := "br-external/latest.json"

def indexKey : String := "br-external/index.html"

/-! ## The script -/

structure Assets where
  ext2 : Option Bytes
  erofs : Option Bytes
  deriving DecidableEq

/-- One run of the upload step. -/
structure Job where
  tag : Tag
  assets : Assets
  released : Field
  /-- `aws s3 cp …/latest.json -` succeeds. -/
  readOk : Bool

/-- The bucket and the script's variables. -/
structure World where
  bucket : Bucket
  cur : String
  vers : List String

def World.init : World := ⟨[], "", []⟩

variable (sha256 : Bytes → Field)

def imageOf (data : Bytes) : Image := ⟨sha256 data, data.length⟩

/-- `cat rootfs.erofs.sha256 || echo -` and `stat -c%s rootfs.erofs || echo 0`. -/
def imageOr : Option Bytes → Image
  | none => ⟨.dash, 0⟩
  | some data => imageOf sha256 data

def Job.manifest (j : Job) (ext2 : Bytes) : Manifest where
  version := j.tag
  released := j.released
  ext2 := imageOf sha256 ext2
  erofs := imageOr sha256 j.assets.erofs

/-- `up`: one `aws s3 cp` into the bucket. -/
def up (key : String) (o : Object) : Cmd World :=
  fun w => some { w with bucket := w.bucket.put key o }

/-- `CUR=$(aws s3 cp …/latest.json - | grep … || echo "v0.0.0")`: an absent object, a
failed read and a text without a match all give the default. -/
def currentOf (ok : Bool) (o : Option Object) : String :=
  match ok, o with
  | true, some o =>
    match grepVersion o.text with
    | [] => "v0.0.0"
    | v :: vs => "\n".intercalate (v :: vs)
  | _, _ => "v0.0.0"

def readLatest (ok : Bool) : Cmd World :=
  fun w => some { w with cur := currentOf ok (w.bucket.get latestKey) }

/-- The guarded move of the pointer. -/
def moveLatest (tag : Tag) (m : Manifest) : Cmd World :=
  fun w =>
    if newest w.cur tag.text = tag.text ∧ tag.text ≠ w.cur then up latestKey (.manifest m) w
    else some w

/-- The directory a key under `br-external/releases/` lies in. -/
def dirOf (key : String) : Option String :=
  match Text.stripLit releasesDir.toList key.toList with
  | none => none
  | some rest => some (String.ofList (rest.takeWhile (· ≠ '/')))

/-- `aws s3 ls …/releases/ | awk '{print $2}' | tr -d / | sort -rV`. -/
def listReleases : Cmd World :=
  fun w => some { w with vers := (sortV (w.bucket.filterMap fun p => dirOf p.1).dedup).reverse }

def indexRow (v : String) : String :=
  "<li><b>" ++ v ++ "</b> — <a href=\"releases/" ++ v ++ "/rootfs.ext2.zst\">ext2</a>" ++
  " · <a href=\"releases/" ++ v ++ "/rootfs.erofs\">erofs</a>" ++
  " · <a href=\"releases/" ++ v ++ "/manifest.json\">manifest</a></li>\n"

def indexPage (vers : List String) : String :=
  "<!doctype html><meta charset=utf-8><title>br-external images</title>" ++
  "<h1>br-external releases</h1><ul>\n" ++ String.join (vers.map indexRow) ++ "</ul>\n"

def upIndex : Cmd World := fun w => up indexKey (.page (indexPage w.vers)) w

def imageFiles (file : String) (data : Bytes) : List (String × Object) :=
  [(file, .image data), (file ++ ".sha256", .digest (sha256 data))]

def Assets.files (a : Assets) (ext2 : Bytes) : List (String × Object) :=
  imageFiles sha256 "rootfs.ext2.zst" ext2 ++
  match a.erofs with
  | none => []
  | some erofs => imageFiles sha256 "rootfs.erofs" erofs

/-- The files of the immutable release directory, in the order they are uploaded. -/
def Job.files (j : Job) (ext2 : Bytes) : List (String × Object) :=
  j.assets.files sha256 ext2 ++ [("manifest.json", .manifest (j.manifest sha256 ext2))]

def upRelease (tag : Tag) (files : List (String × Object)) : List (Cmd World) :=
  files.map fun f => up (releaseKey tag f.1) f.2

/-- The step. Without an ext2 asset its first `mv` fails. -/
def upload (j : Job) : List (Cmd World) :=
  match j.assets.ext2 with
  | none => [fun _ => none]
  | some ext2 =>
    upRelease j.tag (j.files sha256 ext2) ++
    [readLatest j.readOk, moveLatest j.tag (j.manifest sha256 ext2), listReleases, upIndex]

/-- A run of the step: cut off after some commands, or left to its end. -/
structure Run where
  job : Job
  cut : Option Nat

def Run.script (r : Run) : List (Cmd World) :=
  match r.cut with
  | none => upload sha256 r.job
  | some n => (upload sha256 r.job).take n

def runs (r : Run) (_ : World) : List (Cmd World) := r.script sha256

/-! ## Keys -/

theorem Tag.noSlash (t : Tag) : '/' ∉ t.text.toList := by
  intro h
  rcases t.legal _ h with h | h | h
  · exact absurd h (by decide)
  · exact absurd h (by decide)
  · exact absurd h (by decide)

theorem Tag.ext_text {t u : Tag} (h : t.text = u.text) : t = u := by
  cases t; cases u
  simp_all

theorem releaseKey_toList (t : Tag) (f : String) :
    (releaseKey t f).toList = releasesDir.toList ++ (t.text.toList ++ '/' :: f.toList) := by
  have hsep : "/".toList = ['/'] := by decide
  simp only [releaseKey, String.toList_append, List.append_assoc, hsep, List.cons_append,
    List.nil_append]

theorem releaseKey_inj {t u : Tag} {f g : String} (h : releaseKey t f = releaseKey u g) :
    t = u ∧ f = g := by
  have hl := congrArg String.toList h
  rw [releaseKey_toList, releaseKey_toList] at hl
  obtain ⟨htu, hfg⟩ := Text.append_sep_inj t.noSlash u.noSlash (List.append_cancel_left hl)
  exact ⟨Tag.ext_text (String.toList_inj.1 htu), String.toList_inj.1 hfg⟩

theorem releaseKey_ne {k : String} (hk : Text.stripLit releasesDir.toList k.toList = none)
    (t : Tag) (f : String) : releaseKey t f ≠ k := by
  rintro rfl
  rw [Text.stripLit_eq_some.2 (releaseKey_toList t f)] at hk
  cases hk

theorem releaseKey_ne_latest (t : Tag) (f : String) : releaseKey t f ≠ latestKey :=
  releaseKey_ne (by decide) t f

theorem releaseKey_ne_index (t : Tag) (f : String) : releaseKey t f ≠ indexKey :=
  releaseKey_ne (by decide) t f

theorem indexKey_ne_latest : indexKey ≠ latestKey := by decide

theorem Bucket.get_put (b : Bucket) (key key' : String) (o : Object) :
    (b.put key o).get key' = if key' = key then some o else b.get key' :=
  Assoc.lookup_insert key key' o b

/-! ## What the commands do -/

def World.pointer (w : World) : Option Object := w.bucket.get latestKey

def World.file (w : World) (tag : Tag) (file : String) : Option Object :=
  w.bucket.get (releaseKey tag file)

/-- What the pointer is after the guarded move. -/
def moved (tag : Tag) (m : Manifest) (cur : String) (old : Option Object) : Option Object :=
  if newest cur tag.text = tag.text ∧ tag.text ≠ cur then some (.manifest m) else old

variable {w t : World} {tag : Tag}

theorem up_release_spec {file : String} {o : Object}
    (h : up (releaseKey tag file) o w = some t) :
    t.pointer = w.pointer ∧ t.file tag file = some o ∧
      ∀ tag' file', (tag', file') ≠ (tag, file) → t.file tag' file' = w.file tag' file' := by
  cases h
  refine ⟨?_, ?_, fun tag' file' hne => ?_⟩
  · simp only [World.pointer, Bucket.get_put, if_neg (releaseKey_ne_latest tag file).symm]
  · simp only [World.file, Bucket.get_put, if_true]
  · have hkey : releaseKey tag' file' ≠ releaseKey tag file := by
      intro hk
      obtain ⟨rfl, rfl⟩ := releaseKey_inj hk
      exact hne rfl
    simp only [World.file, Bucket.get_put, if_neg hkey]

theorem readLatest_spec {ok : Bool} (h : readLatest ok w = some t) :
    t.pointer = w.pointer ∧ t.cur = currentOf ok w.pointer ∧ t.file = w.file := by
  cases h
  exact ⟨rfl, rfl, rfl⟩

theorem moveLatest_spec {m : Manifest} (h : moveLatest tag m w = some t) :
    t.pointer = moved tag m w.cur w.pointer ∧ t.file = w.file := by
  unfold moveLatest at h
  unfold moved
  split at h
  · rename_i hc
    cases h
    rw [if_pos hc]
    refine ⟨by simp only [World.pointer, Bucket.get_put, if_true], ?_⟩
    funext tag' file
    simp only [World.file, Bucket.get_put, if_neg (releaseKey_ne_latest tag' file)]
  · rename_i hc
    cases h
    rw [if_neg hc]
    exact ⟨rfl, rfl⟩

theorem moveLatest_total (tag : Tag) (m : Manifest) (w : World) :
    ∃ t, moveLatest tag m w = some t := by
  unfold moveLatest
  split
  · exact ⟨_, rfl⟩
  · exact ⟨_, rfl⟩

theorem listReleases_spec (h : listReleases w = some t) :
    t.pointer = w.pointer ∧ t.file = w.file := by
  cases h
  exact ⟨rfl, rfl⟩

theorem upIndex_spec (h : upIndex w = some t) : t.pointer = w.pointer ∧ t.file = w.file := by
  cases h
  refine ⟨?_, ?_⟩
  · simp only [World.pointer, Bucket.get_put, if_neg indexKey_ne_latest.symm]
  · funext tag' file
    simp only [World.file, Bucket.get_put, if_neg (releaseKey_ne_index tag' file)]

theorem currentOf_manifest (m : Manifest) :
    currentOf true (some (.manifest m)) = m.version.text := by
  simp [currentOf, Object.text, grepVersion_text]

theorem currentOf_none (ok : Bool) : currentOf ok none = "v0.0.0" := by
  cases ok <;> rfl

theorem currentOf_failed (o : Option Object) : currentOf false o = "v0.0.0" := rfl

/-- The guard compares with `sort -V` alone. -/
theorem moved_eq (tag : Tag) (m : Manifest) (cur : String) (old : Option Object) :
    moved tag m cur old =
      if versionCmp cur.toList tag.text.toList = .lt then some (.manifest m) else old := by
  have hguard : (newest cur tag.text = tag.text ∧ tag.text ≠ cur) ↔
      versionCmp cur.toList tag.text.toList = .lt := by
    rw [newest_eq, versionLe]
    cases hcmp : versionCmp cur.toList tag.text.toList with
    | lt =>
      simp only [Ordering.isLE_lt, if_true, true_and, iff_true]
      intro he
      have hself : versionCmp cur.toList cur.toList = .eq := Std.ReflCmp.compare_self
      rw [he, hself] at hcmp
      cases hcmp
    | eq => simp [String.toList_inj.1 (versionCmp_eq hcmp)]
    | gt => simp +contextual
  simp only [moved, hguard]

/-! ## Complete runs -/

section
variable {files : List (String × Object)}

theorem upRelease_mem {c : Cmd World} (hc : c ∈ upRelease tag files) :
    ∃ f ∈ files, c = up (releaseKey tag f.1) f.2 := by
  obtain ⟨f, hf, rfl⟩ := List.mem_map.1 hc
  exact ⟨f, hf, rfl⟩

theorem upRelease_completes (w : World) : completes (upRelease tag files) w = true := by
  refine completes_of_total (fun c hc w => ?_) w
  obtain ⟨f, -, rfl⟩ := upRelease_mem hc
  exact ⟨_, rfl⟩

theorem upRelease_pointer (w : World) :
    (final (upRelease tag files) w).pointer = w.pointer := by
  refine final_frame World.pointer (fun c hc s t h => ?_) w
  obtain ⟨f, -, rfl⟩ := upRelease_mem hc
  exact (up_release_spec h).1

theorem upRelease_other {tag' : Tag} {file : String}
    (hne : tag' ≠ tag ∨ file ∉ files.map Prod.fst) (w : World) :
    (final (upRelease tag files) w).file tag' file = w.file tag' file := by
  refine final_frame (fun w => w.file tag' file) (fun c hc s t h => ?_) w
  obtain ⟨f, hf, rfl⟩ := upRelease_mem hc
  refine (up_release_spec h).2.2 tag' file ?_
  rintro ⟨⟩
  rcases hne with hne | hne
  · exact hne rfl
  · exact hne (List.mem_map_of_mem hf)

theorem upRelease_file (hnodup : (files.map Prod.fst).Nodup) {f : String × Object}
    (hf : f ∈ files) (w : World) :
    (final (upRelease tag files) w).file tag f.1 = some f.2 := by
  induction files generalizing w with
  | nil => simp at hf
  | cons g files ih =>
    obtain ⟨hg, hnodup⟩ := List.nodup_cons.1 hnodup
    show (final (upRelease tag files) { w with bucket := w.bucket.put _ g.2 }).file tag f.1 = _
    rcases List.mem_cons.1 hf with rfl | hf
    · rw [upRelease_other (.inr hg)]
      exact (up_release_spec (w := w) rfl).2.1
    · exact ih hnodup hf _

end

variable {sha256 : Bytes → Field} {j : Job} {ext2 : Bytes}

theorem files_nodup : ((j.files sha256 ext2).map Prod.fst).Nodup := by
  unfold Job.files Assets.files
  cases j.assets.erofs with
  | none => simp only [imageFiles, List.map_append, List.map_cons, List.map_nil]; decide
  | some erofs => simp only [imageFiles, List.map_append, List.map_cons, List.map_nil]; decide

theorem mem_files_manifest :
    ("manifest.json", .manifest (j.manifest sha256 ext2)) ∈ j.files sha256 ext2 :=
  List.mem_append_right _ (List.mem_singleton_self _)

theorem upload_completes (sha256 : Bytes → Field) (j : Job) (he : j.assets.ext2 = some ext2)
    (w : World) : completes (upload sha256 j) w = true := by
  refine completes_of_total (fun c hc w => ?_) w
  simp only [upload, he, List.mem_append, List.mem_cons, List.not_mem_nil, or_false] at hc
  rcases hc with hc | rfl | rfl | rfl | rfl
  · obtain ⟨f, -, rfl⟩ := upRelease_mem hc
    exact ⟨_, rfl⟩
  · exact ⟨_, rfl⟩
  · exact moveLatest_total _ _ w
  · exact ⟨_, rfl⟩
  · exact ⟨_, rfl⟩

theorem final_tail (tag : Tag) (m : Manifest) (ok : Bool) (w : World) :
    let t := final [readLatest ok, moveLatest tag m, listReleases, upIndex] w
    t.pointer = moved tag m (currentOf ok w.pointer) w.pointer ∧ t.file = w.file := by
  obtain ⟨r, hr⟩ : ∃ r, readLatest ok w = some r := ⟨_, rfl⟩
  obtain ⟨hptr, hcur, hfile⟩ := readLatest_spec hr
  obtain ⟨u, hu⟩ := moveLatest_total tag m r
  obtain ⟨hptr', hfile'⟩ := moveLatest_spec hu
  obtain ⟨v, hv⟩ : ∃ v, listReleases u = some v := ⟨_, rfl⟩
  obtain ⟨x, hx⟩ : ∃ x, upIndex v = some x := ⟨_, rfl⟩
  obtain ⟨hpv, hfv⟩ := listReleases_spec hv
  obtain ⟨hpx, hfx⟩ := upIndex_spec hx
  simp only [final, hr, hu, hv, hx]
  rw [hpx, hpv, hptr', hcur, hptr, hfx, hfv, hfile', hfile]
  exact ⟨rfl, rfl⟩

/-- **A complete run.** Every file of the release is stored, other releases are left
alone, and the pointer has moved if the guard let it. -/
theorem upload_final (sha256 : Bytes → Field) (j : Job) (he : j.assets.ext2 = some ext2)
    (w : World) :
    (final (upload sha256 j) w).pointer =
        moved j.tag (j.manifest sha256 ext2) (currentOf j.readOk w.pointer) w.pointer ∧
      (∀ f ∈ j.files sha256 ext2, (final (upload sha256 j) w).file j.tag f.1 = some f.2) ∧
      ∀ tag' ≠ j.tag, (final (upload sha256 j) w).file tag' = w.file tag' := by
  have hsplit : final (upload sha256 j) w = final [readLatest j.readOk,
      moveLatest j.tag (j.manifest sha256 ext2), listReleases, upIndex]
      (final (upRelease j.tag (j.files sha256 ext2)) w) := by
    simp only [upload, he]
    rw [final_append, upRelease_completes, if_pos rfl]
  obtain ⟨hptr, hfile⟩ := final_tail j.tag (j.manifest sha256 ext2) j.readOk
    (final (upRelease j.tag (j.files sha256 ext2)) w)
  rw [hsplit, hptr, hfile, upRelease_pointer]
  refine ⟨rfl, fun f hf => upRelease_file files_nodup hf w, fun tag' hne => ?_⟩
  funext file
  exact upRelease_other (.inl hne) w

/-- A run that ends among the files of its release leaves the pointer alone. -/
theorem upload_cut (sha256 : Bytes → Field) (j : Job) (he : j.assets.ext2 = some ext2) {n : Nat}
    (hn : n ≤ (j.files sha256 ext2).length) (w : World) :
    (final ((upload sha256 j).take n) w).pointer = w.pointer := by
  have htake : (upload sha256 j).take n = upRelease j.tag ((j.files sha256 ext2).take n) := by
    simp only [upload, he, upRelease]
    rw [List.take_append_of_le_length (by rwa [List.length_map]), List.map_take]
  rw [htake, upRelease_pointer]

/-- What a run that completes leaves of its release. -/
theorem upload_listed {w : World} (hok : completes (upload sha256 j) w = true) :
    ∃ ext2, j.assets.ext2 = some ext2 ∧
      (final (upload sha256 j) w).file j.tag "manifest.json" =
        some (.manifest (j.manifest sha256 ext2)) ∧
      (final (upload sha256 j) w).file j.tag "rootfs.ext2.zst" = some (.image ext2) ∧
      ∀ erofs, j.assets.erofs = some erofs →
        (final (upload sha256 j) w).file j.tag "rootfs.erofs" = some (.image erofs) := by
  cases he : j.assets.ext2 with
  | none => simp [upload, he, completes] at hok
  | some ext2 =>
    obtain ⟨-, hfiles, -⟩ := upload_final sha256 j he w
    refine ⟨ext2, rfl, hfiles _ mem_files_manifest, ?_, fun erofs hero => ?_⟩
    · exact hfiles ("rootfs.ext2.zst", _)
        (List.mem_append_left _ (List.mem_append_left _ (List.mem_cons_self ..)))
    · refine hfiles ("rootfs.erofs", .image erofs) (List.mem_append_left _ ?_)
      simp only [Assets.files, hero]
      exact List.mem_append_right _ (List.mem_cons_self ..)

end BrExternal.Publish
