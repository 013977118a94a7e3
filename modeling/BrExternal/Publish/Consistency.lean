import BrExternal.Publish.Pointer

/-!
# What `latest.json` points at

The uploads of a run are separate writes, and a run may end between any two of
them. Every file of a release directory is written with the same bytes by every run
of its tag, files are never removed, and the pointer is moved behind all of them
(`Intact`). So at every moment what the text of `latest.json` states of a release is what
the bucket holds (`latest_consistent`).
-/

namespace BrExternal.Publish

open Script

variable (sha256 : Bytes → Field)

/-- Where a file of a release is served. -/
def servedAt (version file : String) : String :=
  "br-external/releases/" ++ version ++ "/" ++ file

/-- An image of the stated digest and size is stored, and its sidecar holds the digest. -/
def World.Holds (w : World) (version file : String) (i : StatedImage) : Prop :=
  (∃ data, w.bucket.get (servedAt version file) = some (.image data) ∧
    (sha256 data).text = i.sha256 ∧ data.length = i.bytes) ∧
  ∃ o, w.bucket.get (servedAt version (file ++ ".sha256")) = some o ∧ o.text = i.sha256 ++ "\n"

/-- What is stated of a release is in the bucket. -/
structure World.Backs (w : World) (st : Stated) : Prop where
  ext2 : w.Holds sha256 st.version "rootfs.ext2.zst" st.ext2
  erofs : st.erofs.sha256 ≠ "-" → w.Holds sha256 st.version "rootfs.erofs" st.erofs
  manifest : ∃ o, w.bucket.get (servedAt st.version "manifest.json") = some o ∧
    stated o.text = some st

/-! ## The invariant -/

variable (assets : Tag → Assets)

/-- A run on the assets of its tag, which include `ext2`. -/
def Job.Genuine (j : Job) (ext2 : Bytes) : Prop :=
  j.assets = assets j.tag ∧ j.assets.ext2 = some ext2

/-- Files are those of some run of their tag, and a release that `latest.json` names has
all of its files. -/
structure World.Intact (w : World) : Prop where
  files : ∀ tag file o, w.file tag file = some o →
    ∃ (j : Job) (ext2 : Bytes), j.tag = tag ∧ j.Genuine assets ext2 ∧
      (file, o) ∈ j.files sha256 ext2
  latest : ∀ o, w.pointer = some o → ∃ (j : Job) (ext2 : Bytes), j.Genuine assets ext2 ∧
    o = .manifest (j.manifest sha256 ext2) ∧
    ∀ f ∈ j.files sha256 ext2, w.file j.tag f.1 ≠ none

variable {sha256 assets} {w u : World} {j : Job} {ext2 : Bytes}

theorem World.Intact.congr (hptr : u.pointer = w.pointer) (hfile : u.file = w.file)
    (h : w.Intact sha256 assets) : u.Intact sha256 assets := by
  refine ⟨fun tag file o ho => ?_, fun o ho => ?_⟩
  · rw [hfile] at ho
    exact h.files tag file o ho
  · rw [hptr] at ho
    rw [hfile]
    exact h.latest o ho

theorem up_intact (hj : j.Genuine assets ext2) {f : String × Object}
    (hf : f ∈ j.files sha256 ext2) (h : w.Intact sha256 assets)
    (hup : up (releaseKey j.tag f.1) f.2 w = some u) : u.Intact sha256 assets := by
  obtain ⟨hptr, hnew, hold⟩ := up_release_spec hup
  refine ⟨fun tag file o ho => ?_, fun o ho => ?_⟩
  · by_cases hkey : (tag, file) = (j.tag, f.1)
    · cases hkey
      rw [hnew] at ho
      cases ho
      exact ⟨j, ext2, rfl, hj, hf⟩
    · rw [hold tag file hkey] at ho
      exact h.files tag file o ho
  · rw [hptr] at ho
    obtain ⟨k, data, hk, rfl, hstored⟩ := h.latest o ho
    refine ⟨k, data, hk, rfl, fun g hg => ?_⟩
    by_cases hkey : (k.tag, g.1) = (j.tag, f.1)
    · rw [(Prod.mk.inj hkey).1, (Prod.mk.inj hkey).2, hnew]
      exact Option.some_ne_none _
    · rw [hold _ _ hkey]
      exact hstored g hg

theorem moveLatest_intact (hj : j.Genuine assets ext2)
    (hstored : ∀ f ∈ j.files sha256 ext2, w.file j.tag f.1 ≠ none)
    (h : w.Intact sha256 assets)
    (hmove : moveLatest j.tag (j.manifest sha256 ext2) w = some u) :
    u.Intact sha256 assets := by
  obtain ⟨hptr, hfile⟩ := moveLatest_spec hmove
  unfold moved at hptr
  split at hptr
  · refine ⟨fun tag file o ho => ?_, fun o ho => ?_⟩
    · rw [hfile] at ho
      exact h.files tag file o ho
    · rw [hptr] at ho
      cases ho
      exact ⟨j, ext2, hj, rfl, by rw [hfile]; exact hstored⟩
  · exact h.congr hptr hfile

/-! ## Runs -/

/-- **One run.** The bucket is intact behind every command. -/
theorem upload_intact (hassets : j.assets = assets j.tag) :
    Triple (World.Intact sha256 assets) (upload sha256 j) (World.Intact sha256 assets)
      (World.Intact sha256 assets) := by
  cases he : j.assets.ext2 with
  | none =>
    simp only [upload, he]
    exact .of_inv fun c hc w u _ h => by
      rw [List.mem_singleton.1 hc] at h
      cases h
  | some ext2 =>
    have hj : j.Genuine assets ext2 := ⟨hassets, he⟩
    simp only [upload, he]
    -- The files first; from there on all of them are stored.
    have hfiles : Triple (World.Intact sha256 assets) (upRelease j.tag (j.files sha256 ext2))
        (fun w => w.Intact sha256 assets ∧ ∀ f ∈ j.files sha256 ext2, w.file j.tag f.1 ≠ none)
        (World.Intact sha256 assets) := by
      have hinv : ∀ c ∈ upRelease j.tag (j.files sha256 ext2), ∀ w u,
          World.Intact sha256 assets w → c w = some u → u.Intact sha256 assets := by
        intro c hc w u hw h
        obtain ⟨f, hf, rfl⟩ := upRelease_mem hc
        exact up_intact hj hf hw h
      intro w hw
      refine ⟨(Triple.of_inv hinv w hw).1, fun hcomp =>
        ⟨(Triple.of_inv hinv w hw).2 hcomp, fun f hf => ?_⟩⟩
      rw [upRelease_file files_nodup hf]
      exact Option.some_ne_none _
    refine hfiles.append ?_
    have htail : ∀ c ∈ [readLatest j.readOk, moveLatest j.tag (j.manifest sha256 ext2),
        listReleases, upIndex], ∀ w u,
        (World.Intact sha256 assets w ∧ ∀ f ∈ j.files sha256 ext2, w.file j.tag f.1 ≠ none) →
        c w = some u →
        u.Intact sha256 assets ∧ ∀ f ∈ j.files sha256 ext2, u.file j.tag f.1 ≠ none := by
      rintro c hc w u ⟨hw, hstored⟩ h
      simp only [List.mem_cons, List.not_mem_nil, or_false] at hc
      rcases hc with rfl | rfl | rfl | rfl
      · obtain ⟨hptr, -, hfile⟩ := readLatest_spec h
        exact ⟨hw.congr hptr hfile, by rw [hfile]; exact hstored⟩
      · exact ⟨moveLatest_intact hj hstored hw h, by rw [(moveLatest_spec h).2]; exact hstored⟩
      · obtain ⟨hptr, hfile⟩ := listReleases_spec h
        exact ⟨hw.congr hptr hfile, by rw [hfile]; exact hstored⟩
      · obtain ⟨hptr, hfile⟩ := upIndex_spec h
        exact ⟨hw.congr hptr hfile, by rw [hfile]; exact hstored⟩
    intro w hw
    obtain ⟨htrace, hend⟩ := Triple.of_inv htail w hw
    exact ⟨fun t ht => (htrace t ht).1, fun hcomp => (hend hcomp).1⟩

theorem run_intact {r : Run} (hassets : r.job.assets = assets r.job.tag)
    (hw : w.Intact sha256 assets) :
    ∀ t ∈ trace (r.script sha256) w, World.Intact sha256 assets t := by
  unfold Run.script
  cases r.cut with
  | none => exact (upload_intact hassets w hw).1
  | some n => exact (upload_intact hassets).take n hw

/-! ## What an intact bucket says -/

theorem Job.Genuine.same {k : Job} {data : Bytes} (hk : k.Genuine assets data)
    (hj : j.Genuine assets ext2) (htag : k.tag = j.tag) : k.assets = j.assets ∧ data = ext2 := by
  have hsame : k.assets = j.assets := by rw [hk.1, hj.1, htag]
  refine ⟨hsame, Option.some.inj ?_⟩
  rw [← hk.2, ← hj.2, hsame]

theorem World.Intact.stored (h : w.Intact sha256 assets) (hj : j.Genuine assets ext2)
    (hstored : ∀ f ∈ j.files sha256 ext2, w.file j.tag f.1 ≠ none) {f : String × Object}
    (hf : f ∈ j.assets.files sha256 ext2) : w.file j.tag f.1 = some f.2 := by
  obtain ⟨o, ho⟩ := Option.ne_none_iff_exists'.1 (hstored f (List.mem_append_left _ hf))
  obtain ⟨k, data, htag, hk, hmem⟩ := h.files _ _ _ ho
  obtain ⟨hsame, rfl⟩ := hk.same hj htag
  have hfk : f ∈ k.files sha256 data := List.mem_append_left _ (by rw [hsame]; exact hf)
  have heq := List.inj_on_of_nodup_map files_nodup hmem hfk rfl
  rw [ho, ← heq]

theorem World.Intact.holds (h : w.Intact sha256 assets) (hj : j.Genuine assets ext2)
    (hstored : ∀ f ∈ j.files sha256 ext2, w.file j.tag f.1 ≠ none) {file : String}
    {data : Bytes} (hsub : imageFiles sha256 file data ⊆ j.assets.files sha256 ext2) :
    w.Holds sha256 j.tag.text file (imageOf sha256 data).stated := by
  have himage := h.stored hj hstored (hsub (List.mem_cons_self ..))
  have hside := h.stored hj hstored (hsub (List.mem_cons_of_mem _ (List.mem_cons_self ..)))
  exact ⟨⟨data, himage, rfl, rfl⟩, _, hside, rfl⟩

theorem World.Intact.backs (h : w.Intact sha256 assets) {o : Object} (ho : w.pointer = some o) :
    ∃ st, stated o.text = some st ∧ w.Backs sha256 st := by
  obtain ⟨j, ext2, hj, rfl, hstored⟩ := h.latest o ho
  refine ⟨_, stated_text _, h.holds hj hstored (List.subset_append_left _ _), fun hne => ?_, ?_⟩
  · cases he : j.assets.erofs with
    | none =>
      simp [Job.manifest, Manifest.stated, Image.stated, he, imageOr, Field.dash] at hne
    | some erofs =>
      have hsub : imageFiles sha256 "rootfs.erofs" erofs ⊆ j.assets.files sha256 ext2 := by
        simp only [Assets.files, he]
        exact List.subset_append_right _ _
      have hholds := h.holds hj hstored hsub
      simpa only [Job.manifest, Manifest.stated, he, imageOr] using hholds
  · obtain ⟨o, ho⟩ := Option.ne_none_iff_exists'.1 (hstored _ mem_files_manifest)
    obtain ⟨k, data, htag, hk, hmem⟩ := h.files _ _ _ ho
    obtain ⟨hsame, rfl⟩ := hk.same hj htag
    obtain ⟨-, rfl⟩ := Prod.mk.inj
      (List.inj_on_of_nodup_map files_nodup hmem mem_files_manifest rfl)
    refine ⟨_, ho, ?_⟩
    -- The two runs differ at most in the time they print.
    have hstated : (k.manifest sha256 data).stated = (j.manifest sha256 data).stated := by
      simp only [Manifest.stated, Job.manifest, hsame, htag]
    rw [← hstated]
    exact stated_text _

/-- **`latest.json` points at what is there.** At every moment of every sequence of runs,
cut off anywhere, in which the runs of a tag download the same assets: the text of
`latest.json` states a version, digests and sizes, and the bucket holds them. -/
theorem latest_consistent (sha256 : Bytes → Field) (assets : Tag → Assets) (rs : List Run)
    (hassets : ∀ r ∈ rs, r.job.assets = assets r.job.tag) :
    ∀ w ∈ World.init :: history (runs sha256) World.init rs,
      ∀ o, w.bucket.get "br-external/latest.json" = some o →
        ∃ st, stated o.text = some st ∧ w.Backs sha256 st := by
  have hinit : World.init.Intact sha256 assets := ⟨nofun, nofun⟩
  have heach : ∀ w, Each (runs sha256) (fun _ r => r.job.assets = assets r.job.tag) w rs :=
    Each.of_forall hassets
  obtain ⟨hhist, -⟩ := history_inv (fun w r hw hr => run_intact hr hw) hinit (heach _)
  intro w hw o ho
  rcases List.mem_cons.1 hw with rfl | hw
  · exact hinit.backs ho
  · exact (hhist w hw).backs ho

/-! ## Two releases -/

/-- A digest that tells any two byte strings apart. -/
def weight (data : Bytes) : Field :=
  ⟨toString (data.foldl (fun n b => 256 * n + b.toNat) 1), toString_noQuote _⟩

def pairAssets (tag : Tag) : Assets :=
  ⟨some (tag.text.toList.map fun c => UInt8.ofNat c.toNat), some [1, 2]⟩

/-- A run on both images of a plain version. -/
def pairRun (c : Core) (cut : Option Nat) : Run := ⟨⟨c.tag, pairAssets c.tag, .dash, true⟩, cut⟩

theorem pairRun_pointer (w : World) {c : Core} (t : Core) (hc : w.current true c) :
    (final (runs weight (pairRun t none) w) w).pointer =
      if Core.cmp c t = .lt then
        some (.manifest ((pairRun t none).job.manifest weight
          (t.tag.text.toList.map fun c => UInt8.ofNat c.toNat)))
      else w.pointer := by
  obtain ⟨hptr, -⟩ := upload_final weight (pairRun t none).job rfl w
  have hok : (pairRun t none).job.readOk = true := rfl
  have htag : (pairRun t none).job.tag = t.tag := rfl
  rw [hok, htag, currentOf_plain hc, moved_plain] at hptr
  exact hptr

/-- A release, a run for the next that ends between the sidecar of its ext2 image and its
erofs image, the same run again, and the first release once more. -/
def twoReleases : List Run :=
  [pairRun ⟨1, 0, 0⟩ none, pairRun ⟨1, 1, 0⟩ (some 2), pairRun ⟨1, 1, 0⟩ none,
    pairRun ⟨1, 0, 0⟩ none]

theorem twoReleases_pointer :
    (∃ m, (after (runs weight) World.init (twoReleases.take 2)).pointer = some (.manifest m) ∧
      m.stated = ⟨"v1.0.0", ⟨"411428577095216", 6⟩, ⟨"65794", 2⟩⟩) ∧
    ∃ m, (after (runs weight) World.init twoReleases).pointer = some (.manifest m) ∧
      m.stated = ⟨"v1.1.0", ⟨"411428577160752", 6⟩, ⟨"65794", 2⟩⟩ := by
  set w1 := final (runs weight (pairRun ⟨1, 0, 0⟩ none) World.init) World.init with hw1
  have h1 := pairRun_pointer World.init ⟨1, 0, 0⟩ (c := .zero) (.inr ⟨rfl, rfl⟩)
  rw [if_pos (by decide), ← hw1] at h1
  set w2 := final (runs weight (pairRun ⟨1, 1, 0⟩ (some 2)) w1) w1 with hw2
  have h2 : w2.pointer = w1.pointer :=
    upload_cut weight (pairRun ⟨1, 1, 0⟩ none).job rfl (by decide) w1
  set w3 := final (runs weight (pairRun ⟨1, 1, 0⟩ none) w2) w2 with hw3
  have h3 := pairRun_pointer w2 ⟨1, 1, 0⟩ (c := ⟨1, 0, 0⟩) (.inl ⟨_, h2.trans h1, rfl⟩)
  rw [if_pos (by decide), ← hw3] at h3
  have h4 := pairRun_pointer w3 ⟨1, 0, 0⟩ (c := ⟨1, 1, 0⟩) (.inl ⟨_, h3, rfl⟩)
  rw [if_neg (by decide)] at h4
  exact ⟨⟨_, h2.trans h1, by decide⟩, ⟨_, h4.trans h3, by decide⟩⟩

/-- While the second release is half uploaded `latest.json` states the first; in the end
it states the second. -/
theorem latest_consistent_two_releases :
    (∃ o, (after (runs weight) World.init (twoReleases.take 2)).bucket.get
        "br-external/latest.json" = some o ∧
      stated o.text = some ⟨"v1.0.0", ⟨"411428577095216", 6⟩, ⟨"65794", 2⟩⟩ ∧
      (after (runs weight) World.init (twoReleases.take 2)).Backs weight
        ⟨"v1.0.0", ⟨"411428577095216", 6⟩, ⟨"65794", 2⟩⟩) ∧
    ∃ o, (after (runs weight) World.init twoReleases).bucket.get
        "br-external/latest.json" = some o ∧
      stated o.text = some ⟨"v1.1.0", ⟨"411428577160752", 6⟩, ⟨"65794", 2⟩⟩ ∧
      (after (runs weight) World.init twoReleases).Backs weight
        ⟨"v1.1.0", ⟨"411428577160752", 6⟩, ⟨"65794", 2⟩⟩ := by
  have hbacked : ∀ rs, (∀ r ∈ rs, r.job.assets = pairAssets r.job.tag) → ∀ m,
      (after (runs weight) World.init rs).pointer = some (.manifest m) →
      (after (runs weight) World.init rs).Backs weight m.stated := by
    intro rs hrs m hm
    obtain ⟨st, hst, hbacks⟩ := latest_consistent weight pairAssets rs hrs _ (after_mem _ _ _) _ hm
    cases (stated_text m).symm.trans hst
    exact hbacks
  have hassets : ∀ r ∈ twoReleases, r.job.assets = pairAssets r.job.tag := by
    simp [twoReleases, pairRun]
  obtain ⟨⟨m, hm, hfirst⟩, n, hn, hsecond⟩ := twoReleases_pointer
  refine ⟨⟨_, hm, ?_, ?_⟩, ⟨_, hn, ?_, ?_⟩⟩
  · exact (stated_text m).trans (congrArg some hfirst)
  · have h := hbacked _ (fun r hr => hassets r (List.mem_of_mem_take hr)) m hm
    rwa [hfirst] at h
  · exact (stated_text n).trans (congrArg some hsecond)
  · have h := hbacked _ hassets n hn
    rwa [hsecond] at h

end BrExternal.Publish
