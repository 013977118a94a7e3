import BrExternal.Lib.Lts
import BrExternal.Publish.Pointer

/-!
# From the draft release to the bucket

`release.yml` creates a draft release, and its job `private-image` then attaches the
private files one at a time. A human may publish the release at any moment once the
draft exists, which starts a run of `publish-r2.yml`: it downloads the attached files
that match `private-rootfs*` and uploads them. The parties share only the release, so
a run is any interleaving of their steps (`step`). What a successful run publishes is
what was attached when it downloaded (`published_images`).
-/

namespace BrExternal.Publish.Staging

open Script Lts

/-! ## The release -/

/-- The files `private-image` stages. -/
inductive PrivateFile where
  | ext2
  | erofs
  | sums
  deriving DecidableEq

def PrivateFile.name : PrivateFile → String
  | .ext2 => "private-rootfs.ext2.zst"
  | .erofs => "private-rootfs.erofs"
  | .sums => "sha256sum-private.txt"

structure Staged where
  ext2 : Bytes
  erofs : Bytes
  sums : Bytes

def Staged.content (g : Staged) : PrivateFile → Bytes
  | .ext2 => g.ext2
  | .erofs => g.erofs
  | .sums => g.sums

/-- The download pattern `private-rootfs*`. -/
def matchesPrivate (name : String) : Bool :=
  (Text.stripLit "private-rootfs".toList name.toList).isSome

/-- What `draft-release` attaches: `public-*`, the SDK and `sha256sum-public.txt`. -/
structure PublicFiles where
  files : List (String × Bytes)
  distinct : ∀ f ∈ files, ∀ p : PrivateFile, f.1 ≠ p.name

abbrev Release := List (String × Bytes)

/-- `gh release download -p 'private-rootfs*'`. -/
def Release.download (r : Release) : List (String × Bytes) :=
  r.filter fun f => matchesPrivate f.1

def assetsOf (files : List (String × Bytes)) : Assets where
  ext2 := files.lookup PrivateFile.ext2.name
  erofs := files.lookup PrivateFile.erofs.name

/-! ## The parties -/

/-- The `publish-r2` run of the tag. -/
inductive Phase where
  | idle
  | queued
  /-- The commands of the upload step that are left. -/
  | uploading (cmds : List (Cmd World))
  | succeeded
  | failed

structure State where
  /-- The release, once the draft exists. -/
  release : Option Release
  /-- The private files attached so far. -/
  attached : List PrivateFile
  phase : Phase
  world : World

def State.init (w : World) : State := ⟨none, [], .idle, w⟩

inductive Action where
  /-- `draft-release` creates the draft. -/
  | draft (p : PublicFiles)
  /-- `private-image` attaches a file. -/
  | attach (f : PrivateFile)
  /-- A human publishes the release. -/
  | publish
  /-- `publish-r2` downloads; the time it prints and whether it will read `latest.json`. -/
  | download (released : Field) (readOk : Bool)
  /-- `publish-r2` runs its next command. -/
  | command
  /-- The run fails or is cancelled. -/
  | stop

variable (sha256 : Bytes → Field) (tag : Tag) (g : Staged)

/-- The upload step on what was downloaded. -/
def uploadOf (r : Release) (released : Field) (readOk : Bool) : List (Cmd World) :=
  upload sha256 ⟨tag, assetsOf r.download, released, readOk⟩

def step (s : State) : Action → Option State
  | .draft p =>
    match s.release with
    | none => some { s with release := some p.files }
    | some _ => none
  | .attach f =>
    match s.release with
    | none => none
    | some r =>
      if f ∈ s.attached then none
      else some { s with release := some ((f.name, g.content f) :: r), attached := f :: s.attached }
  | .publish =>
    match s.release, s.phase with
    | some _, .idle => some { s with phase := .queued }
    | _, _ => none
  | .download released readOk =>
    match s.release, s.phase with
    | some r, .queued =>
      if r.download = [] then some { s with phase := .failed }
      else some { s with phase := .uploading (uploadOf sha256 tag r released readOk) }
    | _, _ => none
  | .command =>
    match s.phase with
    | .uploading [] => some { s with phase := .succeeded }
    | .uploading (c :: cs) =>
      match c s.world with
      | none => some { s with phase := .failed }
      | some w => some { s with phase := .uploading cs, world := w }
    | _ => none
  | .stop =>
    match s.phase with
    | .queued => some { s with phase := .failed }
    | .uploading _ => some { s with phase := .failed }
    | _ => none

variable {sha256 tag g} {s t : State} {a : Action}

theorem step_release (h : step sha256 tag g s a = some t) :
    (∃ p : PublicFiles, s.release = none ∧ t.release = some p.files ∧ t.attached = s.attached) ∨
    (∃ f r, s.release = some r ∧ f ∉ s.attached ∧ t.release = some ((f.name, g.content f) :: r) ∧
      t.attached = f :: s.attached) ∨
    (t.release = s.release ∧ t.attached = s.attached) := by
  cases a with
  | draft p =>
    simp only [step] at h
    split at h
    · cases h; exact .inl ⟨p, ‹_›, rfl, rfl⟩
    · cases h
  | attach f =>
    simp only [step] at h
    split at h
    · cases h
    · split at h
      · cases h
      · cases h; exact .inr (.inl ⟨f, _, ‹_›, ‹_›, rfl, rfl⟩)
  | publish =>
    simp only [step] at h
    split at h <;> cases h
    exact .inr (.inr ⟨rfl, rfl⟩)
  | download released readOk =>
    simp only [step] at h
    split at h
    · split at h <;> cases h <;> exact .inr (.inr ⟨rfl, rfl⟩)
    · cases h
  | command =>
    simp only [step] at h
    split at h
    · cases h; exact .inr (.inr ⟨rfl, rfl⟩)
    · split at h <;> cases h <;> exact .inr (.inr ⟨rfl, rfl⟩)
    · cases h
  | stop =>
    simp only [step] at h
    split at h <;> cases h <;> exact .inr (.inr ⟨rfl, rfl⟩)

/-- What a step does to a run that has downloaded. -/
inductive Progress : Phase → World → Phase → World → Prop where
  | same (p : Phase) (w : World) : Progress p w p w
  | stop (cs : List (Cmd World)) (w : World) : Progress (.uploading cs) w .failed w
  | next {c : Cmd World} {w u : World} (cs : List (Cmd World)) (h : c w = some u) :
      Progress (.uploading (c :: cs)) w (.uploading cs) u
  | done (w : World) : Progress (.uploading []) w .succeeded w

theorem step_progress (h : step sha256 tag g s a = some t) (hidle : s.phase ≠ .idle)
    (hqueued : s.phase ≠ .queued) : Progress s.phase s.world t.phase t.world := by
  cases a with
  | draft p =>
    simp only [step] at h
    split at h <;> cases h
    exact .same _ _
  | attach f =>
    simp only [step] at h
    split at h
    · cases h
    · split at h <;> cases h
      exact .same _ _
  | publish =>
    simp only [step] at h
    split at h
    · exact absurd ‹_› hidle
    · cases h
  | download released readOk =>
    simp only [step] at h
    split at h
    · exact absurd ‹_› hqueued
    · cases h
  | command =>
    simp only [step] at h
    split at h
    · rename_i hp
      cases h
      rw [hp]
      exact .done _
    · rename_i c cs hp
      split at h
      · cases h
        rw [hp]
        exact .stop _ _
      · cases h
        rw [hp]
        exact .next cs ‹_›
    · cases h
  | stop =>
    simp only [step] at h
    split at h
    · exact absurd ‹_› hqueued
    · rename_i cs hp
      cases h
      rw [hp]
      exact .stop cs _
    · cases h

/-! ## What is attached -/

/-- The release holds the staged bytes of the files attached so far, and no others under
their names. -/
structure State.Faithful (g : Staged) (s : State) : Prop where
  none_attached : s.release = none → s.attached = []
  lookup : ∀ r, s.release = some r → ∀ f : PrivateFile,
    r.lookup f.name = if f ∈ s.attached then some (g.content f) else none

theorem PrivateFile.name_injective {f h : PrivateFile} (he : f.name = h.name) : f = h := by
  revert he
  cases f <;> cases h <;> decide

theorem lookup_public (p : PublicFiles) (f : PrivateFile) : p.files.lookup f.name = none := by
  rw [List.lookup_eq_none_iff]
  intro q hq
  exact bne_iff_ne.2 (p.distinct q hq f).symm

theorem step_faithful (hs : s.Faithful g) (h : step sha256 tag g s a = some t) :
    t.Faithful g := by
  rcases step_release h with ⟨p, hnone, hrel, hatt⟩ | ⟨f, r, hr, hf, hrel, hatt⟩ | ⟨hrel, hatt⟩
  · refine ⟨fun he => (by rw [hrel] at he; cases he), fun r hr k => ?_⟩
    rw [hrel] at hr
    cases hr
    rw [lookup_public, hatt, hs.none_attached hnone]
    rfl
  · refine ⟨fun he => (by rw [hrel] at he; cases he), fun r' hr' k => ?_⟩
    rw [hrel] at hr'
    cases hr'
    rw [List.lookup_cons, hatt]
    by_cases hk : k = f
    · subst hk
      simp
    · have hname : (k.name == f.name) = false :=
        beq_false_of_ne fun he => hk (PrivateFile.name_injective he)
      simp only [hname, hs.lookup r hr k, List.mem_cons, hk, false_or]
  · refine ⟨fun he => ?_, fun r hr k => ?_⟩
    · rw [hatt]
      exact hs.none_attached (hrel ▸ he)
    · rw [hatt]
      exact hs.lookup r (hrel ▸ hr) k

/-! ## The run -/

/-- The assets of the run are the private images attached at the download. -/
theorem assetsOf_download (hs : s.Faithful g) {r : Release} (hr : s.release = some r) :
    assetsOf r.download =
      ⟨if .ext2 ∈ s.attached then some g.ext2 else none,
       if .erofs ∈ s.attached then some g.erofs else none⟩ := by
  simp only [assetsOf, Release.download]
  rw [Assoc.lookup_filter_key matchesPrivate, Assoc.lookup_filter_key matchesPrivate,
    if_pos (by decide), if_pos (by decide), hs.lookup r hr, hs.lookup r hr]
  rfl

/-- From the download on, the run is a run of `cmds` that started in `w`. -/
def State.RunOf (cmds : List (Cmd World)) (w : World) (s : State) : Prop :=
  match s.phase with
  | .uploading cs => final cs s.world = final cmds w ∧ completes cs s.world = completes cmds w
  | .succeeded => s.world = final cmds w ∧ completes cmds w = true
  | .failed => True
  | _ => False

theorem step_runOf {cmds : List (Cmd World)} {w : World} (hs : s.RunOf cmds w)
    (h : step sha256 tag g s a = some t) : t.RunOf cmds w := by
  have hidle : s.phase ≠ .idle := fun he => by simp [State.RunOf, he] at hs
  have hqueued : s.phase ≠ .queued := fun he => by simp [State.RunOf, he] at hs
  have hprog := step_progress h hidle hqueued
  unfold State.RunOf at hs ⊢
  generalize s.phase = p, s.world = x, t.phase = q, t.world = y at hprog hs
  cases hprog with
  | same => exact hs
  | stop => trivial
  | next cs hc =>
    simp only [final, completes, hc] at hs
    exact hs
  | done => exact ⟨hs.1, hs.2.symm⟩

theorem download_spec {released : Field} {readOk : Bool}
    (h : step sha256 tag g s (.download released readOk) = some t) :
    ∃ r, s.release = some r ∧ t.RunOf (uploadOf sha256 tag r released readOk) s.world := by
  simp only [step] at h
  split at h
  · rename_i r hr hp
    refine ⟨r, hr, ?_⟩
    split at h
    · cases h
      trivial
    · cases h
      exact ⟨rfl, rfl⟩
  · cases h

/-- A run whose commands succeed can go on to its end. -/
theorem exec_commands {cs : List (Cmd World)} (hp : s.phase = .uploading cs)
    (hok : completes cs s.world = true) :
    exec (step sha256 tag g) s (List.replicate (cs.length + 1) .command) =
      some { s with phase := .succeeded, world := final cs s.world } := by
  induction cs generalizing s with
  | nil => simp [exec, step, hp, final]
  | cons c cs ih =>
    rw [List.length_cons, List.replicate_succ]
    cases hc : c s.world with
    | none => simp [completes, hc] at hok
    | some w =>
      simp only [completes, hc] at hok
      simp only [exec, step, hp, hc, final]
      exact ih rfl hok

/-- **What is published.** In every interleaving, a run that ends successfully had the
ext2 image attached when it downloaded and lists it with its digest and size, which the
text of its manifest states. It does the same for the erofs image if that was attached at
the download, and writes the placeholders `-` and `0` for it if it was not. -/
theorem published_images (sha256 : Bytes → Field) (tag : Tag) (g : Staged) (w : World)
    (before rest : List Action) (s t : State) (released : Field) (readOk : Bool)
    (hbefore : exec (step sha256 tag g) (.init w) before = some s)
    (hrest : exec (step sha256 tag g) s (.download released readOk :: rest) = some t)
    (hdone : t.phase = .succeeded) :
    .ext2 ∈ s.attached ∧
    ∃ m, t.world.file tag "manifest.json" = some (.manifest m) ∧
      stated m.text = some m.stated ∧ m.version = tag ∧ m.ext2 = imageOf sha256 g.ext2 ∧
      t.world.file tag "rootfs.ext2.zst" = some (.image g.ext2) ∧
      if .erofs ∈ s.attached then
        m.erofs = imageOf sha256 g.erofs ∧
        t.world.file tag "rootfs.erofs" = some (.image g.erofs)
      else m.erofs = ⟨.dash, 0⟩ := by
  have hinit : (State.init w).Faithful g := ⟨fun _ => rfl, nofun⟩
  have hfaithful := exec_inv (fun _ _ _ => step_faithful) hinit hbefore
  obtain ⟨u, hu, hrest⟩ := exec_cons.1 hrest
  obtain ⟨r, hr, hrun⟩ := download_spec hu
  have hend := exec_inv (fun _ _ _ => step_runOf) hrun hrest
  simp only [State.RunOf, hdone] at hend
  obtain ⟨hworld, hok⟩ := hend
  have hassets := assetsOf_download hfaithful hr
  simp only [uploadOf, hassets] at hworld hok
  obtain ⟨ext2, he, hmanifest, himage, herofs⟩ := upload_listed hok
  have hext2 : .ext2 ∈ s.attached ∧ ext2 = g.ext2 := by
    by_cases hmem : .ext2 ∈ s.attached
    · simp only [hmem, if_true, Option.some.injEq] at he
      exact ⟨hmem, he.symm⟩
    · simp [hmem] at he
  obtain ⟨hmem, rfl⟩ := hext2
  rw [hworld]
  refine ⟨hmem, _, hmanifest, stated_text _, rfl, rfl, himage, ?_⟩
  by_cases hero : .erofs ∈ s.attached
  · rw [if_pos hero]
    refine ⟨?_, herofs g.erofs (by simp [hero])⟩
    simp [Job.manifest, hero, imageOr]
  · rw [if_neg hero]
    simp [Job.manifest, hero, imageOr]

/-! ## Publishing early -/

/-- Both staged images are listed with their digests and sizes, and stored. -/
def BothListed (sha256 : Bytes → Field) (tag : Tag) (g : Staged) (w : World) : Prop :=
  ∃ m, w.file tag "manifest.json" = some (.manifest m) ∧
    m.ext2 = imageOf sha256 g.ext2 ∧ m.erofs = imageOf sha256 g.erofs ∧
    w.file tag "rootfs.ext2.zst" = some (.image g.ext2) ∧
    w.file tag "rootfs.erofs" = some (.image g.erofs)

def sampleStaged : Staged := ⟨[1], [2], [3]⟩

def sampleTag : Tag := Core.tag ⟨1, 0, 0⟩

def uploadAll (a : Assets) : List Action :=
  .replicate ((upload (fun _ => .dash) ⟨sampleTag, a, .dash, true⟩).length + 1) .command

theorem exec_uploadAll (before : List Action) (a : Assets) {ext2 : Bytes}
    (he : a.ext2 = some ext2)
    (h : exec (step (fun _ => .dash) sampleTag sampleStaged) (.init World.init) before = some s)
    (hp : s.phase = .uploading (upload (fun _ => .dash) ⟨sampleTag, a, .dash, true⟩)) :
    exec (step (fun _ => .dash) sampleTag sampleStaged) (.init World.init)
        (before ++ uploadAll a) =
      some { s with
        phase := .succeeded
        world := final (upload (fun _ => .dash) ⟨sampleTag, a, .dash, true⟩) s.world } :=
  exec_append.2 ⟨s, h, exec_commands hp (upload_completes _ _ he _)⟩

/-- The release is published when both images are attached. -/
def assembled : List Action := [.draft ⟨[], nofun⟩, .attach .ext2, .attach .erofs, .publish]

theorem published_images_complete :
    ∃ t, exec (step (fun _ => .dash) sampleTag sampleStaged) (.init World.init)
        (assembled ++ .download .dash true :: uploadAll ⟨some [1], some [2]⟩) = some t ∧
      t.phase = .succeeded ∧ BothListed (fun _ => .dash) sampleTag sampleStaged t.world := by
  have hrun := exec_uploadAll (assembled ++ [.download .dash true]) ⟨some [1], some [2]⟩ rfl rfl rfl
  rw [List.append_assoc, List.singleton_append] at hrun
  refine ⟨_, hrun, rfl, ?_⟩
  obtain ⟨s, hbefore, hrest⟩ := exec_append.1 hrun
  have hs : s.attached = [.erofs, .ext2] := by cases hbefore; rfl
  obtain ⟨-, m, hm, -, -, hext2, hfile, herofs⟩ :=
    published_images _ _ _ _ _ _ _ _ _ _ hbefore hrest rfl
  rw [if_pos (by rw [hs]; decide)] at herofs
  exact ⟨m, hm, hext2, herofs.1, hfile, herofs.2⟩

/-- The release is published and downloaded while only the ext2 image is attached; the
erofs image follows before the upload ends. -/
theorem early_publish_omits_erofs :
    ∃ t, exec (step (fun _ => .dash) sampleTag sampleStaged) (.init World.init)
        ([.draft ⟨[], nofun⟩, .attach .ext2, .publish, .download .dash true, .attach .erofs,
          .attach .sums] ++ uploadAll ⟨some [1], none⟩) = some t ∧
      t.phase = .succeeded ∧ t.attached = [.sums, .erofs, .ext2] ∧
      ¬ BothListed (fun _ => .dash) sampleTag sampleStaged t.world := by
  refine ⟨_, exec_uploadAll _ ⟨some [1], none⟩ rfl rfl rfl, rfl, rfl, ?_⟩
  rintro ⟨m, hm, -, herofs, -⟩
  obtain ⟨ext2, he, hmanifest, -⟩ := upload_listed (upload_completes (fun _ => .dash)
    ⟨sampleTag, ⟨some [1], none⟩, .dash, true⟩ rfl World.init)
  cases he
  cases Option.some.inj (hm.symm.trans hmanifest)
  have hbytes := congrArg Image.bytes herofs
  revert hbytes
  decide

end BrExternal.Publish.Staging
