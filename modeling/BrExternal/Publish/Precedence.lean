import BrExternal.Lib.Champion
import BrExternal.Publish.Pointer

/-!
# Complete runs and SemVer precedence

Over runs that all complete, `latest.json` is a register that a tag replaces when
`sort -V` puts it strictly above the stored one: it ends with the greatest tag by
`sort -V` (`completeRuns_version`). For SemVer tags that is the tag of greatest
precedence unless another tag of the same core is in its way, and a release is never
the last word once one of its own pre-releases is published (`latest_greatest_iff`).
-/

namespace BrExternal.Publish

open Std Script

/-! ## The register -/

def Job.Complete (j : Job) : Prop := j.readOk = true ∧ ∃ ext2, j.assets.ext2 = some ext2

/-- Runs that are not cut off, one after another. -/
def completeRuns (js : List Job) : List Run := js.map fun j => ⟨j, none⟩

def World.version (w : World) : List Char := (currentOf true w.pointer).toList

def World.Names (w : World) (t : Tag) : Prop :=
  ∃ m, w.pointer = some (.manifest m) ∧ m.version = t

/-- The stored version, if there is one, is above the default. -/
def World.AboveDefault (w : World) : Prop :=
  w.pointer = none ∨
    ∃ t, w.Names t ∧ versionCmp Core.zero.text.toList t.text.toList = .lt

theorem World.Names.version {w : World} {t : Tag} (h : w.Names t) : w.version = t.text.toList := by
  obtain ⟨m, hm, rfl⟩ := h
  rw [World.version, hm, currentOf_manifest]

theorem World.names_iff {w : World} (hw : w.AboveDefault) (t : Tag) :
    w.Names t ↔ w.version = t.text.toList ∧ t.text ≠ "v0.0.0" := by
  constructor
  · intro h
    refine ⟨h.version, fun hzero => ?_⟩
    rcases hw with hnone | ⟨u, hu, hlt⟩
    · obtain ⟨m, hm, -⟩ := h
      rw [hnone] at hm
      cases hm
    · have hself : versionCmp t.text.toList t.text.toList = .eq := ReflCmp.compare_self
      rw [← hu.version, h.version, Core.zero_text, ← hzero, hself] at hlt
      cases hlt
  · rintro ⟨hversion, hne⟩
    rcases hw with hnone | ⟨u, hu, -⟩
    · rw [World.version, hnone, currentOf_none] at hversion
      exact absurd (String.toList_inj.1 hversion).symm hne
    · rw [hu.version] at hversion
      rwa [← Tag.ext_text (String.toList_inj.1 hversion)]

/-- One complete run challenges the stored version. -/
theorem complete_step (sha256 : Bytes → Field) {j : Job} (hj : j.Complete) {w : World}
    (hw : w.AboveDefault) :
    (final (upload sha256 j) w).version =
        Champion.challenge versionCmp w.version j.tag.text.toList ∧
      (final (upload sha256 j) w).AboveDefault := by
  obtain ⟨hok, ext2, he⟩ := hj
  have hptr := (upload_final sha256 j he w).1
  rw [hok, moved_eq] at hptr
  by_cases hlt : versionCmp w.version j.tag.text.toList = .lt
  · have hnames : (final (upload sha256 j) w).Names j.tag :=
      ⟨_, hptr.trans (if_pos hlt), rfl⟩
    refine ⟨?_, .inr ⟨j.tag, hnames, ?_⟩⟩
    · rw [hnames.version, Champion.challenge, if_pos hlt]
    · rcases hw with hnone | ⟨u, hu, hu0⟩
      · rwa [World.version, hnone, currentOf_none, ← Core.zero_text] at hlt
      · rw [hu.version] at hlt
        exact TransCmp.lt_trans hu0 hlt
  · have hsame := hptr.trans (if_neg hlt)
    refine ⟨?_, ?_⟩
    · rw [Champion.challenge, if_neg hlt, World.version, World.version, hsame]
    · simpa only [World.AboveDefault, World.Names, hsame] using hw

/-- **Complete runs.** They leave in `latest.json` what a register that keeps the greatest
tag by `sort -V` holds. -/
theorem completeRuns_version (sha256 : Bytes → Field) {js : List Job}
    (hjs : ∀ j ∈ js, j.Complete) {w : World} (hw : w.AboveDefault) :
    (after (runs sha256) w (completeRuns js)).version =
        Champion.run versionCmp w.version (js.map fun j => j.tag.text.toList) ∧
      (after (runs sha256) w (completeRuns js)).AboveDefault := by
  induction js generalizing w with
  | nil => exact ⟨rfl, hw⟩
  | cons j js ih =>
    obtain ⟨hversion, habove⟩ := complete_step sha256 (hjs j (List.mem_cons_self ..)) hw
    obtain ⟨hrest, hend⟩ := ih (fun k hk => hjs k (List.mem_cons_of_mem _ hk)) habove
    refine ⟨hrest.trans ?_, hend⟩
    rw [hversion, List.map_cons, Champion.run_cons]

/-- The tag that is stored after complete runs from an empty bucket. -/
theorem completeRuns_names (sha256 : Bytes → Field) {js : List Job}
    (hjs : ∀ j ∈ js, j.Complete) (t : Tag) :
    (after (runs sha256) World.init (completeRuns js)).Names t ↔
      Champion.run versionCmp Core.zero.text.toList (js.map fun j => j.tag.text.toList) =
        t.text.toList ∧ t.text ≠ "v0.0.0" := by
  obtain ⟨hversion, habove⟩ := completeRuns_version sha256 hjs
    (w := World.init) (.inl rfl)
  have hinit : World.init.version = Core.zero.text.toList := by
    rw [Core.zero_text]
    rfl
  rw [World.names_iff habove, hversion, hinit]

/-! ## SemVer tags -/

theorem Core.isLE_of_semver {a b : SemVer} (h : (a.cmp b).isLE) :
    (Core.cmp a.core b.core).isLE := by
  rw [SemVer.cmp] at h
  cases hc : Core.cmp a.core b.core with
  | lt => rfl
  | eq => rfl
  | gt => rw [hc] at h; cases h

theorem SemVer.tag_text (v : SemVer) : v.tag.text = v.text := rfl

/-- The default is at or below every SemVer tag. -/
theorem versionCmp_zero (v : SemVer) :
    (versionCmp Core.zero.text.toList v.text.toList).isLE := by
  have hzero : Core.zero.text = SemVer.text ⟨Core.zero, []⟩ := (Core.tag_text _).symm
  cases hc : Core.cmp Core.zero v.core with
  | lt =>
    rw [hzero, versionCmp_of_core_lt (a := ⟨Core.zero, []⟩) hc]
    rfl
  | gt =>
    have := Core.zero_isLE v.core
    rw [hc] at this
    cases this
  | eq =>
    obtain ⟨core, pre⟩ := v
    obtain rfl : Core.zero = core := Core.eq_of_cmp hc
    cases pre with
    | nil =>
      rw [hzero]
      exact ReflCmp.isLE_rfl
    | cons p ps =>
      rw [hzero, versionCmp_release_pre]
      rfl

/-- When `sort -V` ranks `v` at or below `m`, of greater precedence. -/
theorem versionCmp_isLE_iff {v m : SemVer} (h : (v.cmp m).isLE) (hne : v.tag ≠ m.tag) :
    (versionCmp v.text.toList m.text.toList).isLE ↔
      (v.core = m.core → m.pre ≠ [] ∧ versionCmp v.text.toList m.text.toList = .lt) := by
  have hlt : (versionCmp v.text.toList m.text.toList).isLE ↔
      versionCmp v.text.toList m.text.toList = .lt := by
    cases hc : versionCmp v.text.toList m.text.toList with
    | lt => simp
    | gt => simp
    | eq =>
      have htext : v.text = m.text := String.toList_inj.1 (versionCmp_eq hc)
      rw [← SemVer.tag_text, ← SemVer.tag_text] at htext
      exact absurd (Tag.ext_text htext) hne
  cases hc : Core.cmp v.core m.core with
  | gt =>
    have := Core.isLE_of_semver h
    rw [hc] at this
    cases this
  | lt =>
    have hcore : v.core ≠ m.core := by
      intro he
      rw [he, Core.cmp_self] at hc
      cases hc
    simp [versionCmp_of_core_lt hc, hcore]
  | eq =>
    have hcore := Core.eq_of_cmp hc
    rw [hlt]
    refine ⟨fun hvm _ => ⟨fun hpre => ?_, hvm⟩, fun hvm => (hvm hcore).2⟩
    -- A release `m`: version sort ranks its pre-release `v` above it.
    obtain ⟨core, pre⟩ := m
    obtain ⟨core', pre'⟩ := v
    obtain rfl : core' = core := hcore
    obtain rfl : pre = [] := hpre
    cases pre' with
    | nil => exact hne rfl
    | cons p ps =>
      have hgt := OrientedCmp.gt_of_lt (versionCmp_release_pre core' p ps)
      rw [hgt] at hvm
      cases hvm

/-- **Precedence.** After complete runs for distinct SemVer tags, `latest.json` names the
tag `m` of greatest precedence exactly when `m` is not `v0.0.0`, and every other tag with
`m`'s core was published beside a pre-release `m` that `sort -V` ranks above it. -/
theorem latest_greatest_iff (sha256 : Bytes → Field) (js : List Job) (vs : List SemVer)
    (m : SemVer) (hcomplete : ∀ j ∈ js, j.Complete) (htags : js.map Job.tag = vs.map SemVer.tag)
    (hdistinct : (vs.map SemVer.tag).Nodup) (hm : m.Greatest vs) :
    (after (runs sha256) World.init (completeRuns js)).Names m.tag ↔
      m.text ≠ "v0.0.0" ∧ ∀ v ∈ vs, v ≠ m → v.core = m.core →
        m.pre ≠ [] ∧ versionCmp v.text.toList m.text.toList = .lt := by
  have hchars : (js.map fun j => j.tag.text.toList) = vs.map fun v => v.text.toList := by
    have := congrArg (List.map fun t : Tag => t.text.toList) htags
    simpa [List.map_map, Function.comp_def, SemVer.tag_text] using this
  rw [completeRuns_names sha256 hcomplete, hchars, Champion.run_eq_iff, and_comm, SemVer.tag_text]
  refine and_congr_right fun _ => ?_
  simp only [List.mem_cons, List.mem_map, forall_eq_or_imp, forall_exists_index, and_imp,
    forall_apply_eq_imp_iff₂]
  have hmem : m.text.toList = Core.zero.text.toList ∨
      ∃ v ∈ vs, v.text.toList = m.text.toList := .inr ⟨m, hm.1, rfl⟩
  simp only [hmem, versionCmp_zero, true_and]
  refine forall₂_congr fun v hv => ?_
  by_cases hvm : v = m
  · subst hvm
    have hself : (versionCmp v.text.toList v.text.toList).isLE := ReflCmp.isLE_rfl
    simp [hself]
  · have htag : v.tag ≠ m.tag := fun he =>
      hvm (List.inj_on_of_nodup_map hdistinct hv hm.1 he)
    simp only [versionCmp_isLE_iff (hm.2 v hv) htag, ne_eq, hvm, not_false_eq_true, true_imp_iff]

def candidate : SemVer :=
  ⟨⟨1, 0, 0⟩, [.alnum ⟨['r', 'c', '1'], by simp, by simp⟩]⟩

/-- Complete runs for SemVer tags, in order. -/
def semverJobs (vs : List SemVer) : List Job := vs.map fun v => sampleJob v.tag true

theorem semverJobs_complete (vs : List SemVer) : ∀ j ∈ semverJobs vs, j.Complete := by
  intro j hj
  obtain ⟨v, -, rfl⟩ := List.mem_map.1 hj
  exact ⟨rfl, [], rfl⟩

theorem latest_greatest_minor :
    (after (runs fun _ => .dash) World.init
      (completeRuns (semverJobs [⟨⟨1, 10, 0⟩, []⟩, candidate, ⟨⟨1, 9, 0⟩, []⟩]))).Names
      (SemVer.mk ⟨1, 10, 0⟩ []).tag := by
  refine (latest_greatest_iff (fun _ => .dash) _
    [⟨⟨1, 10, 0⟩, []⟩, candidate, ⟨⟨1, 9, 0⟩, []⟩] _ (semverJobs_complete _) rfl ?_
    ⟨List.mem_cons_self .., ?_⟩).2 ⟨?_, ?_⟩
  · decide +kernel
  · decide
  · decide
  · decide

/-- `v1.0.0` is published, then the tag of its release candidate: the candidate stays. -/
theorem candidate_replaces_release :
    (SemVer.mk ⟨1, 0, 0⟩ []).Greatest [⟨⟨1, 0, 0⟩, []⟩, candidate] ∧
    ([SemVer.mk ⟨1, 0, 0⟩ [], candidate].map SemVer.tag).Nodup ∧
    (after (runs fun _ => .dash) World.init
      (completeRuns (semverJobs [⟨⟨1, 0, 0⟩, []⟩, candidate]))).Names candidate.tag ∧
    ¬ (after (runs fun _ => .dash) World.init
      (completeRuns (semverJobs [⟨⟨1, 0, 0⟩, []⟩, candidate]))).Names
      (SemVer.mk ⟨1, 0, 0⟩ []).tag := by
  rw [completeRuns_names _ (semverJobs_complete _), completeRuns_names _ (semverJobs_complete _)]
  refine ⟨⟨List.mem_cons_self .., by decide⟩, by decide +kernel, by decide +kernel,
    by decide +kernel⟩

end BrExternal.Publish
