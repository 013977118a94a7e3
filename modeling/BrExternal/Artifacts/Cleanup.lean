import BrExternal.Lib.Lts
import BrExternal.Lib.Retention

/-!
# Build artifacts and their cleanup

`build.yml` uploads an artifact `rootfs` and, unless it runs for a pull request, one
`sdk`; `release.yml` calls it, and its job `draft-release` downloads both later.
`cleanup-artifacts.yml` lists all artifacts of the repository and deletes, one by one,
all but the three most recent of each name. The rule does not know about releases in
progress: three later builds and a cleanup take a release's artifacts away
(`cleanup_breaks_release`). An artifact that is among the three most recent of its name
at every listing stays (`artifacts_present`).
-/

namespace BrExternal.Artifacts

open Lts

/-! ## The cleanup rule -/

inductive Name where
  | rootfs
  | sdk
  deriving DecidableEq, Repr

structure Artifact where
  id : Nat
  name : Name
  /-- The workflow run it belongs to. -/
  run : Nat
  createdAt : Nat
  deriving DecidableEq, Repr

def keep : Nat := 3

/-- The comparison of the sort: the more recent first. -/
def newer (x y : Artifact) : Prop := y.createdAt ≤ x.createdAt

instance : DecidableRel newer := fun x y => inferInstanceAs (Decidable (y.createdAt ≤ x.createdAt))

instance : Std.Total newer := ⟨fun x y => Nat.le_total y.createdAt x.createdAt⟩

instance : IsTrans Artifact newer := ⟨fun _ _ _ h1 h2 => Nat.le_trans h2 h1⟩

/-- The names in the order they first appear, as the keys of `byName`. -/
def namesOf (all : List Artifact) : List Name := (all.map Artifact.name).reverse.dedup.reverse

/-- The artifacts the script deletes, in order. -/
def victims (all : List Artifact) : List Artifact :=
  (namesOf all).flatMap fun n => Retention.overflow newer keep (all.filter fun a => a.name = n)

/-- The other artifacts of the same name that are at least as recent. -/
def rivals (all : List Artifact) (a : Artifact) : Nat :=
  all.countP fun b => decide (b.name = a.name ∧ newer b a ∧ b ≠ a)

theorem mem_of_mem_victims {all : List Artifact} {a : Artifact} (h : a ∈ victims all) :
    a ∈ all := by
  obtain ⟨n, -, hn⟩ := List.mem_flatMap.1 h
  exact (List.mem_filter.1 (Retention.mem_of_mem_overflow hn)).1

theorem keep_le_rivals {all : List Artifact} (hall : all.Nodup) {a : Artifact}
    (h : a ∈ victims all) : keep ≤ rivals all a := by
  obtain ⟨n, -, hn⟩ := List.mem_flatMap.1 h
  have hname : a.name = n := of_decide_eq_true
    (List.mem_filter.1 (Retention.mem_of_mem_overflow hn)).2
  refine (Retention.le_countP_of_mem_overflow (hall.filter _) hn).trans (le_of_eq ?_)
  rw [List.countP_filter, rivals]
  refine List.countP_congr fun b _ => ?_
  simp only [hname, Bool.and_eq_true, decide_eq_true_eq]
  tauto

/-! ## The repository -/

inductive Kind where
  | push
  | pullRequest
  | manual
  | release
  deriving DecidableEq

/-- How far the build job of a run has come. -/
inductive Stage where
  | building
  | rootfsUploaded
  | built
  deriving DecidableEq

structure Run where
  kind : Kind
  stage : Stage
  deriving DecidableEq

structure State where
  artifacts : List Artifact
  nextId : Nat
  clock : Nat
  runs : Nat → Option Run
  /-- The artifacts each cleanup run has still to delete. -/
  cleanups : Nat → List Nat

def State.init : State := ⟨[], 0, 0, fun _ => none, fun _ => []⟩

inductive Action where
  | tick
  | start (r : Nat) (kind : Kind)
  | uploadRootfs (r : Nat)
  | uploadSdk (r : Nat)
  /-- `draft-release` downloads the artifacts of its run. -/
  | download (r : Nat)
  /-- A cleanup run lists all artifacts. -/
  | list (k : Nat) (all : List Artifact)
  /-- It deletes the next one; an artifact that is gone ends the run. -/
  | delete (k : Nat)
  /-- It fails. -/
  | fail (k : Nat)

/-- A new artifact of run `r`. -/
def State.upload (s : State) (name : Name) (r : Nat) (run : Run) : State :=
  { s with
    artifacts := ⟨s.nextId, name, r, s.clock⟩ :: s.artifacts
    nextId := s.nextId + 1
    runs := Function.update s.runs r (some run) }

def step (s : State) : Action → Option State
  | .tick => some { s with clock := s.clock + 1 }
  | .start r kind =>
    match s.runs r with
    | none => some { s with runs := Function.update s.runs r (some ⟨kind, .building⟩) }
    | some _ => none
  | .uploadRootfs r =>
    match s.runs r with
    | some ⟨.pullRequest, .building⟩ => some (s.upload .rootfs r ⟨.pullRequest, .built⟩)
    | some ⟨kind, .building⟩ => some (s.upload .rootfs r ⟨kind, .rootfsUploaded⟩)
    | _ => none
  | .uploadSdk r =>
    match s.runs r with
    | some ⟨kind, .rootfsUploaded⟩ => some (s.upload .sdk r ⟨kind, .built⟩)
    | _ => none
  | .download r => if s.runs r = some ⟨.release, .built⟩ then some s else none
  | .list k all =>
    if s.cleanups k = [] ∧ all.Perm s.artifacts then
      some { s with cleanups := Function.update s.cleanups k ((victims all).map Artifact.id) }
    else none
  | .delete k =>
    match s.cleanups k with
    | [] => none
    | id :: ids =>
      if id ∈ s.artifacts.map Artifact.id then
        some { s with
          artifacts := s.artifacts.filter fun a => a.id ≠ id
          cleanups := Function.update s.cleanups k ids }
      else some { s with cleanups := Function.update s.cleanups k [] }
  | .fail k => some { s with cleanups := Function.update s.cleanups k [] }

def State.Has (s : State) (r : Nat) (name : Name) : Prop :=
  ∃ a ∈ s.artifacts, a.run = r ∧ a.name = name

instance (s : State) (r : Nat) (name : Name) : Decidable (s.Has r name) :=
  inferInstanceAs (Decidable (∃ a ∈ s.artifacts, a.run = r ∧ a.name = name))

/-- At a listing, the artifacts of run `r` have fewer than three rivals. -/
def Recent (r : Nat) (s : State) : Action → Prop
  | .list _ _ => ∀ a ∈ s.artifacts, a.run = r → rivals s.artifacts a < keep
  | _ => True

/-! ## Releases in progress -/

/-- What the build job of a run has uploaded is there. -/
def State.HasUploads (s : State) (r : Nat) (run : Run) : Prop :=
  (run.stage ≠ .building → s.Has r .rootfs) ∧
  (run.stage = .built → run.kind ≠ .pullRequest → s.Has r .sdk)

/-- Nothing of run `r` is lost or about to be deleted. -/
structure State.Safe (r : Nat) (s : State) : Prop where
  unique : (s.artifacts.map Artifact.id).Nodup
  fresh : ∀ a ∈ s.artifacts, a.id < s.nextId
  planned : ∀ k, ∀ id ∈ s.cleanups k, id < s.nextId ∧ ∀ a ∈ s.artifacts, a.id = id → a.run ≠ r
  uploads : ∀ run, s.runs r = some run → s.HasUploads r run

variable {r : Nat} {s t : State}

theorem State.Has.mono {q : Nat} {name : Name}
    (h : ∀ a ∈ s.artifacts, a.run = q → a ∈ t.artifacts) (hs : s.Has q name) :
    t.Has q name := by
  obtain ⟨a, ha, hr, hn⟩ := hs
  exact ⟨a, h a ha hr, hr, hn⟩

theorem State.HasUploads.mono {q : Nat} {run : Run}
    (h : ∀ a ∈ s.artifacts, a.run = q → a ∈ t.artifacts) (hs : s.HasUploads q run) :
    t.HasUploads q run :=
  ⟨fun hst => (hs.1 hst).mono h, fun hst hk => (hs.2 hst hk).mono h⟩

theorem upload_safe {name : Name} {q : Nat} {run : Run} (hs : s.Safe r)
    (hrun : q = r → (s.upload name q run).HasUploads r run) : (s.upload name q run).Safe r := by
  have hgrow : ∀ a ∈ s.artifacts, a.run = r → a ∈ (s.upload name q run).artifacts :=
    fun a ha _ => List.mem_cons_of_mem _ ha
  refine ⟨?_, fun a ha => ?_, fun k id hid => ⟨?_, fun a ha hida => ?_⟩, fun x hx => ?_⟩
  · refine List.nodup_cons.2 ⟨fun hm => ?_, hs.unique⟩
    obtain ⟨a, ha, hid⟩ := List.mem_map.1 hm
    exact absurd (hs.fresh a ha) (by rw [hid]; exact Nat.lt_irrefl _)
  · rcases List.mem_cons.1 ha with rfl | ha
    · exact Nat.lt_succ_self _
    · exact Nat.lt_succ_of_lt (hs.fresh a ha)
  · exact Nat.lt_succ_of_lt (hs.planned k id hid).1
  · obtain ⟨hlt, hother⟩ := hs.planned k id hid
    rcases List.mem_cons.1 ha with rfl | ha
    · -- The new artifact's number is not planned yet.
      exact absurd hida (Nat.ne_of_gt hlt)
    · exact hother a ha hida
  · by_cases hq : q = r
    · have hnew : (s.upload name q run).runs r = some run := by simp [State.upload, hq]
      rw [hnew] at hx
      cases hx
      exact hrun hq
    · have hold : (s.upload name q run).runs r = s.runs r := by
        simp [State.upload, Function.update_of_ne (Ne.symm hq)]
      rw [hold] at hx
      exact (hs.uploads x hx).mono hgrow

theorem list_safe {k : Nat} {all : List Artifact} (hs : s.Safe r) (hperm : all.Perm s.artifacts)
    (hrecent : ∀ a ∈ s.artifacts, a.run = r → rivals s.artifacts a < keep) :
    ({ s with cleanups := Function.update s.cleanups k ((victims all).map Artifact.id) } :
      State).Safe r := by
  refine ⟨hs.unique, hs.fresh, fun j id hid => ?_, hs.uploads⟩
  by_cases hj : j = k
  · subst hj
    simp only [Function.update_self] at hid
    obtain ⟨v, hv, rfl⟩ := List.mem_map.1 hid
    have hmem := hperm.subset (mem_of_mem_victims hv)
    refine ⟨hs.fresh v hmem, fun a ha hida hrun => ?_⟩
    obtain rfl := List.inj_on_of_nodup_map hs.unique ha hmem hida
    have hall : all.Nodup := hperm.nodup_iff.2 (List.Nodup.of_map _ hs.unique)
    have hcount : rivals all a = rivals s.artifacts a := hperm.countP_eq _
    have hle := keep_le_rivals hall hv
    have hlt := hrecent a ha hrun
    omega
  · simp only [Function.update_of_ne hj] at hid
    exact hs.planned j id hid

theorem cleanups_safe {c : Nat → List Nat} (hs : s.Safe r) (hc : ∀ k, c k ⊆ s.cleanups k) :
    ({ s with cleanups := c } : State).Safe r :=
  ⟨hs.unique, hs.fresh, fun k id hid => hs.planned k id (hc k hid), hs.uploads⟩

theorem update_subset {c : Nat → List Nat} {k : Nat} {ids : List Nat} (h : ids ⊆ c k) (j : Nat) :
    Function.update c k ids j ⊆ c j := by
  by_cases hj : j = k
  · subst hj
    simpa using h
  · simp [Function.update_of_ne hj]

theorem delete_safe {k id : Nat} {ids : List Nat} (hs : s.Safe r)
    (hk : s.cleanups k = id :: ids) :
    ({ s with
        artifacts := s.artifacts.filter fun a => a.id ≠ id
        cleanups := Function.update s.cleanups k ids } : State).Safe r := by
  have hmem : id ∈ s.cleanups k := by rw [hk]; exact List.mem_cons_self ..
  have hkept : ∀ a ∈ s.artifacts, a.run = r → a ∈ s.artifacts.filter fun a => a.id ≠ id :=
    fun a ha hr => List.mem_filter.2
      ⟨ha, decide_eq_true fun hid => (hs.planned k id hmem).2 a ha hid hr⟩
  have hsub : ids ⊆ s.cleanups k := by rw [hk]; exact List.subset_cons_self ..
  refine ⟨?_, fun a ha => hs.fresh a (List.mem_filter.1 ha).1, fun j i hi => ?_, fun x hx =>
    (hs.uploads x hx).mono hkept⟩
  · exact hs.unique.sublist (List.filter_sublist.map _)
  · obtain ⟨hlt, hother⟩ := hs.planned j i (update_subset hsub j hi)
    exact ⟨hlt, fun a ha => hother a (List.mem_filter.1 ha).1⟩

/-- **One step.** -/
theorem step_safe {a : Action} (hs : s.Safe r) (hc : Recent r s a) (h : step s a = some t) :
    t.Safe r := by
  cases a with
  | tick =>
    cases h
    exact ⟨hs.unique, hs.fresh, hs.planned, hs.uploads⟩
  | start q kind =>
    simp only [step] at h
    split at h
    · cases h
      refine ⟨hs.unique, hs.fresh, hs.planned, fun x hx => ?_⟩
      by_cases hq : r = q
      · subst hq
        simp only [Function.update_self, Option.some.injEq] at hx
        subst hx
        exact ⟨fun h => absurd rfl h, nofun⟩
      · simp only [Function.update_of_ne hq] at hx
        exact hs.uploads x hx
    · cases h
  | uploadRootfs q =>
    have hnew : ∀ run, q = r → (s.upload .rootfs q run).Has r .rootfs :=
      fun run hq => ⟨_, List.mem_cons_self .., hq, rfl⟩
    simp only [step] at h
    split at h
    · cases h
      exact upload_safe hs fun hq => ⟨fun _ => hnew _ hq, fun _ hk => absurd rfl hk⟩
    · cases h
      exact upload_safe hs fun hq => ⟨fun _ => hnew _ hq, nofun⟩
    · cases h
  | uploadSdk q =>
    simp only [step] at h
    split at h
    · rename_i kind hq
      cases h
      refine upload_safe hs fun hqr =>
        ⟨fun _ => ?_, fun _ _ => ⟨_, List.mem_cons_self .., hqr, rfl⟩⟩
      rw [hqr] at hq
      exact ((hs.uploads _ hq).1 nofun).mono fun a ha _ => List.mem_cons_of_mem _ ha
    · cases h
  | download q =>
    simp only [step] at h
    split at h
    · cases h
      exact hs
    · cases h
  | list k all =>
    simp only [step] at h
    split at h
    · rename_i hk
      cases h
      exact list_safe hs hk.2 hc
    · cases h
  | delete k =>
    simp only [step] at h
    split at h
    · cases h
    · rename_i id ids hk
      split at h
      · cases h
        exact delete_safe hs hk
      · cases h
        exact cleanups_safe hs (update_subset (List.nil_subset _))
  | fail k =>
    cases h
    exact cleanups_safe hs (update_subset (List.nil_subset _))

/-- **Artifacts of a release in progress.** In every interleaving in which, at each
listing of a cleanup run, the artifacts of release run `r` have fewer than three others
of their name that are at least as recent, both are present whenever `draft-release`
downloads. -/
theorem artifacts_present (r : Nat) (as : List Action) (s t : State)
    (hrun : exec step .init as = some s) (hrecent : Along step (Recent r) .init as)
    (hdownload : step s (.download r) = some t) : s.Has r .rootfs ∧ s.Has r .sdk := by
  have hinit : State.init.Safe r := ⟨List.nodup_nil, nofun, nofun, nofun⟩
  have hs := exec_inv_along (fun _ _ _ => step_safe) hinit hrecent hrun
  have hbuilt : s.runs r = some ⟨.release, .built⟩ := by
    by_contra hne
    simp [step, hne] at hdownload
  obtain ⟨hrootfs, hsdk⟩ := hs.uploads _ hbuilt
  exact ⟨hrootfs nofun, hsdk rfl nofun⟩

def build (r : Nat) (kind : Kind) : List Action :=
  [.start r kind, .uploadRootfs r, .uploadSdk r, .tick]

/-- A push, a release and two more pushes are built. -/
def fourBuilds : List Action :=
  build 1 .push ++ build 0 .release ++ build 2 .push ++ build 3 .push

def fourPairs : List Artifact :=
  [⟨7, .sdk, 3, 3⟩, ⟨6, .rootfs, 3, 3⟩, ⟨5, .sdk, 2, 2⟩, ⟨4, .rootfs, 2, 2⟩,
    ⟨3, .sdk, 0, 1⟩, ⟨2, .rootfs, 0, 1⟩, ⟨1, .sdk, 1, 0⟩, ⟨0, .rootfs, 1, 0⟩]

def wholeCleanup : List Action := [.list 0 fourPairs, .delete 0, .delete 0]

theorem fourBuilds_recent : Along step (Recent 0) .init (fourBuilds ++ wholeCleanup) := by
  have hbuilds : Along step (Recent 0) .init fourBuilds :=
    (Along.of_forall (C := fun a => ∀ s, Recent 0 s a) (by simp [fourBuilds, build, Recent])
      _).mono fun s _ h => h s
  refine (along_append rfl).2
    ⟨hbuilds, ?_, fun _ _ => ⟨trivial, fun _ _ => ⟨trivial, fun _ _ => trivial⟩⟩⟩
  show ∀ a ∈ fourPairs, a.run = 0 → rivals fourPairs a < keep
  decide

/-- The cleanup deletes the artifacts of the first push, and those of the release, which
are older than two others, stay. -/
theorem artifacts_present_third :
    ∃ s, exec step .init (fourBuilds ++ wholeCleanup) = some s ∧
      (step s (.download 0)).isSome ∧ ¬ s.Has 1 .rootfs ∧ ¬ s.Has 1 .sdk ∧
      s.Has 0 .rootfs ∧ s.Has 0 .sdk :=
  ⟨_, rfl, rfl, by decide, by decide,
    artifacts_present 0 (fourBuilds ++ wholeCleanup) _ _ rfl fourBuilds_recent rfl⟩

/-- Three pushes are built and a cleanup runs before the release downloads. -/
theorem cleanup_breaks_release :
    ∃ s, exec step .init (build 0 .release ++ build 1 .push ++ build 2 .push ++ build 3 .push ++
        [.list 0 [⟨7, .sdk, 3, 3⟩, ⟨6, .rootfs, 3, 3⟩, ⟨5, .sdk, 2, 2⟩, ⟨4, .rootfs, 2, 2⟩,
          ⟨3, .sdk, 1, 1⟩, ⟨2, .rootfs, 1, 1⟩, ⟨1, .sdk, 0, 0⟩, ⟨0, .rootfs, 0, 0⟩],
          .delete 0, .delete 0]) = some s ∧
      (step s (.download 0)).isSome ∧ ¬ s.Has 0 .rootfs ∧ ¬ s.Has 0 .sdk :=
  ⟨_, rfl, rfl, by decide, by decide⟩

end BrExternal.Artifacts
