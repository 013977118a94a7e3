import BrExternal.Lib.Lts
import BrExternal.Publish.Pointer

/-!
# The concurrency group of `publish-r2.yml`

Publishing a release queues a run in the group `publish-r2`. With
`cancel-in-progress: false` one run of the group executes and one may wait; a run that
is queued while another waits cancels it. So a release that is published while a run
waits drops that run for good (`waiting_run_is_cancelled`). When no run waits as a
release is published, every release is uploaded and `latest.json` names the greatest
(`releases_uploaded`).
-/

namespace BrExternal.Publish.Queue

open Script Lts

structure State where
  /-- The releases published so far. -/
  published : List Core
  executing : Option Core
  pending : Option Core
  world : World

def State.init : State := ⟨[], none, none, World.init⟩

inductive Action where
  /-- A release is published: a run is queued. -/
  | arrive (t : Core)
  /-- The waiting run starts. -/
  | start
  /-- The executing run ends; the time it printed and whether it read `latest.json`. -/
  | finish (released : Field) (readOk : Bool)

variable (sha256 : Bytes → Field) (images : Core → Bytes × Bytes)

def jobOf (t : Core) (released : Field) (readOk : Bool) : Job where
  tag := t.tag
  assets := ⟨some (images t).1, some (images t).2⟩
  released := released
  readOk := readOk

def step (s : State) : Action → Option State
  | .arrive t =>
    if t ∈ s.published then none
    else
      match s.executing, s.pending with
      | none, none => some { s with published := t :: s.published, executing := some t }
      -- The run that was waiting is cancelled.
      | _, _ => some { s with published := t :: s.published, pending := some t }
  | .start =>
    match s.executing, s.pending with
    | none, some t => some { s with executing := some t, pending := none }
    | _, _ => none
  | .finish released readOk =>
    match s.executing with
    | none => none
    | some t =>
      some { s with
        executing := none
        world := final (upload sha256 (jobOf images t released readOk)) s.world }

/-- No run waits when a release is published, and the runs that end are sound. -/
def Unhurried (s : State) : Action → Prop
  | .arrive _ => s.pending = none
  | .start => True
  | .finish released readOk =>
    ∀ t, s.executing = some t → (jobOf images t released readOk).Sound t s.world

/-! ## One run of the group -/

variable {sha256 images}

theorem upload_greatest (sha256 : Bytes → Field) {j : Job} {t : Core} (ht : j.tag = t.tag)
    {ext2 : Bytes} (he : j.assets.ext2 = some ext2) {w : World} (hplain : w.Plain)
    (hsound : j.Sound t w) :
    ∃ d, (final (upload sha256 j) w).pointsTo d ∧ (d = t ∨ w.pointsTo d) ∧
      (Core.cmp t d).isLE ∧ ∀ c, w.pointsTo c → (Core.cmp c d).isLE := by
  obtain ⟨hpair, hend⟩ := upload_chain sha256 ht w ⟨hplain, hsound⟩
  obtain ⟨d, hd, hle⟩ := hend (upload_completes sha256 j he w)
  refine ⟨d, hd, ?_, hle, fun c hc => ?_⟩
  · have hptr := (upload_final sha256 j he w).1
    unfold moved at hptr
    split at hptr
    · exact .inl (World.pointsTo_unique hd ⟨_, hptr, ht⟩)
    · exact .inr ((World.pointsTo_congr hptr d).1 hd)
  · have hback := final_of_pairwise (fun _ => NotBackwards.of_eq rfl) hpair w
      (List.mem_cons_self ..)
    obtain ⟨d', hd', hle'⟩ := hback c hc
    rwa [World.pointsTo_unique hd hd']

/-! ## The queue -/

/-- The releases in `done` are uploaded, and no published release is missing. -/
structure State.Settled (s : State) (done : List Core) : Prop where
  split : ∀ t, t ∈ s.published ↔ t ∈ done ∨ s.executing = some t ∨ s.pending = some t
  stored : ∀ t ∈ done, ∃ m, s.world.file (Core.tag t) "manifest.json" = some (.manifest m) ∧
    m.version = Core.tag t
  latest : (done = [] ∧ s.world.pointer = none) ∨
    ∃ d ∈ done, s.world.pointsTo d ∧ ∀ t ∈ done, (Core.cmp t d).isLE

theorem State.Settled.plain {s : State} {done : List Core} (h : s.Settled done) :
    s.world.Plain := by
  rcases h.latest with ⟨-, hnone⟩ | ⟨d, -, hd, -⟩
  · exact .inl hnone
  · exact .inr ⟨d, hd⟩

/-- An upload on top of `done` leaves `latest.json` at the greatest of both. -/
theorem upload_latest (sha256 : Bytes → Field) {j : Job} {t : Core} (ht : j.tag = t.tag)
    {ext2 : Bytes} (he : j.assets.ext2 = some ext2) {w : World} (hplain : w.Plain)
    (hsound : j.Sound t w) {done : List Core}
    (hlatest : (done = [] ∧ w.pointer = none) ∨
      ∃ d ∈ done, w.pointsTo d ∧ ∀ u ∈ done, (Core.cmp u d).isLE) :
    ∃ d ∈ t :: done, (final (upload sha256 j) w).pointsTo d ∧
      ∀ u ∈ t :: done, (Core.cmp u d).isLE := by
  obtain ⟨d, hd, hcase, htd, hmax⟩ := upload_greatest sha256 ht he hplain hsound
  have hmem : d ∈ t :: done := by
    rcases hcase with rfl | hold
    · exact List.mem_cons_self ..
    · rcases hlatest with ⟨-, hnone⟩ | ⟨e, he, hpe, -⟩
      · obtain ⟨m, hm, -⟩ := hold
        rw [hnone] at hm
        cases hm
      · rw [World.pointsTo_unique hold hpe]
        exact List.mem_cons_of_mem _ he
  refine ⟨d, hmem, hd, fun u hu => ?_⟩
  rcases List.mem_cons.1 hu with rfl | hu
  · exact htd
  · rcases hlatest with ⟨hnil, -⟩ | ⟨e, -, hpe, hge⟩
    · rw [hnil] at hu
      cases hu
    · exact Std.TransCmp.isLE_trans (hge u hu) (hmax e hpe)

theorem finish_settled {s : State} {done : List Core} (h : s.Settled done) {t : Core}
    {released : Field} {readOk : Bool} (hexec : s.executing = some t)
    (hsound : (jobOf images t released readOk).Sound t s.world) :
    ({ s with
        executing := none
        world := final (upload sha256 (jobOf images t released readOk)) s.world } : State).Settled
      (t :: done) := by
  obtain ⟨-, -, hother⟩ := upload_final sha256 (jobOf images t released readOk) rfl s.world
  have hmanifest : ∃ m, (final (upload sha256 (jobOf images t released readOk)) s.world).file
      (Core.tag t) "manifest.json" = some (.manifest m) ∧ m.version = Core.tag t := by
    obtain ⟨ext2, -, hm, -⟩ := upload_listed
      (upload_completes sha256 (jobOf images t released readOk) rfl s.world)
    exact ⟨(jobOf images t released readOk).manifest sha256 ext2, hm, rfl⟩
  refine ⟨fun u => ?_, fun u hu => ?_, .inr ?_⟩ <;> dsimp only
  · rw [h.split u, hexec]
    simp only [Option.some.injEq, List.mem_cons, reduceCtorEq, false_or]
    constructor
    · rintro (hu | rfl | hu)
      · exact .inl (.inr hu)
      · exact .inl (.inl rfl)
      · exact .inr hu
    · rintro ((rfl | hu) | hu)
      · exact .inr (.inl rfl)
      · exact .inl hu
      · exact .inr (.inr hu)
  · by_cases hut : u = t
    · rw [hut]
      exact hmanifest
    · have htag : Core.tag u ≠ t.tag := fun he => hut (Core.tag_injective he)
      obtain ⟨m, hm, hv⟩ := h.stored u ((List.mem_cons.1 hu).resolve_left hut)
      refine ⟨m, ?_, hv⟩
      rw [hother u.tag htag]
      exact hm
  · exact upload_latest sha256 (j := jobOf images t released readOk) rfl rfl h.plain hsound h.latest

/-- **One step** of an unhurried schedule keeps every release. -/
theorem step_settled {s t : State} {a : Action} (hs : ∃ done, s.Settled done)
    (hc : Unhurried images s a) (h : step sha256 images s a = some t) :
    ∃ done, t.Settled done := by
  obtain ⟨done, hs⟩ := hs
  cases a with
  | arrive u =>
    have hpend : s.pending = none := hc
    simp only [step, hpend] at h
    split at h
    · cases h
    · cases hexec : s.executing with
      | none =>
        simp only [hexec] at h
        cases h
        refine ⟨done, fun v => ?_, hs.stored, hs.latest⟩
        simp only [List.mem_cons, hs.split v, hexec, hpend, Option.some.injEq, reduceCtorEq,
          or_false]
        tauto
      | some x =>
        simp only [hexec] at h
        cases h
        refine ⟨done, fun v => ?_, hs.stored, hs.latest⟩
        simp only [List.mem_cons, hs.split v, hexec, hpend, Option.some.injEq, reduceCtorEq,
          or_false]
        tauto
  | start =>
    simp only [step] at h
    split at h
    · rename_i u hexec hpend
      cases h
      refine ⟨done, fun v => ?_, hs.stored, hs.latest⟩
      simp only [hs.split v, hexec, hpend, reduceCtorEq, false_or, or_false]
    · cases h
  | finish released readOk =>
    simp only [step] at h
    split at h
    · cases h
    · rename_i u hexec
      cases h
      exact ⟨u :: done, finish_settled hs hexec (hc u hexec)⟩

/-- **No release is dropped.** In every schedule in which no run waits when a release is
published, and whose runs are sound, once nothing executes or waits every published
release is in the bucket and `latest.json` names the greatest. -/
theorem releases_uploaded (sha256 : Bytes → Field) (images : Core → Bytes × Bytes)
    (as : List Action) (s : State) (hrun : exec (step sha256 images) .init as = some s)
    (hunhurried : Along (step sha256 images) (Unhurried images) .init as)
    (hexec : s.executing = none) (hpend : s.pending = none) :
    (∀ t ∈ s.published, ∃ m, s.world.file (Core.tag t) "manifest.json" = some (.manifest m) ∧
      m.version = Core.tag t) ∧
    (s.published ≠ [] → ∃ d ∈ s.published, s.world.pointsTo d ∧
      ∀ t ∈ s.published, (Core.cmp t d).isLE) := by
  have hinit : ∃ done, State.init.Settled done :=
    ⟨[], fun t => by simp [State.init], nofun, .inl ⟨rfl, rfl⟩⟩
  obtain ⟨done, hs⟩ := exec_inv_along (fun _ _ _ => step_settled) hinit hunhurried hrun
  have hall : ∀ t, t ∈ s.published ↔ t ∈ done := fun t => by
    simp only [hs.split t, hexec, hpend, reduceCtorEq, or_false]
  refine ⟨fun t ht => hs.stored t ((hall t).1 ht), fun hne => ?_⟩
  rcases hs.latest with ⟨hnil, -⟩ | ⟨d, hd, hpd, hge⟩
  · obtain ⟨t, ht⟩ := List.exists_mem_of_ne_nil _ hne
    have := (hall t).1 ht
    rw [hnil] at this
    cases this
  · exact ⟨d, (hall d).2 hd, hpd, fun t ht => hge t ((hall t).1 ht)⟩

theorem releases_uploaded_two :
    ∃ s, exec (step (fun _ => .dash) fun _ => ([], [])) .init
        [.arrive ⟨1, 0, 0⟩, .arrive ⟨1, 1, 0⟩, .finish .dash true, .start, .finish .dash true] =
        some s ∧
      (∀ t ∈ s.published, ∃ m, s.world.file (Core.tag t) "manifest.json" = some (.manifest m) ∧
        m.version = Core.tag t) ∧
      ∃ d ∈ s.published, s.world.pointsTo d ∧ ∀ t ∈ s.published, (Core.cmp t d).isLE := by
  have hsound : ∀ (t : Core) (w : World), t ≠ Core.zero →
      (jobOf (fun _ => ([], [])) t .dash true).Sound t w := fun t w ht => ⟨nofun, fun _ => ht⟩
  have halong : Along (step (fun _ => .dash) fun _ => ([], [])) (Unhurried fun _ => ([], []))
      .init [.arrive ⟨1, 0, 0⟩, .arrive ⟨1, 1, 0⟩, .finish .dash true, .start,
        .finish .dash true] := by
    refine ⟨rfl, fun s1 h1 => ?_⟩
    cases h1
    refine ⟨rfl, fun s2 h2 => ?_⟩
    cases h2
    refine ⟨fun t ht => hsound t _ ?_, fun s3 h3 => ?_⟩
    · cases ht
      decide
    cases h3
    refine ⟨trivial, fun s4 h4 => ?_⟩
    cases h4
    refine ⟨fun t ht => hsound t _ ?_, fun s5 h5 => trivial⟩
    cases ht
    decide
  refine ⟨_, rfl, ?_⟩
  obtain ⟨hstored, hlatest⟩ := releases_uploaded _ _ _ _ rfl halong rfl rfl
  exact ⟨hstored, hlatest (by decide)⟩

/-- The second of three releases waits when the third is published. -/
theorem waiting_run_is_cancelled :
    ∃ s, exec (step (fun _ => .dash) fun _ => ([], [])) .init
        [.arrive ⟨1, 0, 0⟩, .arrive ⟨1, 1, 0⟩, .arrive ⟨1, 2, 0⟩, .finish .dash true, .start,
          .finish .dash true] = some s ∧
      s.executing = none ∧ s.pending = none ∧ ⟨1, 1, 0⟩ ∈ s.published ∧
      s.world.file (Core.tag ⟨1, 1, 0⟩) "manifest.json" = none := by
  refine ⟨_, rfl, rfl, rfl, by decide, ?_⟩
  have hother : ∀ (t : Core) (w : World), t ≠ ⟨1, 1, 0⟩ →
      (final (upload (fun _ => .dash) (jobOf (fun _ => ([], [])) t .dash true)) w).file
        (Core.tag ⟨1, 1, 0⟩) = w.file (Core.tag ⟨1, 1, 0⟩) := by
    intro t w ht
    obtain ⟨-, -, hother⟩ :=
      upload_final (fun _ => .dash) (jobOf (fun _ => ([], [])) t .dash true) rfl w
    exact hother _ fun he => ht (Core.tag_injective he).symm
  dsimp only
  rw [hother _ _ (by decide), hother _ _ (by decide)]
  rfl

end BrExternal.Publish.Queue
