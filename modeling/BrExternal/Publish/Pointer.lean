import BrExternal.Publish.Upload

/-!
# The pointer `latest.json` over plain tags

The moves of `latest.json` along any sequence of runs for tags `vMAJOR.MINOR.PATCH`,
each of them possibly cut off. The guard reads the stored version, and a read that
fails counts as `v0.0.0`: such a run overwrites a newer version
(`failed_read_moves_back`). When no failed read meets a newer version, the pointer
never moves back (`latest_never_backwards`).
-/

namespace BrExternal.Publish

open Std Script

/-! ## What the pointer names -/

/-- `v0.0.0`, the version assumed when none can be read. -/
def Core.zero : Core := ⟨0, 0, 0⟩

theorem Core.zero_text : Core.zero.text = "v0.0.0" := by decide

/-- `latest.json` names the plain version `c`. -/
def World.pointsTo (w : World) (c : Core) : Prop :=
  ∃ m, w.pointer = some (.manifest m) ∧ m.version = c.tag

/-- `latest.json` is absent or names a plain version. -/
def World.Plain (w : World) : Prop := w.pointer = none ∨ ∃ c, w.pointsTo c

/-- The stored version at moment `b` is at least the one at moment `a`. -/
def NotBackwards (a b : World) : Prop :=
  ∀ c, a.pointsTo c → ∃ d, b.pointsTo d ∧ (Core.cmp c d).isLE

def Run.Succeeds (sha256 : Bytes → Field) (r : Run) (w : World) : Prop :=
  r.cut = none ∧ completes (upload sha256 r.job) w = true

theorem World.pointsTo_unique {w : World} {c d : Core} (hc : w.pointsTo c) (hd : w.pointsTo d) :
    c = d := by
  obtain ⟨m, hm, hmc⟩ := hc
  obtain ⟨n, hn, hnd⟩ := hd
  rw [hm] at hn
  cases hn
  exact Core.tag_injective (hmc.symm.trans hnd)

theorem World.pointsTo_congr {w u : World} (h : u.pointer = w.pointer) (c : Core) :
    u.pointsTo c ↔ w.pointsTo c := by
  simp only [World.pointsTo, h]

theorem World.Plain.congr {w u : World} (h : u.pointer = w.pointer) (hw : w.Plain) : u.Plain := by
  simpa only [World.Plain, World.pointsTo, h] using hw

theorem NotBackwards.of_eq {w u : World} (h : u.pointer = w.pointer) : NotBackwards w u :=
  fun c hc => ⟨c, (World.pointsTo_congr h c).2 hc, by rw [Core.cmp_self]; rfl⟩

theorem NotBackwards.trans (a b c : World) (hab : NotBackwards a b) (hbc : NotBackwards b c) :
    NotBackwards a c := by
  intro v hv
  obtain ⟨x, hx, hvx⟩ := hab v hv
  obtain ⟨y, hy, hxy⟩ := hbc x hx
  exact ⟨y, hy, TransCmp.isLE_trans hvx hxy⟩

/-! ## The guard on plain versions -/

/-- The version the guard compares with. -/
def World.current (w : World) (ok : Bool) (c : Core) : Prop :=
  if ok then w.pointsTo c ∨ w.pointer = none ∧ c = Core.zero else c = Core.zero

theorem currentOf_plain {w : World} {ok : Bool} {c : Core} (h : w.current ok c) :
    currentOf ok w.pointer = c.text := by
  cases ok with
  | false =>
    obtain rfl : c = Core.zero := h
    rw [currentOf_failed, Core.zero_text]
  | true =>
    rcases h with ⟨m, hm, hv⟩ | ⟨hnone, rfl⟩
    · rw [hm, currentOf_manifest, hv, Core.tag_text]
    · rw [hnone, currentOf_none, Core.zero_text]

theorem exists_current {w : World} (hw : w.Plain) (ok : Bool) : ∃ c, w.current ok c := by
  cases ok with
  | false => exact ⟨Core.zero, rfl⟩
  | true =>
    rcases hw with hnone | ⟨c, hc⟩
    · exact ⟨Core.zero, .inr ⟨hnone, rfl⟩⟩
    · exact ⟨c, .inl hc⟩

theorem moved_plain (t c : Core) (m : Manifest) (old : Option Object) :
    moved t.tag m c.text old = if Core.cmp c t = .lt then some (.manifest m) else old := by
  rw [moved_eq, Core.tag_text, versionCmp_plain]

theorem moveLatest_plain {t c : Core} {m : Manifest} (hm : m.version = t.tag) {w u : World}
    (hcur : w.cur = c.text) (h : moveLatest t.tag m w = some u) :
    (Core.cmp c t = .lt ∧ u.pointsTo t) ∨ (Core.cmp c t ≠ .lt ∧ u.pointer = w.pointer) := by
  have hptr := (moveLatest_spec h).1
  rw [hcur, moved_plain] at hptr
  by_cases hlt : Core.cmp c t = .lt
  · rw [if_pos hlt] at hptr
    exact .inl ⟨hlt, m, hptr, hm⟩
  · rw [if_neg hlt] at hptr
    exact .inr ⟨hlt, hptr⟩

/-! ## One run -/

/-- A failed read happens only when the tag is at least the stored version, and the first
tag ever is not `v0.0.0`. -/
def Job.Sound (j : Job) (t : Core) (w : World) : Prop :=
  (j.readOk = false → t ≠ Core.zero → ∀ c, w.pointsTo c → (Core.cmp c t).isLE) ∧
  (w.pointer = none → t ≠ Core.zero)

theorem Job.Sound.congr {j : Job} {t : Core} {w u : World} (h : u.pointer = w.pointer)
    (hw : j.Sound t w) : j.Sound t u := by
  simpa only [Job.Sound, World.pointsTo, h] using hw

theorem Core.zero_isLE (c : Core) : (Core.cmp Core.zero c).isLE := by
  have hmin : ∀ n : Nat, (compare 0 n).isLE := fun n => by simp [Nat.isLE_compare]
  simp [Core.cmp, compareLex, compareOn, Core.zero, Ordering.isLE_then_iff_and, hmin]

theorem Core.isLE_of_not_lt {c t : Core} (h : Core.cmp c t ≠ .lt) : (Core.cmp t c).isLE :=
  OrientedCmp.isGE_iff_isLE.1 (Ordering.isGE_iff_ne_lt.2 h)

theorem Core.eq_zero {t : Core} (h : (Core.cmp t Core.zero).isLE) : t = Core.zero :=
  Core.eq_of_cmp (OrientedCmp.isLE_antisymm h (Core.zero_isLE t))

/-- The guarded move of a sound run keeps the order and reaches the run's tag. -/
theorem moveLatest_sound {j : Job} {t c : Core} {m : Manifest} (hm : m.version = t.tag)
    {w u : World} (hplain : w.Plain) (hsound : j.Sound t w) (hc : w.current j.readOk c)
    (hcur : w.cur = c.text) (h : moveLatest t.tag m w = some u) :
    NotBackwards w u ∧ ∃ d, u.pointsTo d ∧ (Core.cmp t d).isLE := by
  rcases moveLatest_plain hm hcur h with ⟨hlt, hu⟩ | ⟨hge, hu⟩
  · refine ⟨fun v hv => ⟨t, hu, ?_⟩, t, hu, by rw [Core.cmp_self]; rfl⟩
    cases hok : j.readOk with
    | true =>
      rw [hok] at hc
      rcases hc with hc | ⟨hnone, -⟩
      · rw [World.pointsTo_unique hv hc, hlt]
        rfl
      · obtain ⟨_, hv, -⟩ := hv
        rw [hnone] at hv
        cases hv
    | false =>
      rw [hok] at hc
      obtain rfl : c = Core.zero := hc
      refine hsound.1 hok ?_ v hv
      rintro rfl
      rw [Core.cmp_self] at hlt
      cases hlt
  · refine ⟨.of_eq hu, ?_⟩
    have hle := Core.isLE_of_not_lt hge
    -- Unless the guard compared with the stored version, the tag is `v0.0.0`.
    have hcase : w.pointsTo c ∨ t = Core.zero := by
      cases hok : j.readOk with
      | true =>
        rw [hok] at hc
        rcases hc with hc | ⟨-, rfl⟩
        · exact .inl hc
        · exact .inr (Core.eq_zero hle)
      | false =>
        rw [hok] at hc
        obtain rfl : c = Core.zero := hc
        exact .inr (Core.eq_zero hle)
    rcases hcase with hw | rfl
    · exact ⟨c, (World.pointsTo_congr hu c).2 hw, hle⟩
    · rcases hplain with hnone | ⟨d, hd⟩
      · exact absurd rfl (hsound.2 hnone)
      · exact ⟨d, (World.pointsTo_congr hu d).2 hd, Core.zero_isLE d⟩

variable {sha256 : Bytes → Field}

/-- Every command of a run for a plain tag keeps `latest.json` plain. -/
theorem upload_plain {j : Job} {t : Core} (ht : j.tag = t.tag) :
    ∀ c ∈ upload sha256 j, ∀ w u, w.Plain → c w = some u → u.Plain := by
  intro c hc w u hw h
  cases he : j.assets.ext2 with
  | none =>
    simp only [upload, he, List.mem_singleton] at hc
    subst hc
    cases h
  | some ext2 =>
    simp only [upload, he, List.mem_append, List.mem_cons, List.not_mem_nil, or_false] at hc
    rcases hc with hc | rfl | rfl | rfl | rfl
    · obtain ⟨f, -, rfl⟩ := upRelease_mem hc
      exact hw.congr (up_release_spec h).1
    · exact hw.congr (readLatest_spec h).1
    · have hptr := (moveLatest_spec h).1
      unfold moved at hptr
      split at hptr
      · exact .inr ⟨t, _, hptr, ht⟩
      · exact hw.congr hptr
    · exact hw.congr (listReleases_spec h).1
    · exact hw.congr (upIndex_spec h).1

/-- **One run.** From its start, a sound run moves the pointer forward only, and at its
end the pointer has reached the run's tag. -/
theorem upload_chain (sha256 : Bytes → Field) {j : Job} {t : Core} (ht : j.tag = t.tag) :
    Chain NotBackwards (fun w => w.Plain ∧ j.Sound t w) (upload sha256 j)
      (fun w => ∃ d, w.pointsTo d ∧ (Core.cmp t d).isLE) := by
  cases he : j.assets.ext2 with
  | none =>
    simp only [upload, he]
    exact .cons (R := fun w => ∃ d, w.pointsTo d ∧ (Core.cmp t d).isLE) NotBackwards.trans
      (fun _ _ _ h => by cases h) .nil
  | some ext2 =>
    simp only [upload, he]
    refine .append_of_steps NotBackwards.trans (fun c hc w u hw h => ?_) ?_
    · obtain ⟨f, -, rfl⟩ := upRelease_mem hc
      have hptr := (up_release_spec h).1
      exact ⟨⟨hw.1.congr hptr, hw.2.congr hptr⟩, .of_eq hptr⟩
    -- The read leaves the version the guard compares with in `CUR`.
    refine .cons (R := fun w => w.Plain ∧ j.Sound t w ∧
      ∃ c, w.current j.readOk c ∧ w.cur = c.text) NotBackwards.trans (fun w u hw h => ?_) ?_
    · obtain ⟨hptr, hcur, -⟩ := readLatest_spec h
      obtain ⟨c, hc⟩ := exists_current hw.1 j.readOk
      refine ⟨⟨hw.1.congr hptr, hw.2.congr hptr, c, ?_, hcur.trans (currentOf_plain hc)⟩,
        .of_eq hptr⟩
      simpa only [World.current, World.pointsTo, hptr] using hc
    refine .cons (R := fun w => ∃ d, w.pointsTo d ∧ (Core.cmp t d).isLE) NotBackwards.trans
      (fun w u hw h => ?_) ?_
    · obtain ⟨hplain, hsound, c, hc, hcur⟩ := hw
      rw [ht] at h
      exact (moveLatest_sound (m := j.manifest sha256 ext2) ht hplain hsound hc hcur h).symm
    have hkeep : ∀ w u : World, u.pointer = w.pointer →
        (∃ d, w.pointsTo d ∧ (Core.cmp t d).isLE) →
        (∃ d, u.pointsTo d ∧ (Core.cmp t d).isLE) ∧ NotBackwards w u := by
      rintro w u hptr ⟨d, hd, hle⟩
      exact ⟨⟨d, (World.pointsTo_congr hptr d).2 hd, hle⟩, .of_eq hptr⟩
    exact .cons NotBackwards.trans (fun w u hw h => hkeep w u (listReleases_spec h).1 hw)
      (.cons NotBackwards.trans (fun w u hw h => hkeep w u (upIndex_spec h).1 hw) .nil)

/-! ## Sequences of runs -/

/-- The condition on a run in the state it starts in. -/
def Run.Sound (w : World) (r : Run) : Prop := ∃ t : Core, r.job.tag = t.tag ∧ r.job.Sound t w

theorem run_chain {w : World} {r : Run} (hw : w.Plain) (hr : r.Sound w) :
    (w :: trace (r.script sha256) w).Pairwise NotBackwards ∧
      (final (r.script sha256) w).Plain := by
  obtain ⟨t, ht, hsound⟩ := hr
  have hplain : Triple World.Plain (upload sha256 r.job) World.Plain World.Plain :=
    .of_inv (upload_plain ht)
  have hend : ∀ n, (final ((upload sha256 r.job).take n) w).Plain := fun n => by
    rcases List.mem_cons.1 (final_mem ((upload sha256 r.job).take n) w) with h | h
    · rw [h]; exact hw
    · exact hplain.take n hw _ h
  unfold Run.script
  cases r.cut with
  | none =>
    have hall := hend (upload sha256 r.job).length
    rw [List.take_length] at hall
    exact ⟨(upload_chain sha256 ht w ⟨hw, hsound⟩).1, hall⟩
  | some n => exact ⟨(upload_chain sha256 ht).take n ⟨hw, hsound⟩, hend n⟩

theorem after_plain {w : World} (hw : w.Plain) {rs : List Run}
    (h : Each (runs sha256) (fun w r => r.Sound w) w rs) : (after (runs sha256) w rs).Plain := by
  induction rs generalizing w with
  | nil => exact hw
  | cons r rs ih => exact ih (run_chain hw h.1).2 h.2

/-- **The pointer never moves back.** In every sequence of runs for plain tags in which a
read of `latest.json` fails only when the stored version is at most the run's tag, and
whose first tag is not `v0.0.0`, the stored version never decreases, and a run that
succeeds leaves it at least at its tag. -/
theorem latest_never_backwards (sha256 : Bytes → Field) (rs : List Run)
    (hsound : Each (runs sha256) (fun w r => r.Sound w) World.init rs) :
    (World.init :: history (runs sha256) World.init rs).Pairwise NotBackwards ∧
    ∀ before r rest t, rs = before ++ r :: rest → r.job.tag = Core.tag t →
      r.Succeeds sha256 (after (runs sha256) World.init before) →
      ∃ d, (after (runs sha256) World.init (before ++ [r])).pointsTo d ∧
        (Core.cmp t d).isLE := by
  refine ⟨history_pairwise (fun _ => .of_eq rfl) NotBackwards.trans
    (fun w r hw hr => run_chain hw hr) (.inl rfl) hsound, ?_⟩
  rintro before r rest t rfl ht ⟨hcut, hok⟩
  obtain ⟨hbefore, ⟨u, hu, hr⟩, -⟩ := hsound.append
  obtain rfl : u = t := Core.tag_injective (hu.symm.trans ht)
  rw [after_append]
  have hrun := (upload_chain sha256 ht _ ⟨after_plain (.inl rfl) hbefore, hr⟩).2 hok
  simpa only [after, runs, Run.script, hcut] using hrun

/-! ## A failed read -/

def sampleJob (tag : Tag) (ok : Bool) : Job := ⟨tag, ⟨some [], none⟩, .dash, ok⟩

def plainRun (t : Core) (ok : Bool) : Run := ⟨sampleJob t.tag ok, none⟩

theorem plainRun_pointsTo (sha256 : Bytes → Field) (w : World) (t : Core) (ok : Bool) {c : Core}
    (hc : w.current ok c) (hlt : Core.cmp c t = .lt) :
    (final (runs sha256 (plainRun t ok) w) w).pointsTo t := by
  obtain ⟨hptr, -⟩ := upload_final sha256 (sampleJob t.tag ok) rfl w
  simp only [sampleJob] at hptr
  rw [currentOf_plain hc, moved_plain, if_pos hlt] at hptr
  exact ⟨_, hptr, rfl⟩

theorem latest_never_backwards_failed_read :
    Each (runs fun _ => .dash) (fun w r => r.Sound w) World.init
      [plainRun ⟨1, 0, 0⟩ true, plainRun ⟨2, 0, 0⟩ false] ∧
    (World.init :: history (runs fun _ => .dash) World.init
      [plainRun ⟨1, 0, 0⟩ true, plainRun ⟨2, 0, 0⟩ false]).Pairwise NotBackwards := by
  have hsound : Each (runs fun _ => .dash) (fun w r => r.Sound w) World.init
      [plainRun ⟨1, 0, 0⟩ true, plainRun ⟨2, 0, 0⟩ false] := by
    have hfirst := plainRun_pointsTo (fun _ => .dash) World.init ⟨1, 0, 0⟩ true
      (.inr ⟨rfl, rfl⟩) (by decide)
    refine ⟨⟨⟨1, 0, 0⟩, rfl, nofun, fun _ => by decide⟩,
      ⟨⟨2, 0, 0⟩, rfl, fun _ _ c hc => ?_, fun _ => by decide⟩, trivial⟩
    rw [World.pointsTo_unique hc hfirst]
    decide
  exact ⟨hsound, (latest_never_backwards _ _ hsound).1⟩

/-- The read of `latest.json` fails in the second run: its tag replaces a newer one. -/
theorem failed_read_moves_back :
    ¬ (World.init :: history (runs fun _ => .dash) World.init
      ([plainRun ⟨2, 0, 0⟩ true] ++ [plainRun ⟨1, 0, 0⟩ false])).Pairwise NotBackwards := by
  intro h
  have hback := after_of_pairwise (fun _ => NotBackwards.of_eq rfl) h
  have hfirst := plainRun_pointsTo (fun _ => .dash) World.init ⟨2, 0, 0⟩ true
    (.inr ⟨rfl, rfl⟩) (by decide)
  obtain ⟨d, hd, hle⟩ := hback _ hfirst
  have hsecond := plainRun_pointsTo (fun _ => .dash)
    (after (runs fun _ => .dash) World.init [plainRun ⟨2, 0, 0⟩ true]) ⟨1, 0, 0⟩ false rfl
    (by decide)
  rw [World.pointsTo_unique hd hsecond] at hle
  revert hle
  decide

end BrExternal.Publish
