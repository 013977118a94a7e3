import BrExternal.Netwatch.Loop

/-!
# What the watcher guarantees

Two properties of the loop in every interleaving. A quiet iteration, in which neither
zenohd nor the inventory changes and no restart is issued, means that zenohd was started
under the inventory there is (`no_change_lost`); a restart that takes effect replaces an
invocation that was started under another inventory (`restart_replaces_outdated`). Both
rest on the baseline being taken in time, which the script does not see to: it takes the
baseline at the poll after a start and not at the start (`late_baseline_hides_change`),
and it may decide on one invocation and restart the next (`restart_hits_new_zenohd`).
-/

namespace BrExternal.Netwatch

open Lts

variable {s t : State} {z : Invocation} {w : Inventory}

theorem State.zenohd_mem (h : s.zenohd = some z) : z ∈ s.invocations := by
  unfold State.zenohd at h
  split at h
  · exact List.mem_of_mem_head? h
  · cases h

theorem State.zenohd_id (h : s.zenohd = some z) : s.invocationId = z.id := by
  unfold State.zenohd at h
  split at h
  · simp [State.invocationId, h]
  · cases h

/-! ## Quiet iterations -/

/-- When `systemctl show` failed and the watcher has a baseline, the inventory is still
the one zenohd was started under. -/
def Heard (s : State) : Action → Prop
  | .run => s.pc = .takeCur → s.vars.inv = "" → (s.vars.prevInv ≠ "" ∨ s.vars.base ≠ "") →
      ∀ z, s.zenohd = some z → s.inventory = z.started
  | _ => True

/-- Neither a restart of zenohd by the watcher nor one of the watcher. -/
def Quiet : Action → Prop
  | .tryRestart _ => False
  | .respawn => False
  | _ => True

/-- What a quiet iteration has found out, command by command: either the inventory `w` is
the one `z` was started under, or the iteration is on its way to a restart. -/
def Tracks (z : Invocation) (w : Inventory) (s : State) : Prop :=
  match s.pc with
  | .readInv | .tryRestart => True
  | .takeCur => s.vars.inv = z.id ∨ s.vars.inv = ""
  | .rebase => s.vars.cur = snapshot w ∧ (w = z.started ∨ s.vars.inv = s.vars.prevInv ∧
      (s.vars.base = snapshot z.started ∨ s.vars.base = ""))
  | .compare => s.vars.cur = snapshot w ∧ (w = z.started ∨ s.vars.cur ≠ s.vars.base)
  | .sleepStable | .takeCur2 => w = z.started ∨ s.vars.cur = snapshot w
  | .confirm => w = z.started ∨ s.vars.cur = snapshot w ∧ s.vars.cur2 = snapshot w
  | .sleepEnd => w = z.started

/-- What the ID says when `CUR` is taken: the inventory is the one `z` was started under, or
there is nothing to rebase and the baseline is that of `z` or empty. -/
theorem takeCur_known (hs : s.Sound) (htime : InTime s .run) (hheard : Heard s .run)
    (hz : s.zenohd = some z) (hw : s.inventory = w) (hpc : s.pc = .takeCur)
    (hinv : s.vars.inv = z.id ∨ s.vars.inv = "") :
    w = z.started ∨ s.vars.inv = s.vars.prevInv ∧
      (s.vars.base = snapshot z.started ∨ s.vars.base = "") := by
  have hmem := State.zenohd_mem hz
  rcases hinv with hinv | hinv
  · by_cases hprev : s.vars.inv = s.vars.prevInv
    · have hne : s.vars.prevInv ≠ "" := by
        rw [← hprev, hinv]
        exact hs.named z hmem
      have hbase := hs.base hne
      rw [← hprev, hinv] at hbase
      exact .inr ⟨hprev, .inl (hbase.unique hs.unique hmem)⟩
    · exact .inl (hw.symm.trans (htime hpc z hmem hinv.symm hprev))
  · by_cases hbase : s.vars.prevInv ≠ "" ∨ s.vars.base ≠ ""
    · exact .inl (hw.symm.trans (hheard hpc hinv hbase z hz))
    · simp only [not_or, not_not] at hbase
      exact .inr ⟨hinv.trans hbase.1.symm, .inr hbase.2⟩

theorem next_tracks (hs : s.Sound) (htime : InTime s .run) (hheard : Heard s .run)
    (hz : s.zenohd = some z) (hw : s.inventory = w) (htr : Tracks z w s)
    (h : s.next = some t) : Tracks z w t := by
  unfold State.next at h
  unfold Tracks at htr
  cases hpc : s.pc with
  | readInv => simp [hpc] at h
  | tryRestart => simp [hpc] at h
  | takeCur =>
    simp only [hpc, Option.some.injEq] at h htr
    have hknown := takeCur_known hs htime hheard hz hw hpc htr
    subst h
    exact ⟨congrArg snapshot hw, hknown⟩
  | rebase =>
    simp only [hpc] at h htr
    obtain ⟨hcur, htr⟩ := htr
    rcases htr with hstart | ⟨hinv, hbase⟩
    · split at h
      · cases h
        exact ⟨hcur, .inl hstart⟩
      · cases h
        exact ⟨hcur, .inl hstart⟩
    · rw [if_neg (not_not.2 hinv)] at h
      cases h
      refine ⟨hcur, or_iff_not_imp_left.2 fun hne hsame => ?_⟩
      rw [hcur] at hsame
      rcases hbase with hbase | hbase
      · exact hne (snapshot_injective (hsame.trans hbase))
      · exact snapshot_ne_empty w (hsame.trans hbase)
  | compare =>
    simp only [hpc] at h htr
    split at h
    · cases h
      exact .inr htr.1
    · rename_i heq
      cases h
      exact htr.2.resolve_right heq
  | sleepStable =>
    simp only [hpc] at h htr
    cases h
    exact htr
  | takeCur2 =>
    simp only [hpc] at h htr
    cases h
    exact htr.imp_right fun hcur => ⟨hcur, congrArg snapshot hw⟩
  | confirm =>
    simp only [hpc] at h htr
    split at h
    · cases h
      trivial
    · rename_i hne
      cases h
      exact htr.resolve_right fun hcur => hne (hcur.2.trans hcur.1.symm)
  | sleepEnd =>
    simp only [hpc] at h
    cases h
    trivial

theorem step_tracks {a : Action} (hs : s.Sound) (htime : InTime s a) (hheard : Heard s a)
    (hquiet : Quiet a) (hz : s.zenohd = some z) (hw : s.inventory = w) (htr : Tracks z w s)
    (h : step s a = some t) : Tracks z w t := by
  cases a with
  | netChange v =>
    cases h
    exact htr
  | start id =>
    simp only [step] at h
    split at h
    · cases h
      exact htr
    · cases h
  | exit =>
    simp only [step] at h
    split at h
    · cases h
      exact htr
    · cases h
  | respawn => exact hquiet.elim
  | query ok =>
    simp only [step] at h
    split at h
    · cases h
      cases ok with
      | true => exact .inl (State.zenohd_id hz)
      | false => exact .inr rfl
    · cases h
  | run => exact next_tracks hs htime hheard hz hw htr h
  | tryRestart id => exact hquiet.elim

/-- **No change is lost.** In every run in which the baselines are taken in time, and
in which the inventory has not changed when `systemctl show` fails: an iteration that
reads the ID and comes to the final sleep without a restart, while zenohd is `z` and the
inventory `w` all along, ends with `w` the inventory `z` was started under. -/
theorem no_change_lost (v : Inventory) (before iteration : List Action) (s u : State)
    (z : Invocation) (w : Inventory)
    (hcond : Along step (fun s a => InTime s a ∧ Heard s a) (.init v) (before ++ iteration))
    (hbefore : exec step (.init v) before = some s) (hstart : s.pc = .readInv)
    (hiter : exec step s iteration = some u) (hend : u.pc = .sleepEnd)
    (hquiet : ∀ a ∈ iteration, Quiet a)
    (hstill : Throughout step (fun s => s.zenohd = some z ∧ s.inventory = w) s iteration) :
    w = z.started := by
  obtain ⟨hpre, hit⟩ := (along_append hbefore).1 hcond
  have hsound : s.Sound :=
    exec_inv_along (fun _ _ _ => step_sound) (init_sound v) (hpre.mono fun _ _ h => h.1) hbefore
  have htracks : s.Sound ∧ Tracks z w s := ⟨hsound, by simp only [Tracks, hstart]⟩
  have hall := (hit.and (.of_forall hquiet s)).and hstill.along
  have hu := exec_inv_along (I := fun s => s.Sound ∧ Tracks z w s)
    (fun s a t hs hc h => ⟨step_sound hs.1 hc.1.1.1 h,
      step_tracks hs.1 hc.1.1.1 hc.1.1.2 hc.1.2 hc.2.1 hc.2.2 hs.2 h⟩) htracks hall hiter
  simpa only [Tracks, hend] using hu.2

def noLan : Inventory := ⟨none, none⟩

def cabled : Inventory := ⟨some ⟨⟨"up".toList, by simp, by simp⟩, 0, 0⟩, none⟩

theorem snapshot_cabled : snapshot cabled ≠ snapshot noLan :=
  snapshot_injective.ne (by decide)

def settled : List Action := [.start "a", .query true, .run, .run, .run, .run]

/-- The cable is plugged in and the watcher comes to a restart. -/
def pluggedIn : List Action :=
  [.netChange cabled, .query true, .run, .run, .run, .run, .run, .run]

theorem settled_exec : exec step (.init noLan) settled = some ⟨noLan, [⟨"a", noLan⟩], true,
    ⟨"a", snapshot noLan, "a", snapshot noLan, ""⟩, .readInv⟩ := by
  simp [settled, exec, step, State.next, State.init, State.launch, State.Unused,
    State.invocationId, Vars.init]

theorem pluggedIn_exec : exec step ⟨noLan, [⟨"a", noLan⟩], true,
    ⟨"a", snapshot noLan, "a", snapshot noLan, ""⟩, .readInv⟩ pluggedIn =
    some ⟨cabled, [⟨"a", noLan⟩], true,
      ⟨"a", snapshot noLan, "a", snapshot cabled, snapshot cabled⟩, .tryRestart⟩ := by
  simp [pluggedIn, exec, step, State.next, State.invocationId, snapshot_cabled]

/-- The restart, and the iteration that takes the baseline of the new zenohd. -/
def restarted : List Action := [.tryRestart "b", .run, .query true, .run, .run, .run, .run]

theorem restarted_exec : exec step ⟨cabled, [⟨"a", noLan⟩], true,
    ⟨"a", snapshot noLan, "a", snapshot cabled, snapshot cabled⟩, .tryRestart⟩ restarted =
    some ⟨cabled, [⟨"b", cabled⟩, ⟨"a", noLan⟩], true,
      ⟨"b", snapshot cabled, "b", snapshot cabled, snapshot cabled⟩, .readInv⟩ := by
  simp [restarted, exec, step, State.next, State.invocationId, State.launch, State.Unused]

/-- The watcher settles, the cable is plugged in, zenohd is restarted, and the iteration
after the next finds the baseline it took of the new zenohd. -/
theorem no_change_lost_after_restart :
    ∃ s u, exec step (.init noLan) (settled ++ pluggedIn ++ restarted) = some s ∧
      exec step s [.query true, .run, .run, .run] = some u ∧ u.pc = .sleepEnd ∧
      s.vars.prevInv = "b" ∧ u.vars.prevInv = "b" ∧ u.inventory = cabled ∧
      ∃ z, u.zenohd = some z ∧ z.id = "b" ∧ u.inventory = z.started := by
  have hplug := exec_append.2 ⟨_, settled_exec, pluggedIn_exec⟩
  have hbefore := exec_append.2 ⟨_, hplug, restarted_exec⟩
  have hiter : exec step ⟨cabled, [⟨"b", cabled⟩, ⟨"a", noLan⟩], true,
      ⟨"b", snapshot cabled, "b", snapshot cabled, snapshot cabled⟩, .readInv⟩
      [.query true, .run, .run, .run] = some ⟨cabled, [⟨"b", cabled⟩, ⟨"a", noLan⟩], true,
        ⟨"b", snapshot cabled, "b", snapshot cabled, snapshot cabled⟩, .sleepEnd⟩ := by
    simp [exec, step, State.next, State.invocationId]
  have hcond : Along step (fun s a => InTime s a ∧ Heard s a) (.init noLan)
      (settled ++ pluggedIn ++ restarted ++ [.query true, .run, .run, .run]) := by
    refine (along_append hbefore).2 ⟨(along_append hplug).2
      ⟨(along_append settled_exec).2 ⟨?_, ?_⟩, ?_⟩, ?_⟩
    · simp [settled, Along, step, State.next, State.init, State.launch, State.Unused,
        State.zenohd, State.invocationId, Vars.init, InTime, Heard]
    · simp [pluggedIn, Along, step, State.next, State.invocationId, snapshot_cabled, InTime,
        Heard]
    · simp [restarted, Along, step, State.next, State.invocationId, State.launch, State.Unused,
        InTime, Heard]
    · simp [Along, step, State.next, State.invocationId, InTime, Heard]
  have hstill : Throughout step (fun s => s.zenohd = some ⟨"b", cabled⟩ ∧ s.inventory = cabled)
      ⟨cabled, [⟨"b", cabled⟩, ⟨"a", noLan⟩], true,
        ⟨"b", snapshot cabled, "b", snapshot cabled, snapshot cabled⟩, .readInv⟩
      [.query true, .run, .run, .run] := by
    simp [Throughout, step, State.next, State.zenohd, State.invocationId]
  exact ⟨_, _, hbefore, hiter, rfl, rfl, rfl, rfl, _, rfl, rfl,
    no_change_lost noLan _ _ _ _ _ _ hcond hbefore rfl hiter rfl (by simp [Quiet]) hstill⟩

/-! ## A late baseline -/

/-- The first poll after a start without interfaces finds nothing to restart for, whatever the
inventory is by then. -/
theorem firstPoll_exec (v : Inventory) :
    exec step ⟨v, [⟨"a", noLan⟩], true, Vars.init, .readInv⟩ [.query true, .run, .run, .run] =
      some ⟨v, [⟨"a", noLan⟩], true, ⟨"a", snapshot v, "a", snapshot v, ""⟩, .sleepEnd⟩ := by
  simp [exec, step, State.next, State.invocationId, Vars.init]

theorem firstPoll_still (v : Inventory) :
    Throughout step (fun s => s.zenohd = some ⟨"a", noLan⟩ ∧ s.inventory = v)
      ⟨v, [⟨"a", noLan⟩], true, Vars.init, .readInv⟩ [.query true, .run, .run, .run] := by
  simp [Throughout, step, State.next, State.zenohd, State.invocationId, Vars.init]

theorem firstPoll_quiet : ∀ a ∈ [Action.query true, .run, .run, .run], Quiet a := by
  simp [Quiet]

/-- zenohd is started, the cable is plugged in, and then the watcher takes its baseline. -/
theorem late_baseline_hides_change :
    ∃ s u, exec step (.init noLan) [.start "a", .netChange cabled] = some s ∧ s.pc = .readInv ∧
      exec step s [.query true, .run, .run, .run] = some u ∧ u.pc = .sleepEnd ∧
      (∀ a ∈ [Action.query true, .run, .run, .run], Quiet a) ∧
      Throughout step (fun s => s.zenohd = some ⟨"a", noLan⟩ ∧ s.inventory = cabled) s
        [.query true, .run, .run, .run] ∧
      cabled ≠ noLan := by
  refine ⟨_, _, rfl, rfl, firstPoll_exec cabled, rfl, ?_, ?_, by decide⟩
  · exact firstPoll_quiet
  · exact firstPoll_still cabled

/-! ## Restarts -/

/-- The zenohd that is restarted is the one whose ID the iteration read. -/
def SameInvocation (s : State) : Action → Prop
  | .tryRestart _ => ∀ z, s.zenohd = some z → z.id = s.vars.inv
  | _ => True

/-- **A restart replaces an outdated zenohd**, in every run in which the baselines are
taken in time and zenohd is still the invocation whose ID was read. -/
theorem restart_replaces_outdated (v : Inventory) (before : List Action) (s t : State)
    (id : String) (z : Invocation)
    (hcond : Along step (fun s a => InTime s a ∧ SameInvocation s a) (.init v)
      (before ++ [.tryRestart id]))
    (hbefore : exec step (.init v) before = some s)
    (hrestart : step s (.tryRestart id) = some t) (hz : s.zenohd = some z) :
    snapshot z.started ≠ s.vars.cur2 := by
  obtain ⟨hpre, hlast⟩ := (along_append hbefore).1 hcond
  have hs : s.Sound :=
    exec_inv_along (fun _ _ _ => step_sound) (init_sound v) (hpre.mono fun _ _ h => h.1) hbefore
  have hpc : s.pc = .tryRestart := by
    by_contra hne
    simp [step, hne] at hrestart
  have hknows := hs.knows
  simp only [State.Knows, hpc] at hknows
  obtain ⟨hprev, hchanged, hsame⟩ := hknows
  have hid : z.id = s.vars.prevInv := (hlast.1.2 z hz).trans hprev
  have hbase := hs.base (hid ▸ hs.named z (State.zenohd_mem hz))
  rw [← hid] at hbase
  rw [hsame, ← hbase.unique hs.unique (State.zenohd_mem hz)]
  exact hchanged.symm

theorem restart_replaces_outdated_cable :
    ∃ s t, exec step (.init noLan) (settled ++ pluggedIn) = some s ∧
      step s (.tryRestart "b") = some t ∧ s.zenohd = some ⟨"a", noLan⟩ ∧
      snapshot noLan ≠ s.vars.cur2 := by
  have hexec := exec_append.2 ⟨_, settled_exec, pluggedIn_exec⟩
  have hcond : Along step (fun s a => InTime s a ∧ SameInvocation s a) (.init noLan)
      (settled ++ pluggedIn ++ [.tryRestart "b"]) := by
    refine (along_append hexec).2 ⟨(along_append settled_exec).2 ⟨?_, ?_⟩, ?_⟩
    · simp [settled, Along, step, State.next, State.init, State.launch, State.Unused,
        State.invocationId, Vars.init, InTime, SameInvocation]
    · simp [pluggedIn, Along, step, State.next, State.invocationId, snapshot_cabled, InTime,
        SameInvocation]
    · simp [Along, State.zenohd, InTime, SameInvocation]
  exact ⟨_, _, hexec, rfl, rfl,
    restart_replaces_outdated noLan _ _ _ "b" ⟨"a", noLan⟩ hcond hexec rfl rfl⟩

/-- The watcher polls before zenohd is up; zenohd starts during the sleep and is restarted
under the very inventory it was started under. -/
theorem restart_hits_new_zenohd :
    ∃ s t, exec step (.init noLan) [.query true, .run, .run, .run, .start "a", .run, .run, .run] =
        some s ∧
      step s (.tryRestart "b") = some t ∧ s.zenohd = some ⟨"a", noLan⟩ ∧
      snapshot noLan = s.vars.cur2 := by
  refine ⟨⟨noLan, [⟨"a", noLan⟩], true, ⟨"", "", "", snapshot noLan, snapshot noLan⟩,
    .tryRestart⟩, _, ?_, rfl, rfl, rfl⟩
  simp [exec, step, State.next, State.init, State.launch, State.Unused, State.invocationId,
    Vars.init, snapshot_ne_empty]

end BrExternal.Netwatch
