import BrExternal.Acceptance.Script

/-!
# What the verdict of `hex-wifi-acceptance` means

Every part of the script decides a condition on what the external commands printed and returned
(`checks_decides`), so the verdict is printed exactly on `Seen`. What it should mean is `Checked`:
the commands it relies on succeeded, and their own outputs are in order. The two differ where the
status of a command is lost or only a filter behind it is asked (`verdict_sound_iff`).
-/

namespace BrExternal.Acceptance

open Sh

variable {e : Call → Result} {stops : Bool} {canary : List Char}

/-! ## Commands of the script -/

section

variable {tested : Bool} {Q : State → Nat → Prop} {s : State} {msg : State → List Char}

theorem fail_dies (msg : State → List Char) : Dies (fail msg) := dies_seq_exit _ _

theorem wp_seq {a b : Cmd State} :
    wp (.seq a b) tested Q s ↔ wp a tested (fun t _ => wp b tested Q t) s :=
  Iff.rfl

theorem wp_act {f : State → State} : wp (act f) tested Q s ↔ Q (f s) 0 := by
  unfold act wp
  exact ⟨fun h => h.2, fun h => ⟨.inl rfl, h⟩⟩

theorem wp_capture {f : State → List Char → State} {r : Result} :
    wp (capture f r) false Q s ↔ r.status = 0 ∧ Q (f s r.value) 0 :=
  wp_simple

theorem wp_capture_or_fail {f : State → List Char → State} {r : Result} :
    wp (.orElse (capture f r) (fail msg)) tested Q s ↔ r.status = 0 ∧ Q (f s r.value) 0 :=
  wp_orElse_die (fail_dies msg)

theorem wp_test_or_fail {p : State → Prop} [DecidablePred p] :
    wp (.orElse (test fun s => p s) (fail msg)) tested Q s ↔ p s ∧ Q s 0 := by
  refine (wp_orElse_die (fail_dies msg)).trans (and_congr_left fun _ => ?_)
  simp

theorem wp_testGt_or_fail {var : State → List Char} {n : Int} :
    wp (.orElse (testGt var n) (fail msg)) tested Q s ↔
      (∃ m, number (var s) = some m ∧ n < m) ∧ Q s 0 := by
  refine (wp_orElse_die (fail_dies msg)).trans (and_congr_left fun _ => ?_)
  cases number (var s) with
  | none => simp
  | some m => simp

theorem wp_ifThen_test {p : State → Bool} {c : Cmd State} :
    wp (.ifThen (test p) c) tested Q s ↔ if p s then wp c tested Q s else Q s 0 := by
  show (_ ∨ _) ∧ _ ↔ _
  by_cases h : p s = true
  · simp [h]
  · simp [h]

theorem wp_probe_and_fail {r : Result} :
    wp (.andThen (probe r) (fail msg)) tested Q s ↔ r.status ≠ 0 ∧ Q s r.status :=
  wp_andThen_die (fail_dies msg)

end

/-! ## The parts of the script -/

/-- The permission bits `check_mode` asks for. -/
def File.permissions : File → List Char
  | .wifiDir => "rwx------".toList
  | .conf | .revision | .sock => "rw-------".toList

def Free (words : List (List Char)) (text : List Char) : Prop := ∀ w ∈ words, ¬ w <:+: text

def argvSecrets : List (List Char) := ["passphrase".toList, "password".toList, "psk".toList]

def environSecrets : List (List Char) :=
  ["PASSPHRASE=".toList, "PASSWORD=".toList, "PSK=".toList]

theorem checkService_decides (v : Service) : Decides (checkService e v)
    ((e (.isActive v)).value = "active".toList ∧ (e (.isEnabled v)).value = "enabled".toList) := by
  intro s
  refine ⟨{ s with service := v.name }, fun R => ?_⟩
  unfold checkService block block block
  rw [wp_seq, wp_act, wp_seq, wp_test_or_fail, wp_test_or_fail, and_assoc]

theorem checkLimit_decides (v : Service) (name : List Char) :
    Decides (checkLimit e v name) ((e (.limitCore v)).value = "0".toList) := by
  intro s
  refine ⟨s, fun R => ?_⟩
  unfold checkLimit
  rw [wp_test_or_fail]

theorem File.mode_cases (f : File) :
    (f.mode = "700".toList ∧ '?' :: f.permissions = "?rwx------".toList) ∨
      (f.mode = "600".toList ∧ '?' :: f.permissions = "?rw-------".toList) := by
  cases f with
  | wifiDir => exact .inl ⟨rfl, by decide⟩
  | conf | revision | sock => exact .inr ⟨rfl, by decide⟩

theorem wp_symbolicMode {R : State → Prop} {s : State} {f : File} (hs : s.expected = f.mode) :
    wp symbolicMode false (fun t _ => R t) s ↔
      R { s with expectedSymbolic := '?' :: f.permissions } := by
  have hne : "600".toList ≠ "700".toList := by decide
  unfold symbolicMode
  rw [wp, wp_select_die (fail_dies _), wp_act, wp_act, hs]
  rcases f.mode_cases with ⟨hm, hp⟩ | ⟨hm, hp⟩
  · rw [hm, hp, if_pos (decide_eq_true rfl)]
  · rw [hm, hp, if_neg (by rw [decide_eq_false hne]; exact Bool.false_ne_true)]
    exact and_iff_right (decide_eq_true rfl)

theorem checkMode_decides (f : File) : Decides (checkMode e f)
    ((e (.awk f)).status = 0 ∧ ∃ c, (e (.awk f)).value = c :: f.permissions) := by
  intro s
  refine ⟨{ s with
    pathname := f.path
    expected := f.mode
    expectedSymbolic := '?' :: f.permissions
    actual := (e (.awk f)).value }, fun R => ?_⟩
  have hplain : Plain f.permissions := by cases f <;> decide
  unfold checkMode block block block block block block
  rw [wp_seq, wp_act, wp_seq, wp_act, wp_seq, wp_symbolicMode rfl]
  dsimp only
  rw [wp_seq, wp_capture_or_fail, wp_seq, wp_test_or_fail]
  dsimp only [pipeline]
  rw [wp_select_die (fail_dies _), wp_act, and_assoc]
  dsimp only [id]
  rw [fits_any_plain hplain]
  -- what the pattern accepts is not empty, so the test of `-n` adds nothing
  refine and_congr_right fun _ => ⟨fun h => h.2, fun h => ⟨?_, h⟩⟩
  obtain ⟨⟨c, hc⟩, -⟩ := h
  rw [hc]
  exact List.cons_ne_nil _ _

theorem fits_secrets {a b c t : List Char} (ha : Plain a) (hb : Plain b) (hc : Plain c) :
    (fits ('*' :: (a ++ ['*'])) t || fits ('*' :: (b ++ ['*'])) t ||
      fits ('*' :: (c ++ ['*'])) t) = false ↔ Free [a, b, c] t := by
  rw [Bool.eq_false_iff, ne_eq, Bool.or_eq_true, Bool.or_eq_true, fits_contains ha,
    fits_contains hb, fits_contains hc]
  simp only [Free, List.mem_cons, List.not_mem_nil, or_false, forall_eq_or_imp, forall_eq, not_or,
    and_assoc]

theorem fits_argvSecrets (t : List Char) :
    (fits "*passphrase*".toList t || fits "*password*".toList t || fits "*psk*".toList t) = false ↔
      Free argvSecrets t :=
  fits_secrets (a := "passphrase".toList) (b := "password".toList) (c := "psk".toList)
    (by decide) (by decide) (by decide)

theorem fits_environSecrets (t : List Char) :
    (fits "*PASSPHRASE=*".toList t || fits "*PASSWORD=*".toList t || fits "*PSK=*".toList t) =
      false ↔ Free environSecrets t :=
  fits_secrets (a := "PASSPHRASE=".toList) (b := "PASSWORD=".toList) (c := "PSK=".toList)
    (by decide) (by decide) (by decide)

theorem checkProcess_decides : Decides (checkProcess e)
    ((e .mainPid).status = 0 ∧ (∃ n, number (e .mainPid).value = some n ∧ 1 < n) ∧
      (e .cmdline).status = 0 ∧ (e .environ).status = 0 ∧
      Free argvSecrets (e .cmdline).value ∧ Free environSecrets (e .environ).value) := by
  intro s
  refine ⟨{ s with
    pid := (e .mainPid).value
    cmdline := (e .cmdline).value
    environ := (e .environ).value }, fun R => ?_⟩
  unfold checkProcess block block block block block block
  rw [wp_seq, wp_capture, wp_seq, wp_testGt_or_fail, wp_seq, wp_capture, wp_seq, wp_capture]
  dsimp only
  rw [wp_seq, wp_die_select (fail_dies _), wp_act, wp_die_select (fail_dies _), wp_act]
  dsimp only [id]
  rw [fits_argvSecrets, fits_environSecrets]
  simp only [and_assoc]

theorem checkResponses_decides : Decides (checkResponses e stops)
    ((substitution stops (e .statusJson) (e .listJson)).status = 0 ∧
      (e .grepPassphrase).status ≠ 0) := by
  intro s
  refine ⟨{ s with
    responses := (substitution stops (e .statusJson) (e .listJson)).value }, fun R => ?_⟩
  unfold checkResponses block block
  rw [wp_seq, wp_capture_or_fail, wp_andThen_die (fail_dies _), and_assoc]
  rfl

theorem checkJournal_decides :
    Decides (checkJournal e canary) (canary ≠ [] → (e .grepCanary).status ≠ 0) := by
  intro s
  refine ⟨s, fun R => ?_⟩
  unfold checkJournal
  rw [wp_ifThen_test, wp_probe_and_fail]
  by_cases h : canary = []
  · simp [h]
  · simp [h, pipeline]

theorem checkStale_decides : Decides (checkStale e) ((e .grepStale).status ≠ 0) :=
  fun s => ⟨s, fun _ => wp_probe_and_fail⟩

/-! ## What the script has seen when it prints the verdict -/

/-- The services whose core limit is checked. -/
def Service.Limited (v : Service) : Prop := v = .hexWifi ∨ v = .wpaSupplicant

/-- The tests the script makes, on the values it makes them on. -/
structure Seen (e : Call → Result) (stops : Bool) (canary : List Char) : Prop where
  services : ∀ v,
    (e (.isActive v)).value = "active".toList ∧ (e (.isEnabled v)).value = "enabled".toList
  limits : ∀ v : Service, v.Limited → (e (.limitCore v)).value = "0".toList
  modes : ∀ f : File, (e (.awk f)).status = 0 ∧ ∃ c, (e (.awk f)).value = c :: f.permissions
  pidRead : (e .mainPid).status = 0
  pid : ∃ n, number (e .mainPid).value = some n ∧ 1 < n
  cmdlineRead : (e .cmdline).status = 0
  environRead : (e .environ).status = 0
  argv : Free argvSecrets (e .cmdline).value
  environ : Free environSecrets (e .environ).value
  queries : (substitution stops (e .statusJson) (e .listJson)).status = 0
  responses : (e .grepPassphrase).status ≠ 0
  journal : canary ≠ [] → (e .grepCanary).status ≠ 0
  stale : (e .grepStale).status ≠ 0

theorem checks_decides : Decides (checks e stops canary) (Seen e stops canary) := by
  have hparts : Decides (checks e stops canary) _ :=
    decides_seq (checkService_decides .zenohd) <|
    decides_seq (checkService_decides .wpaSupplicant) <|
    decides_seq (checkService_decides .hexWifi) <|
    decides_seq (checkService_decides .zenohdNetwatch) <|
    decides_seq (checkLimit_decides .hexWifi "hex-wifi".toList) <|
    decides_seq (checkLimit_decides .wpaSupplicant "wpa_supplicant".toList) <|
    decides_seq (checkMode_decides .wifiDir) <|
    decides_seq (checkMode_decides .conf) <|
    decides_seq (checkMode_decides .revision) <|
    decides_seq (checkMode_decides .sock) <|
    decides_seq checkProcess_decides <|
    decides_seq checkResponses_decides <|
    decides_seq checkJournal_decides checkStale_decides
  refine hparts.congr ⟨?_, ?_⟩
  · rintro ⟨v1, v2, v3, v4, l1, l2, f1, f2, f3, f4, ⟨hpr, hp, hcr, her, hc, he⟩, ⟨hq, hr⟩, hj, hs⟩
    refine ⟨fun v => ?_, fun v hv => ?_, fun f => ?_, hpr, hp, hcr, her, hc, he, hq, hr, hj, hs⟩
    · cases v <;> assumption
    · rcases hv with rfl | rfl <;> assumption
    · cases f <;> assumption
  · intro h
    exact ⟨h.services _, h.services _, h.services _, h.services _, h.limits _ (.inl rfl),
      h.limits _ (.inr rfl), h.modes _, h.modes _, h.modes _, h.modes _,
      ⟨h.pidRead, h.pid, h.cmdlineRead, h.environRead, h.argv, h.environ⟩,
      ⟨h.queries, h.responses⟩, h.journal, h.stale⟩

theorem checks_keeps_out : Keeps State.out (checks e stops canary) := by
  have service : ∀ v, Keeps State.out (checkService e v) := fun v =>
    ⟨fun _ => rfl, ⟨fun _ => rfl, fun _ => rfl, trivial⟩, fun _ => rfl, fun _ => rfl, trivial⟩
  have limit : ∀ v name, Keeps State.out (checkLimit e v name) := fun v name =>
    ⟨fun _ => rfl, fun _ => rfl, trivial⟩
  have mode : ∀ f, Keeps State.out (checkMode e f) := fun f =>
    ⟨fun _ => rfl, fun _ => rfl, ⟨fun _ => rfl, fun _ => rfl, fun _ => rfl, trivial⟩,
      ⟨fun _ => rfl, fun _ => rfl, trivial⟩, ⟨fun _ => rfl, fun _ => rfl, trivial⟩,
      fun _ => rfl, fun _ => rfl, trivial⟩
  have process : Keeps State.out (checkProcess e) :=
    ⟨fun _ => rfl, ⟨fun _ => rfl, fun _ => rfl, trivial⟩, fun _ => rfl, fun _ => rfl,
      ⟨⟨fun _ => rfl, trivial⟩, fun _ => rfl⟩, ⟨fun _ => rfl, trivial⟩, fun _ => rfl⟩
  have responses : Keeps State.out (checkResponses e stops) :=
    ⟨⟨fun _ => rfl, fun _ => rfl, trivial⟩, fun _ => rfl, fun _ => rfl, trivial⟩
  exact ⟨service _, service _, service _, service _, limit _ _, limit _ _, mode _, mode _, mode _,
    mode _, process, responses, ⟨fun _ => rfl, fun _ => rfl, fun _ => rfl, trivial⟩,
    fun _ => rfl, fun _ => rfl, trivial⟩

/-- The verdict is printed on what the script has seen, and on nothing else. -/
theorem passes_iff_seen : Passes e stops canary ↔ Seen e stops canary := by
  rw [← checks_decides.meets_iff State.init]
  unfold Passes script
  rw [run]
  have hout := run_keeps checks_keeps_out false State.init (c := checks e stops canary)
  cases hrun : run (checks e stops canary) false State.init with
  | running t n =>
    refine iff_of_true ?_ trivial
    show passLine ∈ (if (e .status).status = 0 ∨ _ then _ else _ : Outcome State).state.out
    split
    · exact List.mem_append_left _ (List.mem_append_right _ (List.mem_singleton_self _))
    · exact List.mem_append_left _ (List.mem_append_right _ (List.mem_singleton_self _))
  | exited t n =>
    rw [hrun] at hout
    show passLine ∈ t.out ↔ False
    rw [show t.out = [] from hout]
    simp

/-! ## What the verdict is to mean -/

/-- The commands the verdict relies on. -/
def Call.Gathers (canary : List Char) : Call → Prop
  | .isActive _ | .isEnabled _ | .ls _ | .mainPid | .cmdline | .environ | .statusJson | .listJson
  | .find => True
  | .limitCore v => v.Limited
  | .journalctl => canary ≠ []
  | .awk _ | .grepPassphrase | .grepCanary | .grepStale | .status => False

/-- What `awk '{ print substr($1, 1, 10) }'` prints for a text. -/
def awkPrint (text : List Char) : List Char :=
  Text.terminated '\n' ((Text.fieldsOf '\n' text).map fun line =>
    ((line.dropWhile fun c => c = ' ' ∨ c = '\t').takeWhile fun c => c ≠ ' ' ∧ c ≠ '\t').take 10)

/-- The output of `ls` shows the mode `check_mode` asks for. -/
def ModeShown (e : Call → Result) (f : File) : Prop :=
  ∃ c, stripNewlines (awkPrint (e (.ls f)).out) = c :: f.permissions

def passphraseField : List Char := "\"passphrase\"".toList

/-- The target was checked: the commands relied on succeeded, and what they printed is in order. -/
structure Checked (e : Call → Result) (canary : List Char) : Prop where
  gathered : ∀ c : Call, c.Gathers canary → (e c).status = 0
  services : ∀ v,
    (e (.isActive v)).value = "active".toList ∧ (e (.isEnabled v)).value = "enabled".toList
  limits : ∀ v : Service, v.Limited → (e (.limitCore v)).value = "0".toList
  modes : ∀ f, ModeShown e f
  pid : ∃ n, number (e .mainPid).value = some n ∧ 1 < n
  argv : Free argvSecrets (e .cmdline).value
  environ : Free environSecrets (e .environ).value
  responses : ¬ passphraseField <:+: (e .statusJson).out ++ (e .listJson).out
  journal : canary ≠ [] → ¬ canary <:+: (e .journalctl).out
  stale : ∀ c ∈ (e .find).out, c = '\n'

/-- The commands whose failure the script does not notice: their status is lost in a comparison, on
the left of a pipe, or before the last command of a substitution. -/
def Call.Unnoticed (canary : List Char) : Call → Prop
  | .isActive _ | .isEnabled _ | .ls _ | .statusJson | .find => True
  | .limitCore v => v.Limited
  | .journalctl => canary ≠ []
  | _ => False

/-- A filter whose input has what it looks for says so. -/
structure FiltersMissNothing (e : Call → Result) (canary : List Char) : Prop where
  awk : ∀ f : File, (∃ c, (e (.awk f)).value = c :: f.permissions) → ModeShown e f
  passphrase : passphraseField <:+: (e .statusJson).out ++ (e .listJson).out →
    (e .grepPassphrase).status = 0
  journal : canary ≠ [] → canary <:+: (e .journalctl).out → (e .grepCanary).status = 0
  stale : (∃ c ∈ (e .find).out, c ≠ '\n') → (e .grepStale).status = 0

theorem substitution_status {first last : Result}
    (h : (substitution stops first last).status = 0) : last.status = 0 := by
  unfold substitution at h
  split at h
  · rename_i hc
    simp [h] at hc
  · exact h

/-- The commands relied on are those whose failure ends the script and those whose failure is not
noticed. -/
theorem Seen.gathered (hs : Seen e stops canary)
    (hu : ∀ c : Call, c.Unnoticed canary → (e c).status = 0) (c : Call) (hc : c.Gathers canary) :
    (e c).status = 0 := by
  cases c with
  | mainPid => exact hs.pidRead
  | cmdline => exact hs.cmdlineRead
  | environ => exact hs.environRead
  | listJson => exact substitution_status hs.queries
  | isActive _ | isEnabled _ | ls _ | statusJson | find | limitCore _ | journalctl =>
    exact hu _ hc
  | awk _ | grepPassphrase | grepCanary | grepStale | status => exact hc.elim

theorem Call.Unnoticed.gathers {c : Call} (h : c.Unnoticed canary) : c.Gathers canary := by
  cases c with
  | isActive _ | isEnabled _ | ls _ | statusJson | find | limitCore _ | journalctl => exact h
  | mainPid | cmdline | environ | listJson | awk _ | grepPassphrase | grepCanary | grepStale
  | status => exact h.elim

theorem Seen.checked (hs : Seen e stops canary)
    (hu : ∀ c : Call, c.Unnoticed canary → (e c).status = 0)
    (hf : FiltersMissNothing e canary) : Checked e canary where
  gathered := hs.gathered hu
  services := hs.services
  limits := hs.limits
  modes f := hf.awk f (hs.modes f).2
  pid := hs.pid
  argv := hs.argv
  environ := hs.environ
  responses h := hs.responses (hf.passphrase h)
  journal hc h := hs.journal hc (hf.journal hc h)
  stale c hc := by
    by_contra hne
    exact hs.stale (hf.stale ⟨c, hc, hne⟩)

theorem Checked.filters (h : Checked e canary) : FiltersMissNothing e canary where
  awk f _ := h.modes f
  passphrase hp := (h.responses hp).elim
  journal hc hp := (h.journal hc hp).elim
  stale hx := by
    obtain ⟨c, hc, hne⟩ := hx
    exact (hne (h.stale c hc)).elim

/-- **When the verdict can be relied on.** For whatever the commands print and return, `PASS` means
that the target was checked unless a command failed unnoticed or a filter missed something while
everything the script tests came out well. -/
theorem verdict_sound_iff (e : Call → Result) (stops : Bool) (canary : List Char) :
    (Passes e stops canary → Checked e canary) ↔
      (Seen e stops canary → (∀ c : Call, c.Unnoticed canary → (e c).status = 0) ∧
        FiltersMissNothing e canary) := by
  rw [passes_iff_seen]
  constructor
  · intro h hs
    exact ⟨fun c hc => (h hs).gathered c hc.gathers, (h hs).filters⟩
  · intro h hs
    exact hs.checked (h hs).1 (h hs).2

def File.kind : File → Char
  | .wifiDir => 'd'
  | .conf | .revision => '-'
  | .sock => 's'

/-- A target in order, but for its journal. -/
def target (journal : Result) : Call → Result
  | .isActive _ => ⟨"active\n".toList, 0⟩
  | .isEnabled _ => ⟨"enabled\n".toList, 0⟩
  | .limitCore _ => ⟨"0\n".toList, 0⟩
  | .ls f =>
    ⟨f.kind :: f.permissions ++ " 1 root root 0 Jan 1 00:00 ".toList ++ f.path ++ ['\n'], 0⟩
  | .awk f => ⟨f.kind :: f.permissions ++ ['\n'], 0⟩
  | .mainPid => ⟨"321\n".toList, 0⟩
  | .cmdline => ⟨"/usr/bin/hex-wifi daemon ".toList, 0⟩
  | .environ => ⟨"LANG=C\n".toList, 0⟩
  | .statusJson | .listJson => ⟨"[]\n".toList, 0⟩
  | .journalctl => journal
  | .find | .status => ⟨[], 0⟩
  | .grepPassphrase | .grepCanary | .grepStale => ⟨[], 1⟩

theorem target_seen (journal : Result) : Seen (target journal) stops canary where
  services _ := ⟨rfl, rfl⟩
  limits _ _ := rfl
  modes f := ⟨rfl, f.kind, by cases f <;> rfl⟩
  pidRead := rfl
  pid := by
    have hpid : number "321".toList = some 321 := by decide
    exact ⟨321, hpid, by decide⟩
  cmdlineRead := rfl
  environRead := rfl
  argv := by
    show ∀ w ∈ argvSecrets, ¬ w <:+: "/usr/bin/hex-wifi daemon ".toList
    decide
  environ := by
    show ∀ w ∈ environSecrets, ¬ w <:+: "LANG=C".toList
    decide
  queries := by cases stops <;> rfl
  responses := Nat.one_ne_zero
  journal _ := Nat.one_ne_zero
  stale := Nat.one_ne_zero

theorem target_checked_iff (journal : Result) : Checked (target journal) canary ↔
    (canary ≠ [] → journal.status = 0 ∧ ¬ canary <:+: journal.out) := by
  constructor
  · intro h hc
    exact ⟨h.gathered .journalctl hc, h.journal hc⟩
  · intro h
    have hseen : Seen (target journal) true canary := target_seen journal
    refine hseen.checked (fun c hc => ?_)
      ⟨fun f _ => ?_, fun hin => ?_, fun hc hin => ((h hc).2 hin).elim, fun hx => ?_⟩
    · cases c with
      | journalctl => exact (h hc).1
      | isActive _ | isEnabled _ | ls _ | statusJson | find | limitCore _ => rfl
      | mainPid | cmdline | environ | listJson | awk _ | grepPassphrase | grepCanary | grepStale
      | status => exact hc.elim
    · exact ⟨f.kind, by cases f <;> rfl⟩
    · have hfree : ¬ passphraseField <:+: "[]\n[]\n".toList := by decide
      exact absurd hin hfree
    · obtain ⟨c, hc, -⟩ := hx
      cases hc

/-- `journalctl` fails, nothing of the journal is looked at, and the target passes. -/
theorem unread_journal_passes :
    Passes (target ⟨[], 1⟩) true "hunter2".toList ∧ Passes (target ⟨[], 1⟩) false "hunter2".toList ∧
      ¬ Checked (target ⟨[], 1⟩) "hunter2".toList := by
  refine ⟨passes_iff_seen.2 (target_seen _), passes_iff_seen.2 (target_seen _), fun h => ?_⟩
  have hread := ((target_checked_iff _).1 h (List.cons_ne_nil _ _)).1
  cases hread

end BrExternal.Acceptance
