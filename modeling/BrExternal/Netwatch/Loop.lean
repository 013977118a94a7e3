import BrExternal.Lib.Lts
import BrExternal.Netwatch.Inventory

/-!
# The loop of `zenohd-netwatch.sh`

The watcher's loop, one command a step, interleaved with everything around it: the
inventory changes, zenohd starts and exits, `systemctl show` fails, systemd restarts the
watcher. An invocation of zenohd remembers the inventory it was started under, which is
the one it announces. The watcher keeps, per invocation ID it has read, the snapshot it
took as baseline when it first read that ID; `State.Sound` says what its variables mean
in runs where those baselines were taken in time.
-/

namespace BrExternal.Netwatch

open Lts

/-! ## The machine -/

structure Invocation where
  /-- Its `InvocationID`. -/
  id : String
  /-- The inventory in force when it was started. -/
  started : Inventory
  deriving DecidableEq

structure Vars where
  prevInv : String
  base : String
  inv : String
  cur : String
  cur2 : String

def Vars.init : Vars := ⟨"", "", "", "", ""⟩

/-- The command the watcher runs next. -/
inductive Pc where
  | readInv
  | takeCur
  | rebase
  | compare
  | sleepStable
  | takeCur2
  | confirm
  | tryRestart
  | sleepEnd
  deriving DecidableEq

structure State where
  inventory : Inventory
  /-- The invocations of zenohd so far, the latest first. -/
  invocations : List Invocation
  running : Bool
  vars : Vars
  pc : Pc

def State.init (v : Inventory) : State := ⟨v, [], false, Vars.init, .readInv⟩

def State.zenohd (s : State) : Option Invocation :=
  if s.running then s.invocations.head? else none

/-- The ID systemd reports: that of the latest invocation, running or not. -/
def State.invocationId (s : State) : String := (s.invocations.head?.map Invocation.id).getD ""

/-- An ID that was not used before. -/
def State.Unused (s : State) (id : String) : Prop :=
  id ≠ "" ∧ id ∉ s.invocations.map Invocation.id

instance (s : State) (id : String) : Decidable (s.Unused id) :=
  inferInstanceAs (Decidable (id ≠ "" ∧ id ∉ s.invocations.map Invocation.id))

/-- zenohd starts. -/
def State.launch (s : State) (id : String) : State :=
  { s with invocations := ⟨id, s.inventory⟩ :: s.invocations, running := true }

inductive Action where
  | netChange (v : Inventory)
  /-- zenohd starts on its own. -/
  | start (id : String)
  | exit
  /-- systemd restarts the watcher. -/
  | respawn
  /-- `systemctl show -p InvocationID`, which may fail. -/
  | query (ok : Bool)
  /-- The watcher's next command, but for the two that talk to systemd. -/
  | run
  /-- `systemctl try-restart zenohd`; the ID of the new invocation. -/
  | tryRestart (id : String)

/-- The commands of the loop that do not talk to systemd. -/
def State.next (s : State) : Option State :=
  match s.pc with
  | .readInv => none
  | .takeCur => some { s with vars := { s.vars with cur := snapshot s.inventory }, pc := .rebase }
  | .rebase =>
    if s.vars.inv ≠ s.vars.prevInv then
      some { s with
        vars := { s.vars with prevInv := s.vars.inv, base := s.vars.cur }
        pc := .compare }
    else some { s with pc := .compare }
  | .compare =>
    if s.vars.cur ≠ s.vars.base then some { s with pc := .sleepStable }
    else some { s with pc := .sleepEnd }
  | .sleepStable => some { s with pc := .takeCur2 }
  | .takeCur2 =>
    some { s with vars := { s.vars with cur2 := snapshot s.inventory }, pc := .confirm }
  | .confirm =>
    if s.vars.cur2 = s.vars.cur then some { s with pc := .tryRestart }
    else some { s with pc := .sleepEnd }
  | .tryRestart => none
  | .sleepEnd => some { s with pc := .readInv }

def step (s : State) : Action → Option State
  | .netChange v => some { s with inventory := v }
  | .start id => if s.running = false ∧ s.Unused id then some (s.launch id) else none
  | .exit => if s.running then some { s with running := false } else none
  | .respawn => some { s with vars := Vars.init, pc := .readInv }
  | .query ok =>
    if s.pc = .readInv then
      some { s with
        vars := { s.vars with inv := if ok then s.invocationId else "" }
        pc := .takeCur }
    else none
  | .run => s.next
  | .tryRestart id =>
    if s.pc = .tryRestart then
      if s.running then
        if s.Unused id then some { s.launch id with pc := .sleepEnd } else none
      else some { s with pc := .sleepEnd }
    else none

/-! ## Baselines -/

/-- The baseline of an ID is the inventory its invocation was started under. -/
def Baseline (zs : List Invocation) (id base : String) : Prop :=
  ∃ z ∈ zs, z.id = id ∧ base = snapshot z.started

/-- What the watcher knows at each command of the loop. -/
def State.Knows (s : State) : Prop :=
  match s.pc with
  | .rebase => s.vars.inv ≠ s.vars.prevInv → s.vars.inv ≠ "" →
      Baseline s.invocations s.vars.inv s.vars.cur
  | .compare => s.vars.inv = s.vars.prevInv
  | .sleepStable | .takeCur2 | .confirm =>
      s.vars.inv = s.vars.prevInv ∧ s.vars.cur ≠ s.vars.base
  | .tryRestart =>
      s.vars.inv = s.vars.prevInv ∧ s.vars.cur ≠ s.vars.base ∧ s.vars.cur2 = s.vars.cur
  | _ => True

structure State.Sound (s : State) : Prop where
  unique : (s.invocations.map Invocation.id).Nodup
  named : ∀ z ∈ s.invocations, z.id ≠ ""
  read : s.vars.inv ≠ "" → ∃ z ∈ s.invocations, z.id = s.vars.inv
  base : s.vars.prevInv ≠ "" → Baseline s.invocations s.vars.prevInv s.vars.base
  knows : s.Knows

/-- When the watcher takes the snapshot that becomes the baseline of an ID, the inventory
is still the one that invocation was started under. -/
def InTime (s : State) : Action → Prop
  | .run => s.pc = .takeCur → ∀ z ∈ s.invocations, z.id = s.vars.inv →
      s.vars.inv ≠ s.vars.prevInv → s.inventory = z.started
  | _ => True

theorem Baseline.cons {zs : List Invocation} {id base : String} (z : Invocation)
    (h : Baseline zs id base) : Baseline (z :: zs) id base := by
  obtain ⟨x, hx, hid, hb⟩ := h
  exact ⟨x, List.mem_cons_of_mem _ hx, hid, hb⟩

theorem Baseline.unique {zs : List Invocation} {z : Invocation} {base : String}
    (hids : (zs.map Invocation.id).Nodup) (hz : z ∈ zs) (h : Baseline zs z.id base) :
    base = snapshot z.started := by
  obtain ⟨x, hx, hid, hb⟩ := h
  rwa [List.inj_on_of_nodup_map hids hx hz hid] at hb

variable {s t : State}

theorem launch_sound {id : String} (hs : s.Sound) (hid : s.Unused id) : (s.launch id).Sound where
  unique := List.nodup_cons.2 ⟨hid.2, hs.unique⟩
  named := by
    intro z hz
    rcases List.mem_cons.1 hz with rfl | hz
    · exact hid.1
    · exact hs.named z hz
  read h := by
    obtain ⟨z, hz, he⟩ := hs.read h
    exact ⟨z, List.mem_cons_of_mem _ hz, he⟩
  base h := (hs.base h).cons _
  knows := by
    have hk := hs.knows
    simp only [State.Knows, State.launch] at hk ⊢
    cases hpc : s.pc with
    | rebase =>
      rw [hpc] at hk
      exact fun h1 h2 => (hk h1 h2).cons _
    | _ =>
      rw [hpc] at hk
      exact hk

/-- The commands of the loop keep the meaning of the variables. -/
theorem next_sound (hs : s.Sound) (hc : InTime s .run) (h : s.next = some t) : t.Sound := by
  have hk := hs.knows
  unfold State.next at h
  unfold State.Knows at hk
  cases hpc : s.pc with
  | readInv => simp [hpc] at h
  | tryRestart => simp [hpc] at h
  | takeCur =>
    simp only [hpc, Option.some.injEq] at h
    subst h
    refine ⟨hs.unique, hs.named, hs.read, hs.base, fun hne hinv => ?_⟩
    obtain ⟨z, hz, hid⟩ := hs.read hinv
    exact ⟨z, hz, hid, congrArg snapshot (hc hpc z hz hid hne)⟩
  | rebase =>
    simp only [hpc] at h hk
    split at h
    · rename_i hne
      cases h
      exact ⟨hs.unique, hs.named, hs.read, hk hne, rfl⟩
    · rename_i heq
      cases h
      exact ⟨hs.unique, hs.named, hs.read, hs.base, not_not.1 heq⟩
  | compare =>
    simp only [hpc] at h hk
    split at h
    · cases h
      exact ⟨hs.unique, hs.named, hs.read, hs.base, hk, ‹_›⟩
    · cases h
      exact ⟨hs.unique, hs.named, hs.read, hs.base, trivial⟩
  | sleepStable =>
    simp only [hpc] at h hk
    cases h
    exact ⟨hs.unique, hs.named, hs.read, hs.base, hk⟩
  | takeCur2 =>
    simp only [hpc] at h hk
    cases h
    exact ⟨hs.unique, hs.named, hs.read, hs.base, hk⟩
  | confirm =>
    simp only [hpc] at h hk
    split at h
    · cases h
      exact ⟨hs.unique, hs.named, hs.read, hs.base, hk.1, hk.2, ‹_›⟩
    · cases h
      exact ⟨hs.unique, hs.named, hs.read, hs.base, trivial⟩
  | sleepEnd =>
    simp only [hpc] at h
    cases h
    exact ⟨hs.unique, hs.named, hs.read, hs.base, trivial⟩

/-- **One step.** -/
theorem step_sound {a : Action} (hs : s.Sound) (hc : InTime s a) (h : step s a = some t) :
    t.Sound := by
  cases a with
  | netChange v =>
    cases h
    exact ⟨hs.unique, hs.named, hs.read, hs.base, hs.knows⟩
  | start id =>
    simp only [step] at h
    split at h
    · rename_i hid
      cases h
      exact launch_sound hs hid.2
    · cases h
  | exit =>
    simp only [step] at h
    split at h
    · cases h
      exact ⟨hs.unique, hs.named, hs.read, hs.base, hs.knows⟩
    · cases h
  | respawn =>
    cases h
    exact ⟨hs.unique, hs.named, fun h => absurd rfl h, fun h => absurd rfl h, trivial⟩
  | query ok =>
    simp only [step] at h
    split at h
    · cases h
      refine ⟨hs.unique, hs.named, fun hne => ?_, hs.base, trivial⟩
      simp only [State.invocationId] at hne ⊢
      cases ok with
      | false => exact absurd rfl hne
      | true =>
        cases hz : s.invocations with
        | nil => simp [hz] at hne
        | cons z zs => exact ⟨z, by simp, by simp⟩
    · cases h
  | run => exact next_sound hs hc h
  | tryRestart id =>
    simp only [step] at h
    split at h
    · split at h
      · split at h
        · cases h
          obtain ⟨hu, hn, hr, hb, -⟩ := launch_sound hs ‹_›
          exact ⟨hu, hn, hr, hb, trivial⟩
        · cases h
      · cases h
        exact ⟨hs.unique, hs.named, hs.read, hs.base, trivial⟩
    · cases h

theorem init_sound (v : Inventory) : (State.init v).Sound :=
  ⟨List.nodup_nil, nofun, fun h => absurd rfl h, fun h => absurd rfl h, trivial⟩

end BrExternal.Netwatch
