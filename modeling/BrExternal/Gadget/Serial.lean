import BrExternal.Gadget.Configfs

/-!
# `usb-serial-gadget`

The functions `cleanup` and `setup` of the script as lists of configfs operations, in the
state they start in, and invocations one after another, each of them possibly cut off
behind any operation. Whatever an invocation leaves behind is an unbound part of the
gadget, or the whole gadget, bound (`Known`); from all of these `cleanup` gets through
and `setup` ends with the whole gadget (`gadget_recovers`).
-/

namespace BrExternal.Usb

open Script

/-! ## The script -/

/-- What the script reads: the machine id and the listing of `/sys/class/udc`. -/
structure Env where
  machineId : String
  udcs : List String
  listed : udcs ≠ []
  named : ∀ u ∈ udcs, u ≠ ""

/-- `ls /sys/class/udc/ | head -n 1`. -/
def Env.udc (env : Env) : String := env.udcs.headD ""

def acm : String := "acm.usb0"

def c1 : String := "c.1"

def lang : String := "0x409"

/-- The body of `cleanup`. -/
def teardown : List (Cmd Fs) :=
  [whenever isBound unbind,
   whenever (hasLink c1 acm) (rmLink c1 acm),
   whenever (hasConfigStrings c1 lang) (rmdirConfigStrings c1 lang),
   whenever (hasConfig c1) (rmdirConfig c1),
   whenever (hasFunction acm) (rmdirFunction acm),
   whenever (hasStrings lang) (rmdirStrings lang),
   rmdirGadget]

def cleanup : Fs → List (Cmd Fs)
  | none => []
  | some _ => teardown

/-- Steps 4 to 9 of `setup`, from the `mkdir` on. -/
def assemble (d : Defaults) (env : Env) : List (Cmd Fs) :=
  [mkdirGadget d,
   writeDescriptors fun x => { x with idVendor := "0x1d6b" },
   writeDescriptors fun x => { x with idProduct := "0x0104" },
   writeDescriptors fun x => { x with bcdUSB := "0x0200" },
   writeDescriptors fun x => { x with bDeviceClass := "0x02" },
   mkdirStrings lang,
   writeStrings lang fun x => { x with serialnumber := env.machineId },
   writeStrings lang fun x => { x with manufacturer := "HEXMEOW" },
   writeStrings lang fun x => { x with product := "USB Emulated Serial" },
   mkdirFunction acm,
   mkdirConfig d c1,
   mkdirConfigStrings c1 lang,
   writeConfiguration c1 lang "Emulated Serial Port",
   writeMaxPower c1 "120",
   link c1 acm]

/-- The gadget is bound, its function is linked and there. -/
def configured (g : Gadget) : Bool :=
  isBound g && hasLink c1 acm g && hasFunction acm g

def setup (d : Defaults) (env : Env) (s : Fs) : List (Cmd Fs) :=
  if env.udc = "" then [fun _ => none]
  else if s.any configured then []
  else cleanup s ++ (assemble d env ++ [bind env.udc])

def isStop (arg : String) : Bool := arg = "stop" || arg = "disable" || arg = "down"

def main (d : Defaults) (env : Env) (arg : String) (s : Fs) : List (Cmd Fs) :=
  if isStop arg then cleanup s else setup d env s

/-- An invocation, cut off behind some operations or left to its end. -/
structure Call where
  arg : String
  cut : Option Nat

def Call.script (d : Defaults) (env : Env) (c : Call) (s : Fs) : List (Cmd Fs) :=
  match c.cut with
  | none => main d env c.arg s
  | some n => (main d env c.arg s).take n

/-! ## Parts of the gadget -/

/-- What may exist of the configuration. -/
structure ConfigPart where
  maxPower : String
  text : Option String
  linked : Bool

/-- What may exist of the gadget. -/
structure Part where
  descriptors : Descriptors
  strings : Option Strings
  function : Bool
  config : Option ConfigPart

def ConfigPart.config (p : ConfigPart) : Config where
  maxPower := p.maxPower
  strings := p.text.toList.map fun x => (lang, x)
  links := if p.linked then [acm] else []

/-- The directory of a part, bound to a controller or not. -/
def Part.gadget (p : Part) (udc : String) : Gadget where
  descriptors := p.descriptors
  udc := udc
  strings := p.strings.toList.map fun x => (lang, x)
  functions := if p.function then [acm] else []
  configs := p.config.toList.map fun c => (c1, c.config)

def whole (env : Env) : Part where
  descriptors := ⟨"0x1d6b", "0x0104", "0x0200", "0x02"⟩
  strings := some ⟨env.machineId, "HEXMEOW", "USB Emulated Serial"⟩
  function := true
  config := some ⟨"120", some "Emulated Serial Port", true⟩

/-- The gadget the script is for, bound to a controller. -/
def target (machineId controller : String) : Gadget where
  descriptors := ⟨"0x1d6b", "0x0104", "0x0200", "0x02"⟩
  udc := controller
  strings := [("0x409", ⟨machineId, "HEXMEOW", "USB Emulated Serial"⟩)]
  functions := ["acm.usb0"]
  configs := [("c.1", ⟨"120", [("0x409", "Emulated Serial Port")], ["acm.usb0"]⟩)]

/-- An unbound part of the gadget, or nothing. -/
def Unbound (s : Fs) : Prop := s = none ∨ ∃ p : Part, s = some (p.gadget "")

/-- The states between commands. -/
def Known (env : Env) (s : Fs) : Prop :=
  Unbound s ∨ s = some (target env.machineId (env.udcs.head env.listed))

/-! ## `cleanup` -/

section
variable {p : Part}

def Part.Unlinked (p : Part) : Prop := ∀ c ∈ p.config, c.linked = false

def Part.Bare (p : Part) : Prop := ∀ c ∈ p.config, c.linked = false ∧ c.text = none

theorem unbind_part (p : Part) (u : String) :
    whenever isBound unbind (some (p.gadget u)) = some (some (p.gadget "")) := by
  by_cases hu : u = ""
  · simp [whenever, isBound, Part.gadget, hu]
  · simp [whenever, isBound, Part.gadget, hu, unbind, within]

theorem rmLink_part (p : Part) :
    ∃ q : Part, whenever (hasLink c1 acm) (rmLink c1 acm) (some (p.gadget "")) =
      some (some (q.gadget "")) ∧ q.Unlinked := by
  cases hc : p.config with
  | none =>
    refine ⟨p, ?_, by simp [Part.Unlinked, hc]⟩
    simp [whenever, hasLink, Part.gadget, hc]
  | some c =>
    refine ⟨{ p with config := some { c with linked := false } }, ?_, by simp [Part.Unlinked]⟩
    cases hl : c.linked with
    | false =>
      simp [whenever, hasLink, hc, ConfigPart.config, hl, Part.gadget]
    | true =>
      simp [whenever, hasLink, rmLink, withinConfig, within, hc, ConfigPart.config, hl,
        Part.gadget, Assoc.insert]

theorem rmdirConfigStrings_part (hp : p.Unlinked) :
    ∃ q : Part, whenever (hasConfigStrings c1 lang) (rmdirConfigStrings c1 lang)
      (some (p.gadget "")) = some (some (q.gadget "")) ∧ q.Bare := by
  cases hc : p.config with
  | none =>
    refine ⟨p, ?_, by simp [Part.Bare, hc]⟩
    simp [whenever, hasConfigStrings, Part.gadget, hc]
  | some c =>
    have hl : c.linked = false := hp c (by simp [hc])
    refine ⟨{ p with config := some { c with text := none } }, ?_, by simp [Part.Bare, hl]⟩
    cases ht : c.text with
    | none => simp [whenever, hasConfigStrings, hc, ConfigPart.config, ht, Part.gadget]
    | some x =>
      simp [whenever, hasConfigStrings, rmdirConfigStrings, withinConfig, within, hc,
        ConfigPart.config, ht, Part.gadget, Assoc.insert]

theorem rmdirConfig_part (hp : p.Bare) :
    whenever (hasConfig c1) (rmdirConfig c1) (some (p.gadget "")) =
      some (some (({ p with config := none } : Part).gadget "")) := by
  cases hc : p.config with
  | none => simp [whenever, hasConfig, Part.gadget, hc]
  | some c =>
    obtain ⟨hl, ht⟩ := hp c (by simp [hc])
    simp [whenever, hasConfig, rmdirConfig, within, hc, ConfigPart.config, hl, ht, Part.gadget]

theorem rmdirFunction_part (hp : p.config = none) :
    whenever (hasFunction acm) (rmdirFunction acm) (some (p.gadget "")) =
      some (some (({ p with function := false } : Part).gadget "")) := by
  cases hf : p.function with
  | false => simp [whenever, hasFunction, Part.gadget, hf]
  | true => simp [whenever, hasFunction, rmdirFunction, within, hp, hf, Part.gadget]

theorem rmdirStrings_part (p : Part) :
    whenever (hasStrings lang) (rmdirStrings lang) (some (p.gadget "")) =
      some (some (({ p with strings := none } : Part).gadget "")) := by
  cases hs : p.strings with
  | none => simp [whenever, hasStrings, Part.gadget, hs]
  | some x => simp [whenever, hasStrings, rmdirStrings, within, hs, Part.gadget]

theorem rmdirGadget_part (hc : p.config = none) (hf : p.function = false)
    (hs : p.strings = none) : rmdirGadget (some (p.gadget "")) = some none := by
  simp [rmdirGadget, Part.gadget, hc, hf, hs]

end

/-- **`cleanup` gets through**, whatever part of the gadget there is. -/
theorem teardown_total :
    TotalTriple (fun s => ∃ (p : Part) (u : String), s = some (p.gadget u)) teardown
      (· = none) Unbound := by
  refine .cons (R := fun s => ∃ p : Part, s = some (p.gadget "")) ?_ ?_
  · rintro s ⟨p, u, rfl⟩
    exact ⟨_, unbind_part p u, ⟨p, rfl⟩, .inr ⟨p, rfl⟩⟩
  refine .cons (R := fun s => ∃ p : Part, s = some (p.gadget "") ∧ p.Unlinked) ?_ ?_
  · rintro s ⟨p, rfl⟩
    obtain ⟨q, hq, hun⟩ := rmLink_part p
    exact ⟨_, hq, ⟨q, rfl, hun⟩, .inr ⟨q, rfl⟩⟩
  refine .cons (R := fun s => ∃ p : Part, s = some (p.gadget "") ∧ p.Bare) ?_ ?_
  · rintro s ⟨p, rfl, hp⟩
    obtain ⟨q, hq, hbare⟩ := rmdirConfigStrings_part hp
    exact ⟨_, hq, ⟨q, rfl, hbare⟩, .inr ⟨q, rfl⟩⟩
  refine .cons (R := fun s => ∃ p : Part, s = some (p.gadget "") ∧ p.config = none) ?_ ?_
  · rintro s ⟨p, rfl, hp⟩
    exact ⟨_, rmdirConfig_part hp, ⟨_, rfl, rfl⟩, .inr ⟨_, rfl⟩⟩
  refine .cons (R := fun s => ∃ p : Part, s = some (p.gadget "") ∧ p.config = none ∧
    p.function = false) ?_ ?_
  · rintro s ⟨p, rfl, hp⟩
    exact ⟨_, rmdirFunction_part hp, ⟨_, rfl, hp, rfl⟩, .inr ⟨_, rfl⟩⟩
  refine .cons (R := fun s => ∃ p : Part, s = some (p.gadget "") ∧ p.config = none ∧
    p.function = false ∧ p.strings = none) ?_ ?_
  · rintro s ⟨p, rfl, hc, hf⟩
    exact ⟨_, rmdirStrings_part p, ⟨_, rfl, hc, hf, rfl⟩, .inr ⟨_, rfl⟩⟩
  refine .cons (R := (· = none)) ?_ .nil
  rintro s ⟨p, rfl, hc, hf, hs⟩
  exact ⟨_, rmdirGadget_part hc hf hs, rfl, .inl rfl⟩

/-! ## `setup` -/

variable {d : Defaults} {env : Env}

theorem within_unbound {f : Gadget → Option Gadget}
    (hf : ∀ (p : Part) g, f (p.gadget "") = some g → ∃ q : Part, g = q.gadget "") {s t : Fs}
    (hs : Unbound s) (h : within f s = some t) : Unbound t := by
  rcases hs with rfl | ⟨p, rfl⟩
  · cases h
  · simp only [within, Option.map_eq_some_iff] at h
    obtain ⟨g, hg, rfl⟩ := h
    obtain ⟨q, rfl⟩ := hf p g hg
    exact .inr ⟨q, rfl⟩

theorem withinConfig_unbound {f : Gadget → Config → Option Config}
    (hf : ∀ g (c : ConfigPart) x, f g c.config = some x → ∃ c' : ConfigPart, x = c'.config)
    {s t : Fs} (hs : Unbound s) (h : withinConfig c1 f s = some t) : Unbound t := by
  refine within_unbound (fun p g hg => ?_) hs h
  cases hc : p.config with
  | none => simp [Part.gadget, hc] at hg
  | some c =>
    simp only [Part.gadget, hc, Option.toList_some, List.map_cons, List.map_nil,
      List.lookup_cons, beq_self_eq_true, Option.map_eq_some_iff] at hg
    obtain ⟨x, hx, rfl⟩ := hg
    obtain ⟨c', rfl⟩ := hf _ c x hx
    exact ⟨{ p with config := some c' }, by simp [Part.gadget, Assoc.insert]⟩

theorem writeDescriptors_unbound (f : Descriptors → Descriptors) {s t : Fs} (hs : Unbound s)
    (h : writeDescriptors f s = some t) : Unbound t := by
  refine within_unbound (fun p g hg => ?_) hs h
  cases hg
  exact ⟨{ p with descriptors := f p.descriptors }, rfl⟩

theorem mkdirStrings_unbound {s t : Fs} (hs : Unbound s) (h : mkdirStrings lang s = some t) :
    Unbound t := by
  refine within_unbound (fun p g hg => ?_) hs h
  cases hp : p.strings with
  | some x =>
    simp only [Part.gadget, hp, Option.toList_some, List.map_cons, List.map_nil,
      List.lookup_cons, beq_self_eq_true, Option.some.injEq] at hg
    exact ⟨p, by simp [Part.gadget, hp, ← hg]⟩
  | none =>
    simp only [Part.gadget, hp, Option.toList_none, List.map_nil, List.lookup_nil,
      Option.some.injEq] at hg
    exact ⟨{ p with strings := some ⟨"", "", ""⟩ }, by simp [Part.gadget, Assoc.insert, ← hg]⟩

theorem writeStrings_unbound (f : Strings → Strings) {s t : Fs} (hs : Unbound s)
    (h : writeStrings lang f s = some t) : Unbound t := by
  refine within_unbound (fun p g hg => ?_) hs h
  cases hp : p.strings with
  | none => simp [Part.gadget, hp] at hg
  | some x =>
    simp only [Part.gadget, hp, Option.toList_some, List.map_cons, List.map_nil,
      List.lookup_cons, beq_self_eq_true, Option.some.injEq] at hg
    exact ⟨{ p with strings := some (f x) }, by simp [Part.gadget, Assoc.insert, ← hg]⟩

theorem mkdirFunction_unbound {s t : Fs} (hs : Unbound s) (h : mkdirFunction acm s = some t) :
    Unbound t := by
  refine within_unbound (fun p g hg => ?_) hs h
  refine ⟨{ p with function := true }, ?_⟩
  cases hp : p.function with
  | false => simpa [Part.gadget, hp, eq_comm] using hg
  | true => simpa [Part.gadget, hp, eq_comm] using hg

theorem mkdirConfig_unbound {s t : Fs} (hs : Unbound s) (h : mkdirConfig d c1 s = some t) :
    Unbound t := by
  refine within_unbound (fun p g hg => ?_) hs h
  cases hp : p.config with
  | some c =>
    simp only [Part.gadget, hp, Option.toList_some, List.map_cons, List.map_nil,
      List.lookup_cons, beq_self_eq_true, Option.some.injEq] at hg
    exact ⟨p, by simp [Part.gadget, hp, ← hg]⟩
  | none =>
    simp only [Part.gadget, hp, Option.toList_none, List.map_nil, List.lookup_nil,
      Option.some.injEq] at hg
    refine ⟨{ p with config := some ⟨d.maxPower, none, false⟩ }, ?_⟩
    simp [Part.gadget, Assoc.insert, ConfigPart.config, ← hg]

theorem mkdirConfigStrings_unbound {s t : Fs} (hs : Unbound s)
    (h : mkdirConfigStrings c1 lang s = some t) : Unbound t := by
  refine withinConfig_unbound (fun g c x hx => ?_) hs h
  cases ht : c.text with
  | some y =>
    simp only [ConfigPart.config, ht, Option.toList_some, List.map_cons, List.map_nil,
      List.lookup_cons, beq_self_eq_true, Option.some.injEq] at hx
    exact ⟨c, by simp [ConfigPart.config, ht, ← hx]⟩
  | none =>
    simp only [ConfigPart.config, ht, Option.toList_none, List.map_nil, List.lookup_nil,
      Option.some.injEq] at hx
    exact ⟨{ c with text := some "" }, by simp [ConfigPart.config, Assoc.insert, ← hx]⟩

theorem writeConfiguration_unbound (text : String) {s t : Fs} (hs : Unbound s)
    (h : writeConfiguration c1 lang text s = some t) : Unbound t := by
  refine withinConfig_unbound (fun g c x hx => ?_) hs h
  cases ht : c.text with
  | none => simp [ConfigPart.config, ht] at hx
  | some y =>
    simp only [ConfigPart.config, ht, Option.toList_some, List.map_cons, List.map_nil,
      List.lookup_cons, beq_self_eq_true, Option.some.injEq] at hx
    exact ⟨{ c with text := some text }, by simp [ConfigPart.config, Assoc.insert, ← hx]⟩

theorem link_unbound {s t : Fs} (hs : Unbound s) (h : link c1 acm s = some t) : Unbound t := by
  refine withinConfig_unbound (fun g c x hx => ?_) hs h
  split at hx
  · rename_i hcond
    cases hx
    refine ⟨{ c with linked := true }, ?_⟩
    cases hl : c.linked with
    | false => simp [ConfigPart.config, hl]
    | true => simp [ConfigPart.config, hl] at hcond
  · cases hx

/-- Every command up to the binding leaves an unbound part. -/
theorem assemble_unbound :
    ∀ c ∈ assemble d env, ∀ s t, Unbound s → c s = some t → Unbound t := by
  intro c hc s t hs h
  simp only [assemble, List.mem_cons, List.not_mem_nil, or_false] at hc
  rcases hc with rfl | rfl | rfl | rfl | rfl | rfl | rfl | rfl | rfl | rfl | rfl | rfl | rfl |
    rfl | rfl
  · rcases hs with rfl | ⟨p, rfl⟩
    · cases h
      exact .inr ⟨⟨d.descriptors, none, false, none⟩, rfl⟩
    · cases h
      exact .inr ⟨p, rfl⟩
  · exact writeDescriptors_unbound _ hs h
  · exact writeDescriptors_unbound _ hs h
  · exact writeDescriptors_unbound _ hs h
  · exact writeDescriptors_unbound _ hs h
  · exact mkdirStrings_unbound hs h
  · exact writeStrings_unbound _ hs h
  · exact writeStrings_unbound _ hs h
  · exact writeStrings_unbound _ hs h
  · exact mkdirFunction_unbound hs h
  · exact mkdirConfig_unbound hs h
  · exact mkdirConfigStrings_unbound hs h
  · exact writeConfiguration_unbound _ hs h
  · exact withinConfig_unbound (fun g c x hx => ⟨{ c with maxPower := "120" }, by cases hx; rfl⟩)
      hs h
  · exact link_unbound hs h

theorem assemble_final (d : Defaults) (env : Env) :
    completes (assemble d env) none = true ∧
      final (assemble d env) none = some ((whole env).gadget "") :=
  ⟨rfl, rfl⟩

theorem Env.udc_eq_head (env : Env) : env.udc = env.udcs.head env.listed := by
  unfold Env.udc
  rw [List.headD_eq_head?_getD, List.head?_eq_some_head env.listed, Option.getD_some]

theorem assemble_total (d : Defaults) (env : Env) :
    TotalTriple (· = none) (assemble d env ++ [bind env.udc])
      (· = some (target env.machineId (env.udcs.head env.listed))) (Known env) := by
  rw [env.udc_eq_head]
  refine .append (R := (· = some ((whole env).gadget ""))) ?_ (.cons ?_ .nil)
  · rintro s rfl
    obtain ⟨hok, hfin⟩ := assemble_final d env
    refine ⟨hok, fun t ht => .inl ?_, hfin⟩
    exact (Triple.of_inv assemble_unbound none (.inl rfl)).1 t ht
  · rintro s rfl
    exact ⟨_, rfl, rfl, .inr rfl⟩

/-! ## Invocations -/

variable {s : Fs}

theorem Known.part (hs : Known env s) {g : Gadget} (hg : s = some g) :
    ∃ (p : Part) (u : String), s = some (p.gadget u) := by
  rcases hs with (rfl | ⟨p, rfl⟩) | rfl
  · cases hg
  · exact ⟨p, "", rfl⟩
  · exact ⟨whole env, _, rfl⟩

theorem Env.head_ne (env : Env) : env.udcs.head env.listed ≠ "" :=
  env.named _ (List.head_mem env.listed)

theorem Env.udc_ne (env : Env) : env.udc ≠ "" := by
  rw [env.udc_eq_head]
  exact env.head_ne

/-- Only the whole gadget is bound. -/
theorem configured_iff (hs : Known env s) : s.any configured = true ↔
    s = some (target env.machineId (env.udcs.head env.listed)) := by
  constructor
  · intro h
    rcases hs with (rfl | ⟨p, rfl⟩) | rfl
    · cases h
    · simp [configured, isBound, Part.gadget] at h
    · rfl
  · rintro rfl
    have hne := env.head_ne
    simp [configured, isBound, hasLink, hasFunction, target, c1, acm, hne]

theorem cleanup_total (hs : Known env s) :
    completes (cleanup s) s = true ∧ (∀ t ∈ trace (cleanup s) s, Known env t) ∧
      final (cleanup s) s = none := by
  cases hg : s with
  | none => exact ⟨rfl, nofun, rfl⟩
  | some g =>
    obtain ⟨hok, htr, hfin⟩ := teardown_total s (hs.part hg)
    rw [hg] at hok htr hfin
    exact ⟨hok, fun t ht => .inl (htr t ht), hfin⟩

theorem setup_total (d : Defaults) (hs : Known env s) :
    completes (setup d env s) s = true ∧ (∀ t ∈ trace (setup d env s) s, Known env t) ∧
      final (setup d env s) s = some (target env.machineId (env.udcs.head env.listed)) := by
  unfold setup
  rw [if_neg env.udc_ne]
  by_cases hc : s.any configured = true
  · rw [if_pos hc]
    exact ⟨rfl, nofun, (configured_iff hs).1 hc⟩
  · rw [if_neg hc]
    obtain ⟨hok, htr, hfin⟩ := cleanup_total hs
    have hclean : TotalTriple (· = s) (cleanup s) (· = none) (Known env) := by
      rintro _ rfl
      exact ⟨hok, htr, hfin⟩
    exact (hclean.append (assemble_total d env)) s rfl

/-- **One invocation**, cut off anywhere, leaves a known state. -/
theorem call_known (d : Defaults) (c : Call) (hs : Known env s) :
    ∀ t ∈ trace (c.script d env s) s, Known env t := by
  have hmain : ∀ t ∈ trace (main d env c.arg s) s, Known env t := by
    unfold main
    split
    · exact (cleanup_total hs).2.1
    · exact (setup_total d hs).2.1
  unfold Call.script
  cases c.cut with
  | none => exact hmain
  | some n => exact fun t ht => hmain t ((trace_take_sublist _ n s).subset ht)

theorem calls_known (d : Defaults) (env : Env) (calls : List Call) :
    Known env (after (Call.script d env) none calls) :=
  (history_inv (C := fun _ _ => True) (fun _ c hs _ => call_known d c hs) (.inl (.inl rfl))
    (Each.of_forall (fun _ _ => trivial) none)).2

theorem after_call (d : Defaults) (env : Env) (s : Fs) (calls : List Call) (arg : String) :
    after (Call.script d env) s (calls ++ [⟨arg, none⟩]) =
      final (main d env arg (after (Call.script d env) s calls))
        (after (Call.script d env) s calls) := by
  rw [after_append]
  rfl

/-- **Recovery.** After any sequence of invocations, each possibly cut off behind any of
its commands: nothing `cleanup` does is refused; `stop`, left to its end, leaves no
gadget; `start`, as any argument that is not one of the three to stop, leaves the whole
gadget, bound to the first controller listed, and runs no command at all when the gadget
is bound already. -/
theorem gadget_recovers (d : Defaults) (env : Env) (calls : List Call) :
    let s := after (Call.script d env) none calls
    completes (cleanup s) s = true ∧
    (∀ arg, arg = "stop" ∨ arg = "disable" ∨ arg = "down" →
      completes (main d env arg s) s = true ∧
      after (Call.script d env) none (calls ++ [⟨arg, none⟩]) = none) ∧
    (∀ arg, arg ≠ "stop" → arg ≠ "disable" → arg ≠ "down" →
      completes (main d env arg s) s = true ∧
      after (Call.script d env) none (calls ++ [⟨arg, none⟩]) =
        some (target env.machineId (env.udcs.head env.listed)) ∧
      (s.any isBound = true → main d env arg s = [])) := by
  intro s
  have hs : Known env s := calls_known d env calls
  refine ⟨(cleanup_total hs).1, fun arg harg => ?_, fun arg h1 h2 h3 => ?_⟩
  · have hstop : isStop arg = true := by simpa [isStop, or_assoc] using harg
    rw [after_call]
    simp only [main, hstop, if_true]
    exact ⟨(cleanup_total hs).1, (cleanup_total hs).2.2⟩
  · have hstart : isStop arg = false := by simp [isStop, h1, h2, h3]
    rw [after_call]
    simp only [main, hstart]
    refine ⟨(setup_total d hs).1, (setup_total d hs).2.2, fun hb => ?_⟩
    have hwhole : s = some (target env.machineId (env.udcs.head env.listed)) := by
      rcases hs with (hnone | ⟨p, hp⟩) | hwhole
      · rw [hnone] at hb
        cases hb
      · rw [hp] at hb
        simp [isBound, Part.gadget] at hb
      · exact hwhole
    simp [setup, env.udc_ne, (configured_iff hs).2 hwhole]

def twoControllers : Env where
  machineId := "b2c6"
  udcs := ["fe980000.usb", "xhci.1"]
  listed := by decide
  named := by decide

def zeros : Defaults := ⟨⟨"0x0000", "0x0000", "0x0000", "0x00"⟩, "2"⟩

/-- A start that is cut off leaves half a gadget, a stop that is cut off half of that; a
further `start` ends with the whole gadget and a further `stop` with none. -/
theorem gadget_recovers_half_built :
    after (Call.script zeros twoControllers) none [⟨"start", some 12⟩] =
      some ⟨⟨"0x1d6b", "0x0104", "0x0200", "0x02"⟩, "",
        [("0x409", ⟨"b2c6", "HEXMEOW", "USB Emulated Serial"⟩)], ["acm.usb0"],
        [("c.1", ⟨"2", [("0x409", "")], []⟩)]⟩ ∧
    after (Call.script zeros twoControllers) none [⟨"start", some 12⟩, ⟨"stop", some 4⟩] =
      some ⟨⟨"0x1d6b", "0x0104", "0x0200", "0x02"⟩, "",
        [("0x409", ⟨"b2c6", "HEXMEOW", "USB Emulated Serial"⟩)], ["acm.usb0"], []⟩ ∧
    after (Call.script zeros twoControllers) none
      [⟨"start", some 12⟩, ⟨"stop", some 4⟩, ⟨"start", none⟩] =
        some (target "b2c6" "fe980000.usb") ∧
    after (Call.script zeros twoControllers) none
      [⟨"start", some 12⟩, ⟨"stop", some 4⟩, ⟨"stop", none⟩] = none :=
  have h := gadget_recovers zeros twoControllers [⟨"start", some 12⟩, ⟨"stop", some 4⟩]
  ⟨rfl, rfl, (h.2.2 "start" (by decide) (by decide) (by decide)).2.1,
    (h.2.1 "stop" (.inl rfl)).2⟩

end BrExternal.Usb
