import BrExternal.Lib.Assoc
import BrExternal.Lib.Script

/-!
# The USB gadget directory of configfs

What the kernel keeps of the gadget `g_serial`, and the operations a script has on it,
each with the cases in which the kernel refuses it: a directory is removed only without
user-created children, and a function instance only when no configuration links to it; a
function is linked only while the gadget is unbound; a controller is bound only when some
configuration has a function.
-/

namespace BrExternal.Usb

open Script

structure Descriptors where
  idVendor : String
  idProduct : String
  bcdUSB : String
  bDeviceClass : String
  deriving DecidableEq

/-- The files of `strings/LANG`. -/
structure Strings where
  serialnumber : String
  manufacturer : String
  product : String
  deriving DecidableEq

/-- A directory of `configs`. -/
structure Config where
  maxPower : String
  /-- `strings/LANG/configuration`. -/
  strings : List (String × String)
  /-- The linked function instances. -/
  links : List String
  deriving DecidableEq

/-- The gadget directory. -/
structure Gadget where
  descriptors : Descriptors
  /-- The bound controller, or the empty string. -/
  udc : String
  strings : List (String × Strings)
  functions : List String
  configs : List (String × Config)
  deriving DecidableEq

/-- `/sys/kernel/config/usb_gadget/g_serial`, if it exists. -/
abbrev Fs := Option Gadget

/-- The contents of the attribute files of new directories. -/
structure Defaults where
  descriptors : Descriptors
  maxPower : String

/-- An operation inside the gadget directory. -/
def within (f : Gadget → Option Gadget) : Cmd Fs
  | none => none
  | some g => (f g).map some

/-! ## Creating and writing -/

def mkdirGadget (d : Defaults) : Cmd Fs
  | none => some (some ⟨d.descriptors, "", [], [], []⟩)
  | some g => some (some g)

def writeDescriptors (f : Descriptors → Descriptors) : Cmd Fs :=
  within fun g => some { g with descriptors := f g.descriptors }

def mkdirStrings (lang : String) : Cmd Fs :=
  within fun g =>
    match g.strings.lookup lang with
    | some _ => some g
    | none => some { g with strings := Assoc.insert lang ⟨"", "", ""⟩ g.strings }

def writeStrings (lang : String) (f : Strings → Strings) : Cmd Fs :=
  within fun g =>
    match g.strings.lookup lang with
    | none => none
    | some v => some { g with strings := Assoc.insert lang (f v) g.strings }

def mkdirFunction (name : String) : Cmd Fs :=
  within fun g =>
    if name ∈ g.functions then some g else some { g with functions := name :: g.functions }

def mkdirConfig (d : Defaults) (name : String) : Cmd Fs :=
  within fun g =>
    match g.configs.lookup name with
    | some _ => some g
    | none => some { g with configs := Assoc.insert name ⟨d.maxPower, [], []⟩ g.configs }

/-- An operation inside a configuration directory. -/
def withinConfig (name : String) (f : Gadget → Config → Option Config) : Cmd Fs :=
  within fun g =>
    match g.configs.lookup name with
    | none => none
    | some c => (f g c).map fun c' => { g with configs := Assoc.insert name c' g.configs }

def mkdirConfigStrings (name lang : String) : Cmd Fs :=
  withinConfig name fun _ c =>
    match c.strings.lookup lang with
    | some _ => some c
    | none => some { c with strings := Assoc.insert lang "" c.strings }

def writeConfiguration (name lang text : String) : Cmd Fs :=
  withinConfig name fun _ c =>
    match c.strings.lookup lang with
    | none => none
    | some _ => some { c with strings := Assoc.insert lang text c.strings }

def writeMaxPower (name power : String) : Cmd Fs :=
  withinConfig name fun _ c => some { c with maxPower := power }

/-- `ln -s functions/FUNCTION configs/NAME/`. -/
def link (name function : String) : Cmd Fs :=
  withinConfig name fun g c =>
    if g.udc = "" ∧ function ∈ g.functions ∧ function ∉ c.links then
      some { c with links := function :: c.links }
    else none

/-- `echo UDC > UDC`. -/
def bind (udc : String) : Cmd Fs :=
  within fun g =>
    if g.udc = "" ∧ g.configs.any fun c => !c.2.links.isEmpty then some { g with udc := udc }
    else none

/-! ## Removing -/

def unbind : Cmd Fs := within fun g => some { g with udc := "" }

def rmLink (name function : String) : Cmd Fs :=
  withinConfig name fun _ c =>
    if function ∈ c.links then some { c with links := c.links.filter (· ≠ function) } else none

def rmdirConfigStrings (name lang : String) : Cmd Fs :=
  withinConfig name fun _ c =>
    match c.strings.lookup lang with
    | none => none
    | some _ => some { c with strings := c.strings.filter (·.1 ≠ lang) }

def rmdirConfig (name : String) : Cmd Fs :=
  within fun g =>
    match g.configs.lookup name with
    | none => none
    | some c =>
      if c.strings = [] ∧ c.links = [] then
        some { g with configs := g.configs.filter (·.1 ≠ name) }
      else none

def rmdirFunction (name : String) : Cmd Fs :=
  within fun g =>
    if name ∈ g.functions ∧ g.configs.all fun c => decide (name ∉ c.2.links) then
      some { g with functions := g.functions.filter (· ≠ name) }
    else none

def rmdirStrings (lang : String) : Cmd Fs :=
  within fun g =>
    match g.strings.lookup lang with
    | none => none
    | some _ => some { g with strings := g.strings.filter (·.1 ≠ lang) }

def rmdirGadget : Cmd Fs
  | none => none
  | some g => if g.strings = [] ∧ g.functions = [] ∧ g.configs = [] then some none else none

/-! ## Tests -/

/-- `if TEST; then COMMAND; fi`. -/
def whenever (test : Gadget → Bool) (c : Cmd Fs) : Cmd Fs :=
  fun s => if s.any test then c s else some s

def isBound (g : Gadget) : Bool := g.udc ≠ ""

def hasLink (name function : String) (g : Gadget) : Bool :=
  (g.configs.lookup name).any fun c => decide (function ∈ c.links)

def hasConfigStrings (name lang : String) (g : Gadget) : Bool :=
  (g.configs.lookup name).any fun c => (c.strings.lookup lang).isSome

def hasConfig (name : String) (g : Gadget) : Bool := (g.configs.lookup name).isSome

def hasFunction (name : String) (g : Gadget) : Bool := decide (name ∈ g.functions)

def hasStrings (lang : String) (g : Gadget) : Bool := (g.strings.lookup lang).isSome

end BrExternal.Usb
