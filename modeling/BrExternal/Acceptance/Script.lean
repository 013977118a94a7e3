import BrExternal.Lib.Shell
import BrExternal.Lib.Text

/-!
# `hex-wifi-acceptance`

The script as a command of the shell library, over every assignment of outputs and exit statuses
to the external commands it runs (`Call → Result`) and every value of `HEX_WIFI_SECRET_CANARY`.
Each place in the text that runs a command is a `Call` of its own, since two runs of a command may
answer differently.
-/

namespace BrExternal.Acceptance

open Sh

/-! ## The external commands -/

inductive Service where
  | zenohd
  | wpaSupplicant
  | hexWifi
  | zenohdNetwatch
  deriving DecidableEq, Repr

def Service.name : Service → List Char
  | .zenohd => "zenohd.service".toList
  | .wpaSupplicant => "wpa_supplicant-wlan0.service".toList
  | .hexWifi => "hex-wifi.service".toList
  | .zenohdNetwatch => "zenohd-netwatch.service".toList

/-- The arguments of the calls of `check_mode`. -/
inductive File where
  | wifiDir
  | conf
  | revision
  | sock
  deriving DecidableEq, Repr

def File.path : File → List Char
  | .wifiDir => "/userdata/hexmeow/wifi".toList
  | .conf => "/userdata/hexmeow/wifi/wpa_supplicant.conf".toList
  | .revision => "/userdata/hexmeow/wifi/revision".toList
  | .sock => "/run/hex-wifi.sock".toList

def File.mode : File → List Char
  | .wifiDir => "700".toList
  | .conf | .revision | .sock => "600".toList

/-- The places where the script runs an external command. -/
inductive Call where
  | isActive (v : Service)
  | isEnabled (v : Service)
  | limitCore (v : Service)
  | ls (f : File)
  | awk (f : File)
  | mainPid
  /-- `tr` on `/proc/$PID/cmdline`; it fails when the file cannot be opened. -/
  | cmdline
  /-- `tr` on `/proc/$PID/environ`. -/
  | environ
  | statusJson
  | listJson
  | grepPassphrase
  | journalctl
  | grepCanary
  | find
  | grepStale
  /-- The `hex-wifi status` behind the verdict. -/
  | status
  deriving DecidableEq, Repr

/-! ## Variables and simple commands -/

/-- The variables of the script and what it has written. -/
structure State where
  service : List Char
  pathname : List Char
  expected : List Char
  expectedSymbolic : List Char
  actual : List Char
  pid : List Char
  cmdline : List Char
  environ : List Char
  responses : List Char
  out : List (List Char)
  err : List (List Char)

def State.init : State := ⟨[], [], [], [], [], [], [], [], [], [], []⟩

def act (f : State → State) : Cmd State := .simple fun s => (f s, 0)

/-- `VAR=$(...)`. -/
def capture (f : State → List Char → State) (r : Result) : Cmd State :=
  .simple fun s => (f s r.value, r.status)

/-- `[ ... ]`. -/
def test (p : State → Bool) : Cmd State := .simple fun s => (s, if p s then 0 else 1)

def probe (r : Result) : Cmd State := .simple fun s => (s, r.status)

/-- The characters `isspace` skips around a number. -/
def isSpace (c : Char) : Bool := c = ' ' || (9 ≤ c.toNat && c.toNat ≤ 13)

/-- The number `[` reads in an operand of `-gt`; `none` when it is not one or out of range. -/
def number (w : List Char) : Option Int :=
  let t := ((w.dropWhile isSpace).reverse.dropWhile isSpace).reverse
  let digits (ds : List Char) : Option Int :=
    if ds ≠ [] ∧ ds.all Char.isDigit then
      some (ds.foldl (fun n c => 10 * n + (c.toNat - '0'.toNat)) 0 : Nat)
    else none
  let n := match t with
    | '-' :: ds => (digits ds).map fun n => -n
    | '+' :: ds => digits ds
    | ds => digits ds
  -- the range of a 64-bit integer
  n.filter fun n => -9223372036854775808 ≤ n ∧ n ≤ 9223372036854775807

/-- `[ VAR -gt n ]`, which fails with status 2 on what is not a number. -/
def testGt (var : State → List Char) (n : Int) : Cmd State :=
  .simple fun s => (s, match number (var s) with
    | none => 2
    | some m => if n < m then 0 else 1)

def fail (msg : State → List Char) : Cmd State :=
  .seq (act fun s => { s with err := s.err ++ ["FAIL: ".toList ++ msg s] }) (.exit 1)

/-! ## The script -/

section

variable (e : Call → Result)

def checkService (v : Service) : Cmd State := block [
  act fun s => { s with service := v.name },
  .orElse (test fun _ => (e (.isActive v)).value = "active".toList)
    (fail fun s => s.service ++ " is not active".toList),
  .orElse (test fun _ => (e (.isEnabled v)).value = "enabled".toList)
    (fail fun s => s.service ++ " is not enabled".toList)]

/-- The first `case` of `check_mode`. -/
def symbolicMode : Cmd State :=
  .select (fun s => s.expected = "700".toList)
    (act fun s => { s with expectedSymbolic := "?rwx------".toList })
    (.select (fun s => s.expected = "600".toList)
      (act fun s => { s with expectedSymbolic := "?rw-------".toList })
      (fail fun s => "unsupported expected mode ".toList ++ s.expected))

def checkMode (f : File) : Cmd State := block [
  act fun s => { s with pathname := f.path },
  act fun s => { s with expected := f.mode },
  symbolicMode,
  .orElse (capture (fun s v => { s with actual := v }) (pipeline (e (.ls f)) (e (.awk f))))
    (fail fun s => "cannot inspect ".toList ++ s.pathname),
  .orElse (test fun s => s.actual ≠ [])
    (fail fun s => "cannot inspect ".toList ++ s.pathname),
  .select (fun s => fits s.expectedSymbolic s.actual)
    (act id)
    (fail fun s => s.pathname ++ " mode is ".toList ++ s.actual ++ ", expected ".toList ++
      s.expected)]

/-- Both checks of `LimitCORE` differ in the service and its name in the message. -/
def checkLimit (v : Service) (name : List Char) : Cmd State :=
  .orElse (test fun _ => (e (.limitCore v)).value = "0".toList)
    (fail fun _ => name ++ " core dumps are not disabled".toList)

def checkProcess : Cmd State := block [
  capture (fun s v => { s with pid := v }) (e .mainPid),
  .orElse (testGt State.pid 1) (fail fun _ => "hex-wifi has no main process".toList),
  capture (fun s v => { s with cmdline := v }) (e .cmdline),
  capture (fun s v => { s with environ := v }) (e .environ),
  .select (fun s => fits "*passphrase*".toList s.cmdline || fits "*password*".toList s.cmdline ||
      fits "*psk*".toList s.cmdline)
    (fail fun _ => "secret-like argument found in daemon argv".toList)
    (act id),
  .select (fun s => fits "*PASSPHRASE=*".toList s.environ || fits "*PASSWORD=*".toList s.environ ||
      fits "*PSK=*".toList s.environ)
    (fail fun _ => "secret-like variable found in daemon environment".toList)
    (act id)]

variable (stops : Bool)

def checkResponses : Cmd State := block [
  .orElse (capture (fun s v => { s with responses := v })
      (substitution stops (e .statusJson) (e .listJson)))
    (fail fun _ => "local read-only API failed".toList),
  .andThen (.simple fun s =>
      (s, (pipeline ⟨s.responses ++ ['\n'], 0⟩ (e .grepPassphrase)).status))
    (fail fun _ => "passphrase field found in read-only API response".toList)]

variable (canary : List Char)

def checkJournal : Cmd State :=
  .ifThen (test fun _ => canary ≠ [])
    (.andThen (probe (pipeline (e .journalctl) (e .grepCanary)))
      (fail fun _ => "secret canary found in journal".toList))

def checkStale : Cmd State :=
  .andThen (probe (pipeline (e .find) (e .grepStale)))
    (fail fun _ => "stale revision temporary file found".toList)

/-- Everything before the verdict. -/
def checks : Cmd State := block [
  checkService e .zenohd,
  checkService e .wpaSupplicant,
  checkService e .hexWifi,
  checkService e .zenohdNetwatch,
  checkLimit e .hexWifi "hex-wifi".toList,
  checkLimit e .wpaSupplicant "wpa_supplicant".toList,
  checkMode e .wifiDir,
  checkMode e .conf,
  checkMode e .revision,
  checkMode e .sock,
  checkProcess e,
  checkResponses e stops,
  checkJournal e canary,
  checkStale e]

def passLine : List Char := "PASS: hex-wifi target acceptance".toList

def script : Cmd State :=
  .seq (checks e stops canary) (.seq
    (act fun s => { s with out := s.out ++ [passLine] })
    (.simple fun s => ({ s with out := s.out ++ [(e .status).out] }, (e .status).status)))

/-- The verdict is printed. -/
def Passes : Prop := passLine ∈ (run (script e stops canary) false State.init).state.out

end

end BrExternal.Acceptance
