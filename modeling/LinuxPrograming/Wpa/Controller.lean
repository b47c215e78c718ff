import LinuxPrograming.Lib.CInt
import LinuxPrograming.Lib.Printf
import LinuxPrograming.Wpa.Scan
import LinuxPrograming.Wpa.Status

/-!
# `WpaController`

The member functions of the controller on the commands they have sent, what they have printed
and what is left of standard input.  A write outside an array has no result.  `argv[sPoint]` to
`argv[ePoint - 1]` are the arguments of `config_wifi`, as strings.
-/

namespace LinuxPrograming
namespace Wpa

open Lib

/-- What the controller meets. -/
structure Env where
  /-- What the requests come to, in the order they are sent. -/
  answers : Nat → Request
  /-- `wpa_ctrl_open` gives a connection. -/
  opened : Bool
  /-- The bytes of an array before they are assigned. -/
  garbage : Nat → UInt8
  /-- The local `netid` of `add_network` before it is assigned. -/
  netid : Int
  netid_fits : FitsInt netid

structure Session where
  sent : List Bytes
  printed : Bytes
  stdin : Bytes

abbrev Controller := StateT Session Option

def print (text : Bytes) : Controller Unit :=
  modify fun s => { s with printed := s.printed ++ text }

/-- `char cmd[size]` with `sprintf`. -/
def sprintf (size : Nat) (fmt : Bytes) (args : List Arg) : Controller Bytes :=
  if (vsprintf fmt args).length < size then pure (vsprintf fmt args) else failure

/-- The number at the start of a text, when there is one. -/
def readDigits (t : Bytes) : Option Int :=
  let ds := t.takeWhile fun c => 48 ≤ c ∧ c ≤ 57
  if ds = [] then none else some (ds.foldl (fun n c => 10 * n + (c.toNat - 48 : Nat)) 0)

/-- `sscanf(s, "%d", &n)`: the value that is assigned, of a number with few digits. -/
def sscanfInt (s : Bytes) : Option Int :=
  match s.dropWhile fun c => c = 32 ∨ 9 ≤ c ∧ c ≤ 13 with
  | 45 :: t => (readDigits t).map fun n => -n
  | 43 :: t => readDigits t
  | t => readDigits t

/-- The first line of a text, with its newline. -/
def firstLine : Bytes → Bytes
  | [] => []
  | c :: t => if c = 10 then [c] else c :: firstLine t

/-- `fgets(buff, size, stdin)`: what is stored before the NUL; nothing at the end of the file. -/
def fgets (size : Nat) : Controller (Option Bytes) := do
  let s ← get
  if s.stdin = [] then pure none
  else
    let line := firstLine (s.stdin.take (size - 1))
    set { s with stdin := s.stdin.drop line.length }
    pure (some line)

/-- The loop that ends the text at the first CR or LF. -/
def endLine : Bytes → Option Bytes
  | [] => none
  | c :: m =>
    if c = 0 then some (c :: m)
    else if c = 13 ∨ c = 10 then some (0 :: m)
    else (endLine m).map (c :: ·)

/-- `NETWORK_ID_MAX`. -/
def networkIdMax : Int := 8

/-- `sizeof(buff)` for `char *buff`. -/
def sizeofPointer : Nat := 8

namespace Env

variable (env : Env)

/-- An array of `size` bytes. -/
def array (size : Nat) : Bytes := (List.range size).map env.garbage

/-- `_wpa_ctrl_cmd(ctrl_conn, cmd, buf)`. -/
def command (cmd buf : Bytes) : Controller (Int × Bytes) := do
  let s ← get
  let answer := env.answers s.sent.length
  let r ← wpaCtrlCmd answer buf
  set { s with sent := s.sent ++ [cmd] }
  match answer with
  | .timedOut => print (vsprintf (bytes "'%s' command timed out.\n") [.str cmd])
  | .failed => print (vsprintf (bytes "'%s' command failed.\n") [.str cmd])
  | .reply _ => pure ()
  pure r

/-- A command with a reply in `size` bytes, and what is done with the reply. -/
def simple (cmd : Bytes) (size : Nat) (use : Bytes → Controller Unit) : Controller Int := do
  let r ← env.command cmd (env.array size)
  if r.1 < 0 then pure (-1)
  else do
    use r.2
    pure 0

def addNetwork : Controller Int := do
  let r ← env.command (bytes "ADD_NETWORK") (env.array 2)
  if r.1 < 0 then pure (-1) else pure ((sscanfInt (cStr r.2)).getD env.netid)

def setNetwork (netid : Int) (argv1 argv2 : Bytes) : Controller Int := do
  let cmd ← sprintf 64 (bytes "%s %d %s \"%s\"")
    [.str (bytes "SET_NETWORK"), .int netid, .str argv1, .str argv2]
  env.simple cmd 1024 fun _ => pure ()

def selectNetwork (netid : Int) : Controller Int := do
  let cmd ← sprintf 64 (bytes "%s %d") [.str (bytes "SELECT_NETWORK"), .int netid]
  env.simple cmd 1024 fun _ => print (bytes "Please wait a few seconds ...\n")

def removeNetwork (netid : Int) : Controller Int := do
  let cmd ← sprintf 64 (bytes "%s %d") [.str (bytes "REMOVE_NETWORK"), .int netid]
  env.simple cmd 1024 fun buffer => print (cStr buffer ++ bytes "\n")

def saveConfig : Controller Int := env.simple (bytes "SAVE_CONFIG") 1024 fun _ => pure ()

def reconfigure : Controller Int := env.simple (bytes "RECONFIGURE") 1024 fun _ => pure ()

def disconnect : Controller Int :=
  env.simple (bytes "DISCONNECT") 1024 fun buffer => print (cStr buffer ++ bytes "\n")

def status (ssid : Bytes) : Controller Int :=
  env.simple (bytes "STATUS") 1024 fun buffer =>
    if checkStatus buffer ssid < 0 then print (bytes "Please check wifi name or password\n")
    else print (bytes "Wifi connected\n")

def scanResults : Controller Int :=
  if env.opened then do
    let ok ← env.command (bytes "SCAN") (env.array 2)
    if ok.1 < 0 then pure (-1)
    else do
      print (bytes "scan wifi status: " ++ cStr ok.2 ++ bytes "\n")
      env.simple (bytes "SCAN_RESULTS") 4096 fun buff =>
        print (bytes "List SSID: \n" ++ parseToWifiName (cStr buff))
  else do
    print (bytes "Could not get ctrl interface!\n")
    pure (-1)

/-- The psk from standard input. -/
def readPsk : Controller (Option Bytes) := do
  print (bytes "Reading psk from stdin\n")
  match ← fgets sizeofPointer with
  | none => pure none
  | some line =>
    let buff ← put (env.array 64) 0 (line ++ [0])
    let buff ← put buff (sizeofPointer - 1) [0]
    let buff ← endLine buff
    pure (some (cStr buff))

/-- The branch of `config_wifi` for too large an id: the id that is used. -/
def limitId (netid : Int) : Controller Int :=
  if netid > networkIdMax then do
    let _ ← env.removeNetwork 0
    let _ ← env.saveConfig
    let _ ← env.reconfigure
    pure networkIdMax
  else pure netid

/-- `config_wifi` behind the check of the psk. -/
def connect (ssid psk : Bytes) : Controller Int := do
  let netid ← env.addNetwork
  let netid ← env.limitId netid
  let _ ← env.setNetwork netid (bytes "ssid") ssid
  let _ ← env.setNetwork netid (bytes "psk") psk
  let _ ← env.selectNetwork netid
  let _ ← env.status ssid
  pure 0

/-- The check of the psk and what follows. -/
def checkPsk (ssid psk : Bytes) : Controller Int :=
  if psk.length < 8 ∨ psk.length > 63 then do
    print (bytes "Size: " ++ decimal psk.length ++ bytes "\nPsk must be 8...63 characters\n\n")
    pure (-1)
  else env.connect ssid psk

/-- `config_wifi` on its arguments. -/
def configWifi : List Bytes → Controller Int
  | [] => do
    print (bytes "ex: sudo wpa_ctrl -c \"ALL LUMI\" lumivn274\n")
    pure (-1)
  | ssid :: psk :: _ => env.checkPsk ssid psk
  | [ssid] => do
    match ← env.readPsk with
    | none =>
      print (bytes "Failed to read psk from stdin\n")
      pure (-1)
    | some psk => env.checkPsk ssid psk

end Env

end Wpa
end LinuxPrograming
