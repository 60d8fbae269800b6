import DarkUI.Common.Keyboard
import DarkUI.Foundation.Run
import DarkUI.Wifi.BootScript
import DarkUI.Wifi.Scan

/-! # The Wi-Fi tool

What one frame of the loop in `wifi.c` does to the list, to the selection and to the credentials
that are kept, and which networks it tries to join.
-/

namespace DarkUI.Wifi

open Text Run

def wifiVisibleRows : Int := 9

/-- What `wpa_cli` prints, if it runs, and the order that `qsort` leaves equal signals in. -/
structure ScanRun where
  output : Option CString
  rank : Network → Nat

/-- `Wifi_scanResults` -/
def ScanRun.results (scan : ScanRun) : Option (List Network) :=
  match scan.output with
  | none => some []
  | some output => scanResults scan.rank output

/-- What `Wifi_connect` finds: the files and commands of the configuration, the answers of
`Wifi_stateCompleted`, `Wifi_hasIPv4` and `Wifi_isOn`, and whether the credentials can be kept. -/
structure Link where
  host : Host
  completed : Nat → Bool
  leased : Nat → Bool
  isOn : Bool
  persists : Bool

/-- The result of `Wifi_connect`. -/
def Link.connects (link : Link) (ssid password : CString) (isOpen : Bool) : Bool :=
  (writeConfig link.host ssid password isOpen).result && (List.range 30).any link.completed &&
    ((List.range 20).any link.leased && link.isOn)

/-- A call of `Wifi_connect`. -/
structure Call where
  ssid : CString
  password : CString
  isOpen : Bool
  /-- It was made by `Wifi_enable`. -/
  enabling : Bool
  /-- It went through, and the credentials were kept. -/
  kept : Bool
  deriving DecidableEq

/-- The variables of `main`, with the files and the calls that were made. -/
structure Tool where
  networks : List Network
  selected : Int
  listTop : Int
  statusLine : CString
  quit : Bool
  files : Files
  calls : List Call

/-- What a frame reads: the pad, and what comes of the branches that ask for more. -/
structure Frame where
  pad : Pad
  /-- The scan of `BTN_Y`. -/
  rescan : ScanRun
  isOn : Bool
  /-- `Wifi_connect` in `Wifi_enable`. -/
  enabling : Link
  /-- The scan of `BTN_X`. -/
  scan : ScanRun
  /-- The text of `Wifi_keyboard`, unless it is left. -/
  password : Option CString
  joining : Link

namespace Tool

variable (env : Option CString) (t : Tool) (frame : Frame)

/-- `network_count` -/
def networkCount : Int := t.networks.length

/-- The variables before the loop. -/
def start (files : Files) (networks : List Network) : Tool :=
  ⟨networks, 0, 0, [], false, files, []⟩

/-- `Wifi_connect`, which keeps the credentials if it goes through. -/
def connect (enabling : Bool) (ssid password : CString) (isOpen : Bool) (link : Link) : Tool :=
  let kept := link.connects ssid password isOpen && link.persists
  { t with
    files := if kept then persist env t.files ssid (some password) else t.files
    calls := t.calls ++ [⟨ssid, password, isOpen, enabling, kept⟩] }

/-- `Wifi_enable` -/
def enable (link : Link) : Tool :=
  match loadPersisted env t.files with
  | none => t
  | some (ssid, password) => t.connect env true ssid password (password.head?.isNone) link

/-- `BTN_B` -/
def leave : Tool := if has frame.pad.justPressed .b then { t with quit := true } else t

/-- `BTN_Y` -/
def rescan : Option Tool :=
  if has frame.pad.justPressed .y then
    frame.rescan.results.map fun networks =>
      let count : Int := networks.length
      { t with
        networks := networks
        selected :=
          if t.selected ≥ count then (if count > 0 then count - 1 else 0) else t.selected
        statusLine := [] }
  else some t

/-- `BTN_X` -/
def toggle : Option Tool :=
  if has frame.pad.justPressed .x then
    (if frame.isOn then some { t with networks := [] }
      else frame.scan.results.map fun networks =>
        { t.enable env frame.enabling with networks := networks }).map fun t =>
      { t with selected := 0, listTop := 0, statusLine := [] }
  else some t

/-- `BTN_UP` -/
def up : Tool :=
  if t.networkCount > 0 ∧ Keyboard.justRepeated frame.pad .dpadUp .analogUp then
    { t with
      selected := (t.selected - 1 + t.networkCount).tmod t.networkCount
      statusLine := [] }
  else t

/-- `BTN_DOWN` -/
def down : Tool :=
  if t.networkCount > 0 ∧ Keyboard.justRepeated frame.pad .dpadDown .analogDown then
    { t with
      selected := (t.selected + 1).tmod t.networkCount
      statusLine := [] }
  else t

/-- The password that `BTN_A` goes on with. -/
def proceed (net : Network) : Option CString := if net.isOpen then some [] else frame.password

/-- What becomes of the status line. -/
def status (ok : Bool) (ssid : CString) : CString :=
  bounded 128
    (if ok then "Connected to ".toList ++ ssid else "Failed to connect to ".toList ++ ssid)

/-- `BTN_A`. An index that is no network is undefined. -/
def join : Option Tool :=
  if t.networkCount > 0 ∧ has frame.pad.justPressed .a then
    (if 0 ≤ t.selected then t.networks[t.selected.toNat]? else none).map fun net =>
      let ssidCopy := bounded wifiSsidLen net.ssid
      match proceed frame net with
      | none => t
      | some password =>
          { t.connect env false ssidCopy password net.isOpen frame.joining with
            statusLine := status (frame.joining.connects ssidCopy password net.isOpen) ssidCopy }
  else some t

/-- The three lines that keep the selection on the screen. -/
def scroll : Tool :=
  let followed := if t.selected < t.listTop then t.selected else t.listTop
  let lowered :=
    if t.networkCount > 0 ∧ t.selected ≥ followed + wifiVisibleRows then
      t.selected - wifiVisibleRows + 1
    else followed
  { t with listTop := if lowered < 0 then 0 else lowered }

/-- One frame of the loop. -/
def step (frame : Frame) : Option Tool :=
  ((t.leave frame).rescan frame).bind fun t =>
    (t.toggle env frame).bind fun t =>
      (((t.up frame).down frame).join env frame).map scroll

/-- The rows that are drawn, by their indices. -/
def drawn : List Nat :=
  (List.range t.networks.length).filter fun i =>
    decide (t.listTop ≤ i ∧ (i : Int) < min t.networkCount (t.listTop + wifiVisibleRows))

/-- What a frame can find: a password that can be typed, and lists without carriage returns,
which `wpa_cli` prints as two characters. -/
structure Possible (frame : Frame) : Prop where
  typed : ∀ password ∈ frame.password, wifiKeyboard.Enterable password
  rescanned : ∀ output ∈ frame.rescan.output, '\r' ∉ output
  scanned : ∀ output ∈ frame.scan.output, '\r' ∉ output

/-- The states of the loop. -/
def Runs (t u : Tool) : Prop :=
  Reaches (Tool.step env) (fun t frame => t.quit = false ∧ Possible frame) t u

end Tool

end DarkUI.Wifi
