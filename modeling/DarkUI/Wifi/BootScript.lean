import DarkUI.Common.Utils
import DarkUI.Foundation.Filters
import DarkUI.Wifi.Config

/-! # Reconnecting on boot

The network that was joined last is kept in a file of two lines. The tool reads it, and so does
`wifi.sh`, which writes the configuration of the network with the tools of a shell. Both files
can be written here, in full.
-/

namespace DarkUI.Wifi

open Text Shell

/-! ## The credentials file -/

/-- The value of `SDCARD_PATH`, which has a default. -/
def sdcard : Option CString → CString
  | none | some [] => sdcardPath
  | some path => path

def persistPath (env : Option CString) : CString :=
  let dir := bounded maxPath (sdcard env ++ "/.userdata".toList)
  bounded maxPath (dir ++ "/wifi.txt".toList)

def loadPath (env : Option CString) : CString :=
  bounded maxPath (sdcard env ++ "/.userdata/wifi.txt".toList)

/-- The files that can be read, by their paths. -/
abbrev Files := CString → Option CString

/-- `Wifi_persist`, if the file can be written. -/
def persist (env : Option CString) (files : Files) (ssid : CString)
    (password : Option CString) : Files :=
  Function.update files (persistPath env)
    (some (ssid ++ '\n' :: password.getD [] ++ ['\n']))

/-- `Wifi_loadPersisted`, with what is in its arrays if it succeeds. -/
def loadPersisted (env : Option CString) (files : Files) : Option (CString × CString) :=
  match files (loadPath env) with
  | none => none
  | some content =>
      let lines := pieces 256 content
      let ssid := (lines[0]?.map fun line => bounded wifiSsidLen (readLine line)).getD []
      let password := (lines[1]?.map fun line => bounded wifiPassLen (readLine line)).getD []
      if ssid ≠ [] then some (ssid, password) else none

/-! ## The boot script -/

/-- What `wpa_passphrase` prints for a name and a password, if it is there. -/
abbrev Passphrase := CString → CString → CString

/-- What is read of a command that `popen` runs. -/
def Passphrase.popen (passphrase : Passphrase) (cmd : CString) : Option CString :=
  match simpleCommand cmd with
  | some ⟨[name, ssid, password], _⟩ =>
      if name = "wpa_passphrase".toList then some (passphrase ssid password) else some []
  | _ => some []

/-- The machine of the tool, where every file opens. -/
def Passphrase.host (passphrase : Passphrase) : Host :=
  ⟨true, true, true, true, passphrase.popen⟩

/-- The file that is left. -/
def Outcome.conf (outcome : Outcome) : CString := outcome.written.flatMap Written.text

/-- The two values that the script reads of the file. -/
def shSsid (conf : CString) : CString := substitution (trDelete ['\r', '\n'] (sedPrint 1 conf))

def shPsk (conf : CString) : CString := substitution (trDelete ['\r', '\n'] (sedPrint 2 conf))

/-- `sed 's/\\/\\\\/g; s/"/\\"/g'`, of one of the values. -/
def shEscape (value : CString) : CString :=
  substitution (sedSubstitute '"' ['\\', '"'] (sedSubstitute '\\' ['\\', '\\'] value))

def shSetting (key : Key) (value : CString) : CString :=
  '\t' :: key.name ++ "=\"".toList ++ value ++ "\"\n".toList

/-- The rules of the `awk` program, for a line without its newline. -/
def awkRules (escSsid record : CString) : CString :=
  if "ssid=".toList.isPrefixOf (record.dropWhile isIndent) then []
  else
    let printed := record ++ ['\n']
    if "network=\x7b".toList.isPrefixOf record then printed ++ shSetting .ssid escSsid else printed

def awk (escSsid text : CString) : CString :=
  (lines text).flatMap fun line => awkRules escSsid (trimTrailingNewlines line)

/-- The network that the script writes. -/
def shNetwork (passphrase : Passphrase) (ssid psk : CString) : CString :=
  let escSsid := shEscape ssid
  let escPsk := shEscape psk
  if psk ≠ [] then
    let wpaOut := substitution (passphrase ssid psk)
    if wpaOut ≠ [] then awk escSsid (wpaOut ++ ['\n'])
    else
      "network=\x7b\n".toList ++ shSetting .ssid escSsid ++ shSetting .psk escPsk ++
        "\x7d\n".toList
  else
    "network=\x7b\n".toList ++ shSetting .ssid escSsid ++ "\tkey_mgmt=NONE\n\x7d\n".toList

/-- `wifi.sh`, with the file it reads: the configuration it writes, unless it exits before. -/
def wifiSh (isUp : Bool) (conf : Option CString) (passphrase : Passphrase) : Option CString :=
  match conf with
  | none => none
  | some conf =>
      let ssid := shSsid conf
      let psk := shPsk conf
      if ssid = [] then none
      else if isUp then none
      else
        some (echo "ctrl_interface=/var/run/wpa_supplicant".toList ++
          echo "update_config=1".toList ++ shNetwork passphrase ssid psk)

end DarkUI.Wifi
