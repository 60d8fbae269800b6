import DarkUI.Foundation.Escapes
import DarkUI.Foundation.Lines
import DarkUI.Foundation.Redirect

/-! # The Wi-Fi configuration

A network is joined with the name that was scanned and the password that was typed. Both are
escaped into arrays, the name and the password for the command that hashes them, and the name
(and the password, if nothing was hashed) for the file that is written.
-/

namespace DarkUI.Wifi

open Text

def wifiSsidLen : Nat := 33
def wifiPassLen : Nat := 128

/-- The loop of `Wifi_confEscape` from position `o` of an array on. -/
def confEscapeFrom (outlen : Nat) : Nat → CString → CString
  | _, [] => []
  | o, c :: rest =>
      if o + 2 < outlen then
        if c = '\n' ∨ c = '\r' then confEscapeFrom outlen o rest
        else if c = '"' ∨ c = '\\' then
          if outlen ≤ o + 1 + 1 then ['\\'] else '\\' :: c :: confEscapeFrom outlen (o + 1 + 1) rest
        else if outlen ≤ o + 1 then [] else c :: confEscapeFrom outlen (o + 1) rest
      else []

def confEscape (outlen : Nat) (s : CString) : CString := confEscapeFrom outlen 0 s

/-- The loop of `Wifi_shellQuote` from position `o` of an array on. -/
def shellQuoteFrom (outlen : Nat) : Nat → CString → CString
  | _, [] => []
  | o, c :: rest =>
      if outlen ≤ o + 6 then []
      else if c = '\'' then "'\\''".toList ++ shellQuoteFrom outlen (o + 4) rest
      else c :: shellQuoteFrom outlen (o + 1) rest

def shellQuote (outlen : Nat) (s : CString) : CString :=
  if outlen < 3 then [] else '\'' :: shellQuoteFrom outlen 1 s ++ ['\'']

/-- The loop that fills `ssid_clean` from position `sc` on. -/
def ssidCleanFrom : Nat → CString → CString
  | _, [] => []
  | sc, c :: rest =>
      if sc + 1 < wifiSsidLen then
        if c = '\n' ∨ c = '\r' then ssidCleanFrom sc rest else c :: ssidCleanFrom (sc + 1) rest
      else []

def ssidQSize : Nat := wifiSsidLen * 4 + 4
def passQSize : Nat := wifiPassLen * 4 + 4

/-- The command that `Wifi_writeConfig` reads the hashed network from. -/
def passphraseCommand (ssid password : CString) : CString :=
  bounded (ssidQSize + passQSize + 64)
    ("wpa_passphrase ".toList ++ shellQuote ssidQSize (ssidCleanFrom 0 ssid) ++ ' ' ::
      shellQuote passQSize password ++ " 2>/dev/null".toList)

/-- What is written from the name or the password. -/
inductive Key
  | ssid
  | psk
  deriving DecidableEq, Repr

def Key.name : Key → CString
  | .ssid => "ssid".toList
  | .psk => "psk".toList

/-- What is printed into the file at once: a text of the program's own, a setting with an escaped
value, or a line that was read from the command. -/
inductive Written
  | verbatim (text : CString)
  | setting (key : Key) (value : CString)
  | copied (line : CString)

def Written.text : Written → CString
  | .verbatim text => text
  | .setting key value => '\t' :: key.name ++ "=\"".toList ++ value ++ "\"\n".toList
  | .copied line => line

/-- What opens, and what the command prints if it is run. -/
structure Host where
  create : Bool
  appendOpen : Bool
  appendHashed : Bool
  appendPlain : Bool
  popen : CString → Option CString

/-- The result of `Wifi_writeConfig`, what it writes, and the commands it runs. -/
structure Outcome where
  result : Bool
  written : List Written
  commands : List CString

def header : Written := .verbatim "ctrl_interface=/var/run/wpa_supplicant\nupdate_config=1\n".toList

def networkLine : Written := .verbatim "network=\x7b\n".toList

def isIndent (c : Char) : Bool := c == ' ' || c == '\t'

/-- What becomes of a line of the command, whose own name for the network is not trusted. -/
def copyLine (ssidEsc line : CString) : List Written :=
  let trimmed := line.dropWhile isIndent
  if "ssid=".toList.isPrefixOf trimmed then []
  else if "network=\x7b".toList.isPrefixOf trimmed then [.copied line, .setting .ssid ssidEsc]
  else [.copied line]

def writeConfig (host : Host) (ssid password : CString) (isOpen : Bool) : Outcome :=
  if !host.create then ⟨false, [], []⟩
  else
    let ssidEsc := confEscape (wifiSsidLen * 2) ssid
    if isOpen then
      if !host.appendOpen then ⟨false, [header], []⟩
      else
        ⟨true, [header, networkLine, .setting .ssid ssidEsc,
          .verbatim "\tkey_mgmt=NONE\n\x7d\n".toList], []⟩
    else
      let cmd := passphraseCommand ssid password
      let lines := ((host.popen cmd).map (pieces 256)).getD []
      let hashed := if host.appendHashed then lines.flatMap (copyLine ssidEsc) else []
      if lines ≠ [] then ⟨true, header :: hashed, [cmd]⟩
      else if !host.appendPlain then ⟨false, [header], [cmd]⟩
      else
        ⟨true, [header, networkLine, .setting .ssid ssidEsc,
          .setting .psk (confEscape (wifiPassLen * 2) password), .verbatim "\x7d\n".toList], [cmd]⟩

end DarkUI.Wifi
