import DarkUI.Foundation.FixedPoint
import DarkUI.Input.Evdev
import DarkUI.Wifi.Config
import Mathlib.Data.List.Sort

/-! # The scan results

What `Wifi_scanResults` reads of the output of `wpa_cli`, and the list of networks it leaves.
-/

namespace DarkUI.Wifi

open Text FixedPoint

def wifiMaxNetworks : Nat := 32

/-- The number that the digits go on with. -/
def digits (value : Int) : CString → Int
  | [] => value
  | c :: rest => if c.isDigit then digits (10 * value + (c.toNat - '0'.toNat : Nat)) rest else value

/-- The number that `atoi` reads. It is undefined if it is no `int`. -/
def atoi (s : CString) : Int :=
  match s.dropWhile isSpace with
  | '-' :: rest => -digits 0 rest
  | '+' :: rest => digits 0 rest
  | rest => digits 0 rest

def isOpenFlags (flags : CString) : Bool :=
  if containsString flags "WPA".toList then false
  else if containsString flags "WEP".toList then false
  else if containsString flags "PSK".toList then false
  else if containsString flags "SAE".toList then false
  else true

/-- A line with all its fields, though the SSID may be empty. -/
structure Row where
  ssid : CString
  signal : Int
  isOpen : Bool
  deriving DecidableEq

/-- `WifiNetwork` -/
structure Network where
  ssid : CString
  signal : Int
  isOpen : Bool
  deriving DecidableEq

/-- The fields of a line, which end at its first four tabs. -/
def parseRow (line : CString) : Option Row := do
  let (_, rest) ← splitFirst '\t' line
  let (_, rest) ← splitFirst '\t' rest
  let (level, rest) ← splitFirst '\t' rest
  let (flags, ssid) ← splitFirst '\t' rest
  some ⟨ssid, atoi level, isOpenFlags flags⟩

/-- What is stored of an SSID. -/
def Row.stored (row : Row) : CString := bounded wifiSsidLen row.ssid

def Row.network (row : Row) : Network := ⟨row.stored, row.signal, row.isOpen⟩

/-- A row with an SSID: the network with this SSID is changed if the row is stronger, and a network
is added if there is none. -/
def note (row : Row) : List Network → List Network
  | [] => [row.network]
  | network :: rest =>
      if exactMatch network.ssid row.ssid then
        (if row.signal > network.signal then
          { network with signal := row.signal, isOpen := row.isOpen }
        else network) :: rest
      else network :: note row rest

/-- The rows of the output are read until the networks are as many as there may be. -/
def collect : List Row → List Network → Option (List Network)
  | [], networks => some networks
  | row :: rest, networks =>
      if networks.length < wifiMaxNetworks then
        if IsInt row.signal then
          collect rest (if row.ssid = [] then networks else note row networks)
        else none
      else some networks

/-- The lines of a text, read into an array of the given size, but for the first one. -/
def rowsRead (size : Nat) (output : CString) : List Row :=
  (pieces size output).tail.filterMap fun line => parseRow (readLine line)

/-- `Wifi_networkCmp`, with networks that compare equal by rank: `qsort` may leave them in any
order. -/
def networkLe (rank : Network → Nat) (a b : Network) : Prop :=
  b.signal < a.signal ∨ b.signal = a.signal ∧ rank a ≤ rank b

instance (rank : Network → Nat) : DecidableRel (networkLe rank) :=
  fun _ _ => inferInstanceAs (Decidable (_ ∨ _))

/-- `Wifi_scanResults`, with what was printed. A difference of two signals that is no `int` is
undefined, and `qsort` may compare any two. -/
def scanResults (rank : Network → Nat) (output : CString) : Option (List Network) :=
  (collect (rowsRead 512 output) []).bind fun networks =>
    if ∀ a ∈ networks, ∀ b ∈ networks, IsInt (b.signal - a.signal) then
      some (networks.insertionSort (networkLe rank))
    else none

end DarkUI.Wifi
