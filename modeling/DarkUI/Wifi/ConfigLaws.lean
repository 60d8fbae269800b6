import DarkUI.Wifi.Config
import Mathlib.Tactic.SplitIfs
import Mathlib.Tactic.Tauto

/-! # Credentials stay in their quotes

The escapers write whole groups or none, and a name and a password of the lengths that are read
fit. So the command is one word for each of them, and each line that is written for one of them
reads back as it.
-/

namespace DarkUI.Wifi

open Text

def isLineEnd (c : Char) : Bool := c == '\n' || c == '\r'

/-- A text without its line ends. -/
def stripped (s : CString) : CString := s.filter fun c => !isLineEnd c

/-- The characters that stand behind a backslash in a quoted value. -/
def isQuotable (c : Char) : Bool := c == '"' || c == '\\'

/-- What the text between two quotes stands for. -/
def quotedValue : CString → Option CString
  | '"' :: rest =>
      if rest.getLast? = some '"' then unescape isQuotable rest.dropLast else none
  | _ => none

/-- The name and the value of a line of the file. -/
def readSetting (line : CString) : Option (CString × CString) :=
  (splitFirst '=' (line.dropWhile isIndent)).bind fun setting =>
    (quotedValue setting.2).map fun value => (setting.1, value)

theorem isLineEnd_iff (c : Char) : isLineEnd c ↔ c = '\n' ∨ c = '\r' := by
  simp [isLineEnd]

theorem isQuotable_iff (c : Char) : isQuotable c ↔ c = '"' ∨ c = '\\' := by
  simp [isQuotable]

theorem stripped_cons (c : Char) (s : CString) :
    stripped (c :: s) = if isLineEnd c then stripped s else c :: stripped s := by
  unfold stripped
  rw [List.filter_cons]
  cases isLineEnd c <;> rfl

/-! ## The escapers -/

def confGroup (c : Char) : CString :=
  if isLineEnd c then [] else if isQuotable c then ['\\', c] else [c]

theorem confEscapeFrom_eq_fill (outlen o : Nat) (s : CString) :
    confEscapeFrom outlen o s = fill (fun o => o + 2 < outlen) confGroup o s := by
  induction s generalizing o with
  | nil => rfl
  | cons c s ih =>
      by_cases hroom : o + 2 < outlen
      · rw [confEscapeFrom, if_pos hroom, fill, if_pos (decide_eq_true hroom), ih, ih, ih]
        simp only [confGroup, ← isLineEnd_iff, ← isQuotable_iff]
        split_ifs with hline hquote
        · rfl
        · omega
        · rfl
        · omega
        · rfl
      · rw [confEscapeFrom, if_neg hroom, fill, if_neg (by simpa using hroom)]

theorem flatMap_confGroup (s : CString) :
    s.flatMap confGroup = backslashed isQuotable (stripped s) := by
  induction s with
  | nil => rfl
  | cons c s ih =>
      rw [List.flatMap_cons, ih, stripped_cons, confGroup]
      by_cases hline : isLineEnd c
      · rw [if_pos hline, if_pos hline]
        rfl
      · rw [if_neg hline, if_neg hline]
        rfl

theorem length_confGroup_le (c : Char) : (confGroup c).length ≤ 2 := by
  unfold confGroup
  split_ifs <;> simp

theorem confEscape_eq {outlen : Nat} {s : CString} (hlength : 2 * s.length < outlen) :
    confEscape outlen s = backslashed isQuotable (stripped s) := by
  rw [confEscape, confEscapeFrom_eq_fill, ← flatMap_confGroup]
  refine fill_eq _ _ length_confGroup_le fun position hposition => ?_
  simp only [decide_eq_true_eq]
  omega

def quoteGroup (c : Char) : CString := if c = '\'' then "'\\''".toList else [c]

theorem shellQuoteFrom_eq_fill (outlen o : Nat) (s : CString) :
    shellQuoteFrom outlen o s = fill (fun o => o + 6 < outlen) quoteGroup o s := by
  induction s generalizing o with
  | nil => rfl
  | cons c s ih =>
      by_cases hroom : o + 6 < outlen
      · rw [shellQuoteFrom, if_neg (by omega), fill, if_pos (decide_eq_true hroom), ih, ih,
          quoteGroup]
        by_cases hquote : c = '\''
        · have hlength : "'\\''".toList.length = 4 := by decide
          rw [if_pos hquote, if_pos hquote, hlength]
        · rw [if_neg hquote, if_neg hquote]
          rfl
      · rw [shellQuoteFrom, if_pos (by omega), fill, if_neg (by simpa using hroom)]

theorem length_quoteGroup_le (c : Char) : (quoteGroup c).length ≤ 4 := by
  unfold quoteGroup
  split_ifs <;> simp

theorem shellQuote_eq {outlen : Nat} {s : CString} (hlength : 4 * s.length + 3 < outlen) :
    shellQuote outlen s = Shell.quote s := by
  rw [shellQuote, if_neg (by omega), shellQuoteFrom_eq_fill]
  refine congrArg (fun text => '\'' :: text ++ ['\'']) ?_
  refine fill_eq _ _ length_quoteGroup_le fun position hposition => ?_
  simp only [decide_eq_true_eq]
  omega

theorem ssidCleanFrom_eq {sc : Nat} {s : CString} (hlength : sc + s.length < wifiSsidLen) :
    ssidCleanFrom sc s = stripped s := by
  induction s generalizing sc with
  | nil => rfl
  | cons c s ih =>
      rw [List.length_cons] at hlength
      rw [ssidCleanFrom, if_pos (by omega), ih (by omega), ih (by omega), stripped_cons]
      simp only [isLineEnd_iff]

/-! ## The command -/

/-- A name and a password of the lengths that are read. -/
structure Credentials where
  ssid : Buffer wifiSsidLen
  password : Buffer wifiPassLen

namespace Credentials

variable (credentials : Credentials)

/-- What the command is to be read as. -/
def command : Shell.SimpleCommand where
  words := ["wpa_passphrase".toList, stripped credentials.ssid.1, credentials.password.1]
  redirections := [⟨"2".toList, "/dev/null".toList⟩]

def get : Key → CString
  | .ssid => credentials.ssid.1
  | .psk => credentials.password.1

theorem length_ssid_le : credentials.ssid.1.length ≤ 32 := Nat.le_of_lt_succ credentials.ssid.2

theorem length_password_le : credentials.password.1.length ≤ 127 :=
  Nat.le_of_lt_succ credentials.password.2

end Credentials

theorem length_stripped_le (s : CString) : (stripped s).length ≤ s.length :=
  List.length_filter_le _ _

theorem length_quote_le (s : CString) : (Shell.quote s).length ≤ 4 * s.length + 2 := by
  have hescape : (Shell.escape s).length ≤ 4 * s.length := by
    induction s with
    | nil => exact Nat.le_refl _
    | cons c s ih =>
        have hgroup := length_quoteGroup_le c
        rw [Shell.escape_cons, List.length_append, List.length_cons]
        unfold quoteGroup at hgroup
        omega
  simp only [Shell.quote, List.length_cons, List.length_append, List.length_nil]
  omega

/-- Two quoted words between a plain one and a redirection. -/
theorem simpleCommand_passphrase (first second : CString) :
    Shell.simpleCommand ("wpa_passphrase ".toList ++ Shell.quote first ++
        ' ' :: Shell.quote second ++ " 2>/dev/null".toList) =
      some ⟨["wpa_passphrase".toList, first, second], [⟨"2".toList, "/dev/null".toList⟩]⟩ := by
  have hname : "wpa_passphrase ".toList = "wpa_passphrase".toList ++ [' '] := by decide
  have htail : " 2>/dev/null".toList = ' ' :: '2' :: '>' :: "/dev/null".toList := by decide
  have hdigit : ['2'] = "2".toList := by decide
  have hplain : "wpa_passphrase".toList.all Shell.isPlain = true := by decide
  have htarget : "/dev/null".toList.all Shell.isPlain = true := by decide
  -- the digit is a word of its own, as a blank is in front of it
  have hread := Shell.simpleCommand_quoted "wpa_passphrase".toList '2' "/dev/null".toList
    (List.all_eq_true.mp hplain) (by decide) (by decide) (by decide)
    (List.all_eq_true.mp htarget) (by decide) [first, second]
  rw [hdigit] at hread
  rw [hname, htail, ← hread]
  simp only [List.flatMap_cons, List.flatMap_nil, List.append_nil, List.append_assoc,
    List.cons_append, List.nil_append]

theorem passphraseCommand_eq (credentials : Credentials) :
    passphraseCommand credentials.ssid.1 credentials.password.1 =
      "wpa_passphrase ".toList ++ Shell.quote (stripped credentials.ssid.1) ++
        ' ' :: Shell.quote credentials.password.1 ++ " 2>/dev/null".toList := by
  have hssid := credentials.length_ssid_le
  have hpassword := credentials.length_password_le
  have hstripped := length_stripped_le credentials.ssid.1
  have hquoteSsid := length_quote_le (stripped credentials.ssid.1)
  have hquotePassword := length_quote_le credentials.password.1
  have hname : "wpa_passphrase ".toList.length = 15 := by decide
  have htail : " 2>/dev/null".toList.length = 12 := by decide
  have hssidSize : ssidQSize = 136 := rfl
  have hpassSize : passQSize = 516 := rfl
  rw [passphraseCommand, ssidCleanFrom_eq (by rw [Nat.zero_add]; exact credentials.ssid.2),
    shellQuote_eq (by omega), shellQuote_eq (by omega)]
  apply bounded_of_lt
  simp only [List.length_append, List.length_cons]
  omega

theorem simpleCommand_passphraseCommand (credentials : Credentials) :
    Shell.simpleCommand (passphraseCommand credentials.ssid.1 credentials.password.1) =
      some credentials.command := by
  rw [passphraseCommand_eq]
  exact simpleCommand_passphrase _ _

/-! ## The file -/

theorem lineEnd_not_mem_stripped {c : Char} (hc : isLineEnd c) (s : CString) : c ∉ stripped s := by
  intro hmem
  have hkept := (List.mem_filter.mp hmem).2
  rw [hc] at hkept
  cases hkept

/-- The line of a setting whose value is escaped in full. -/
def settingLine (key : Key) (s : CString) : CString :=
  '\t' :: key.name ++ '=' :: '"' :: backslashed isQuotable s ++ ['"']

theorem text_setting (key : Key) (s : CString) :
    (Written.setting key (backslashed isQuotable s)).text = settingLine key s ++ ['\n'] := by
  have hopening : "=\"".toList = ['=', '"'] := by decide
  have hclosing : "\"\n".toList = ['"', '\n'] := by decide
  rw [Written.text, hopening, hclosing, settingLine]
  simp

theorem lineEnd_not_mem_settingLine (key : Key) {c : Char} (s : CString) (hc : isLineEnd c) :
    c ∉ settingLine key (stripped s) := by
  have hslash : c ≠ '\\' := by
    rintro rfl
    cases hc
  have hvalue : c ∉ backslashed isQuotable (stripped s) :=
    not_mem_backslashed hslash (lineEnd_not_mem_stripped hc s)
  -- neither the key nor what is around it has a line ending
  have hname : (('\t' :: '=' :: '"' :: key.name).all fun d => !isLineEnd d) = true := by
    cases key <;> decide
  intro hmem
  have hother : c ∈ '\t' :: '=' :: '"' :: key.name := by
    simp only [settingLine, List.mem_append, List.mem_cons, List.not_mem_nil, or_false] at hmem ⊢
    tauto
  have hnot := List.all_eq_true.mp hname c hother
  rw [hc] at hnot
  cases hnot

theorem readSetting_settingLine (key : Key) (s : CString) :
    readSetting (settingLine key s) = some (key.name, s) := by
  have hindent : (settingLine key s).dropWhile isIndent =
      key.name ++ '=' :: ('"' :: backslashed isQuotable s ++ ['"']) := by
    cases key <;> simp [settingLine, Key.name, isIndent]
  have hname : '=' ∉ key.name := by cases key <;> decide
  have hquoted : quotedValue ('"' :: backslashed isQuotable s ++ ['"']) = some s := by
    rw [List.cons_append, quotedValue, if_pos (by simp), List.dropLast_concat]
    exact unescape_backslashed rfl s
  rw [readSetting, hindent, splitFirst_append hname, Option.bind_some, hquoted]
  rfl

/-- A line of the command begins a network. -/
def isNetworkLine (line : CString) : Bool :=
  "network=\x7b".toList.isPrefixOf (line.dropWhile isIndent)

/-- The settings that are to be written, where the command prints the given lines. -/
def keysFor (host : Host) (isOpen : Bool) (lines : List CString) : List Key :=
  if !host.create then []
  else if isOpen then if host.appendOpen then [.ssid] else []
  else if lines ≠ [] then
    if host.appendHashed then (lines.filter isNetworkLine).map fun _ => .ssid else []
  else if host.appendPlain then [.ssid, .psk]
  else []

/-- The texts that are the same for all networks. -/
def ownTexts : List Written :=
  [header, networkLine, .verbatim "\tkey_mgmt=NONE\n\x7d\n".toList, .verbatim "\x7d\n".toList]

namespace Outcome

/-- The lines that the commands print. -/
def lines (outcome : Outcome) (host : Host) : List CString :=
  (outcome.commands.filterMap host.popen).flatMap (pieces 256)

/-- The settings in the order in which they are written. -/
def keys (outcome : Outcome) : List Key :=
  outcome.written.filterMap fun
    | .setting key _ => some key
    | .verbatim _ | .copied _ => none

end Outcome

/-- A network that is to be joined with a password has one command run, which is read as it was
meant. Its name is written into the file, with the password unless the command has printed
one, each as one line from which it is read back, and nothing else is written but the texts that
are the same for all networks and lines of the command. -/
structure Safe (host : Host) (credentials : Credentials) (isOpen : Bool) (outcome : Outcome) :
    Prop where
  commands : outcome.commands.map Shell.simpleCommand =
    if host.create && !isOpen then [some credentials.command] else []
  keys : outcome.keys = keysFor host isOpen (outcome.lines host)
  settings : ∀ key value, .setting key value ∈ outcome.written →
    ∃ line, (Written.setting key value).text = line ++ ['\n'] ∧ '\n' ∉ line ∧ '\r' ∉ line ∧
      readSetting line = some (key.name, stripped (credentials.get key))
  texts : ∀ text, .verbatim text ∈ outcome.written → .verbatim text ∈ ownTexts
  copied : ∀ line, .copied line ∈ outcome.written →
    line ∈ outcome.lines host ∧ ¬"ssid=".toList <+: line.dropWhile isIndent

/-- A setting has the name or the password for its value, escaped in full, and the other texts are
the program's own or lines of the command. -/
def Written.Sound (credentials : Credentials) (lines : List CString) : Written → Prop
  | .setting key value => value = backslashed isQuotable (stripped (credentials.get key))
  | .verbatim text => .verbatim text ∈ ownTexts
  | .copied line => line ∈ lines ∧ ¬"ssid=".toList <+: line.dropWhile isIndent

theorem ssid_sound (credentials : Credentials) (lines : List CString) : (Written.setting .ssid
    (confEscape (wifiSsidLen * 2) credentials.ssid.1)).Sound credentials lines :=
  confEscape_eq (by have := credentials.ssid.2; omega)

theorem psk_sound (credentials : Credentials) (lines : List CString) : (Written.setting .psk
    (confEscape (wifiPassLen * 2) credentials.password.1)).Sound credentials lines :=
  confEscape_eq (by have := credentials.password.2; omega)

theorem copyLine_sound (credentials : Credentials) {lines : List CString} {line : CString}
    (hline : line ∈ lines) :
    ∀ written ∈ copyLine (confEscape (wifiSsidLen * 2) credentials.ssid.1) line,
      written.Sound credentials lines := by
  unfold copyLine
  dsimp only
  split_ifs with hssid hnetwork
  · exact List.forall_mem_nil _
  · have hcopied : (Written.copied line).Sound credentials lines :=
      ⟨hline, mt List.isPrefixOf_iff_prefix.mpr hssid⟩
    simpa using ⟨hcopied, ssid_sound credentials lines⟩
  · have hcopied : (Written.copied line).Sound credentials lines :=
      ⟨hline, mt List.isPrefixOf_iff_prefix.mpr hssid⟩
    simpa using hcopied

/-- The settings among what a line is copied to. -/
theorem keys_copyLine (ssidEsc line : CString) :
    (⟨true, copyLine ssidEsc line, []⟩ : Outcome).keys =
      if isNetworkLine line then [.ssid] else [] := by
  unfold copyLine isNetworkLine
  dsimp only
  split_ifs with hssid hnetwork hnetwork
  · -- a line begins with one of the two names only
    obtain ⟨_, hs⟩ := List.isPrefixOf_iff_prefix.mp hssid
    obtain ⟨_, hn⟩ := List.isPrefixOf_iff_prefix.mp hnetwork
    rw [← hs] at hn
    cases hn
  · rfl
  · rfl
  · rfl

theorem keys_flatMap_copyLine (ssidEsc : CString) (lines : List CString) :
    (⟨true, lines.flatMap (copyLine ssidEsc), []⟩ : Outcome).keys =
      (lines.filter isNetworkLine).map fun _ => .ssid := by
  induction lines with
  | nil => rfl
  | cons line rest ih =>
      have hline := keys_copyLine ssidEsc line
      unfold Outcome.keys at hline ih ⊢
      rw [List.flatMap_cons, List.filterMap_append, hline, ih, List.filter_cons]
      split <;> rfl

theorem lines_eq (host : Host) (result : Bool) (written : List Written) (cmd : CString) :
    (⟨result, written, [cmd]⟩ : Outcome).lines host =
      ((host.popen cmd).map (pieces 256)).getD [] := by
  unfold Outcome.lines
  cases hcmd : host.popen cmd <;> simp [hcmd]

theorem writeConfig_sound (host : Host) (credentials : Credentials) (isOpen : Bool) :
    let outcome := writeConfig host credentials.ssid.1 credentials.password.1 isOpen
    ∀ written ∈ outcome.written, written.Sound credentials (outcome.lines host) := by
  have hssid := ssid_sound credentials
  have hpsk := psk_sound credentials
  have hown (lines : List CString) : ∀ written ∈ ownTexts, written.Sound credentials lines := by
    simp [ownTexts, header, networkLine, Written.Sound]
  have hheader (lines : List CString) := hown lines header (by simp [ownTexts])
  have hnetwork (lines : List CString) := hown lines networkLine (by simp [ownTexts])
  have hopen (lines : List CString) :=
    hown lines (.verbatim "\tkey_mgmt=NONE\n\x7d\n".toList) (by simp [ownTexts])
  have hend (lines : List CString) := hown lines (.verbatim "\x7d\n".toList) (by simp [ownTexts])
  unfold writeConfig
  dsimp only
  split_ifs
  · exact List.forall_mem_nil _
  · simpa using hheader _
  · simpa using ⟨hheader _, hnetwork _, hssid _, hopen _⟩
  · dsimp only
    rw [lines_eq, List.forall_mem_cons]
    refine ⟨hheader _, fun written hwritten => ?_⟩
    obtain ⟨line, hline, hcopied⟩ := List.mem_flatMap.mp hwritten
    exact copyLine_sound credentials hline written hcopied
  · simpa using hheader _
  · simpa using hheader _
  · simpa using ⟨hheader _, hnetwork _, hssid _, hpsk _, hend _⟩

/-- The settings that are written, by what opens and whether the command prints anything. -/
theorem writeConfig_keys (host : Host) (ssid password : CString) (isOpen : Bool) :
    (writeConfig host ssid password isOpen).keys =
      keysFor host isOpen ((writeConfig host ssid password isOpen).lines host) := by
  cases hcreate : host.create with
  | false => simp [writeConfig, keysFor, hcreate, Outcome.keys]
  | true =>
      cases isOpen with
      | true =>
          unfold writeConfig keysFor
          simp only [hcreate, Bool.not_true, Bool.false_eq_true, if_false, if_true]
          cases host.appendOpen <;> rfl
      | false =>
          unfold writeConfig keysFor
          simp only [hcreate, Bool.not_true, Bool.false_eq_true, if_false]
          by_cases hlines : ((host.popen (passphraseCommand ssid password)).map
              (pieces 256)).getD [] = []
          · simp only [hlines, ne_eq, not_true_eq_false, if_false]
            cases happend : host.appendPlain
            · simp only [Bool.not_false, if_true, lines_eq, hlines]
              rfl
            · simp only [Bool.not_true, Bool.false_eq_true, if_false, lines_eq, hlines]
              rfl
          · simp only [ne_eq, hlines, not_false_eq_true, if_true, lines_eq]
            cases happend : host.appendHashed with
            | false => rfl
            | true => exact keys_flatMap_copyLine _ _

theorem writeConfig_commands (host : Host) (credentials : Credentials) (isOpen : Bool) :
    (writeConfig host credentials.ssid.1 credentials.password.1 isOpen).commands.map
        Shell.simpleCommand =
      if host.create && !isOpen then [some credentials.command] else [] := by
  have hcommand := simpleCommand_passphraseCommand credentials
  unfold writeConfig
  cases host.create with
  | false => rfl
  | true =>
      cases isOpen with
      | true => cases host.appendOpen <;> rfl
      | false =>
          -- however the file is written, the command was run
          dsimp only
          split_ifs <;> first | contradiction | exact congrArg (fun command => [command]) hcommand

/-- However the files and the command fare, nothing that was scanned or typed is read as
anything but the name and the password. -/
theorem writeConfig_safe (host : Host) (credentials : Credentials) (isOpen : Bool) :
    Safe host credentials isOpen
      (writeConfig host credentials.ssid.1 credentials.password.1 isOpen) where
  commands := writeConfig_commands host credentials isOpen
  keys := writeConfig_keys host _ _ isOpen
  settings key value hsetting := by
    have hvalue := writeConfig_sound host credentials isOpen _ hsetting
    rw [Written.Sound] at hvalue
    subst hvalue
    exact ⟨settingLine key (stripped (credentials.get key)), text_setting key _,
      lineEnd_not_mem_settingLine key _ rfl, lineEnd_not_mem_settingLine key _ rfl,
      readSetting_settingLine key _⟩
  texts text htext := writeConfig_sound host credentials isOpen _ htext
  copied line hline := writeConfig_sound host credentials isOpen _ hline

/-- A name and a password with both quotes, a backslash and a line break. -/
def quoted : Credentials where
  ssid := ⟨"O'Neil's \"5\\GHz\"\n".toList, by decide⟩
  password := ⟨"don't \"p\\q\"".toList, by decide⟩

/-- Everything opens, and the command prints nothing. -/
def unhashed : Host := ⟨true, true, true, true, fun _ => none⟩

theorem writeConfig_safe_quoted :
    let outcome := writeConfig unhashed quoted.ssid.1 quoted.password.1 false
    Safe unhashed quoted false outcome ∧
      outcome.commands = ["wpa_passphrase 'O'\\''Neil'\\''s \"5\\GHz\"' ".toList ++
        "'don'\\''t \"p\\q\"' 2>/dev/null".toList] ∧
      outcome.written.flatMap Written.text =
        "ctrl_interface=/var/run/wpa_supplicant\nupdate_config=1\nnetwork=\x7b\n".toList ++
        "\tssid=\"O'Neil's \\\"5\\\\GHz\\\"\"\n".toList ++
        "\tpsk=\"don't \\\"p\\\\q\\\"\"\n\x7d\n".toList :=
  ⟨writeConfig_safe unhashed quoted false, by decide +kernel, by decide +kernel⟩

end DarkUI.Wifi
