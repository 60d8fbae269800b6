import DarkUI.Foundation.LineEndings
import DarkUI.Wifi.BootScript
import DarkUI.Wifi.ConfigLaws

/-! # The script writes what the tool writes

Both read the same name and password of the file that was kept, and ask `wpa_passphrase` for the
same ones. The tool reads the answer in pieces and the script by lines, and what is made of a line
is the same where the tool finds in its pieces what the script finds in the line.
-/

namespace DarkUI.Wifi

open Text Shell KeyedLines

/-! ## The credentials file -/

/-- What can be told from a line of the file: no line ending and no NUL. -/
structure Clean (s : CString) : Prop where
  inLine : InLine s
  nul : '\x00' ∉ s

/-- Credentials that a network was joined with. -/
structure Joined extends Credentials where
  named : ssid.1 ≠ []
  ssid_clean : Clean ssid.1
  password_clean : Clean password.1

namespace Joined

variable (joined : Joined)

/-- The network is open just when it has no password. -/
def isOpen : Bool := joined.password.1.isEmpty

/-- The file as the tool leaves it. -/
def file : CString := unlines '\n' [joined.ssid.1, joined.password.1]

theorem inLine_rows : ∀ row ∈ [joined.ssid.1, joined.password.1], '\n' ∉ row := by
  intro row hrow
  simp only [List.mem_cons, List.not_mem_nil, or_false] at hrow
  rcases hrow with rfl | rfl
  · exact joined.ssid_clean.inLine.1
  · exact joined.password_clean.inLine.1

end Joined

theorem readLine_clean {s : CString} (hs : Clean s) : readLine (s ++ ['\n']) = s := by
  apply readLine_newline hs.inLine.1 hs.nul
  intro hlast
  exact hs.inLine.2 (List.mem_of_getLast? hlast)

theorem bounded_append (size : Nat) (s t : CString) :
    bounded size (bounded size s ++ t) = bounded size (s ++ t) := by
  simp only [bounded, List.take_append, List.take_take, List.length_take]
  congr 2
  · omega
  · omega

/-- The file is read from where it was written, however long the path is. -/
theorem loadPath_eq (env : Option CString) : loadPath env = persistPath env := by
  have hname : "/.userdata/wifi.txt".toList = "/.userdata".toList ++ "/wifi.txt".toList := by decide
  rw [loadPath, persistPath, bounded_append, hname, List.append_assoc]

theorem persist_file (env : Option CString) (files : Files) (joined : Joined) :
    persist env files joined.ssid.1 (some joined.password.1) (persistPath env) =
      some joined.file := by
  rw [persist, Function.update_self, Joined.file]
  simp

theorem loadPersisted_persist (env : Option CString) (files : Files) (joined : Joined) :
    loadPersisted env (persist env files joined.ssid.1 (some joined.password.1)) =
      some (joined.ssid.1, joined.password.1) := by
  have hssid := joined.length_ssid_le
  have hpassword := joined.length_password_le
  have hpieces : pieces 256 joined.file =
      [joined.ssid.1 ++ ['\n'], joined.password.1 ++ ['\n']] := by
    rw [Joined.file, pieces_unlines, List.flatMap_cons, List.flatMap_cons, List.flatMap_nil,
      pieces_row joined.ssid_clean.inLine.1 (by omega),
      pieces_row joined.password_clean.inLine.1 (by omega)]
    rfl
  have hfirst : bounded wifiSsidLen (readLine (joined.ssid.1 ++ ['\n'])) = joined.ssid.1 := by
    rw [readLine_clean joined.ssid_clean, bounded_of_lt joined.ssid.2]
  have hsecond : bounded wifiPassLen (readLine (joined.password.1 ++ ['\n'])) =
      joined.password.1 := by
    rw [readLine_clean joined.password_clean, bounded_of_lt joined.password.2]
  simp [loadPersisted, loadPath_eq, persist_file, hpieces, hfirst, hsecond, joined.named]

/-- A value that the script takes from a line of its own. -/
theorem substitution_line {s : CString} (hs : Clean s) :
    substitution (trDelete ['\r', '\n'] (s ++ ['\n'])) = s := by
  have hset : ∀ c ∈ ['\r', '\n'], c ∉ s := by
    intro c hc
    simp only [List.mem_cons, List.not_mem_nil, or_false] at hc
    rcases hc with rfl | rfl
    · exact hs.inLine.2
    · exact hs.inLine.1
  have hend : trDelete ['\r', '\n'] ['\n'] = [] := by decide
  rw [trDelete_append, hend, List.append_nil, trDelete_eq_self hset]
  exact substitution_eq_self hs.inLine.1 hs.nul

theorem shSsid_file (joined : Joined) : shSsid joined.file = joined.ssid.1 := by
  rw [shSsid, sedPrint, Joined.file, lines_unlines joined.inLine_rows]
  exact substitution_line joined.ssid_clean

theorem shPsk_file (joined : Joined) : shPsk joined.file = joined.password.1 := by
  rw [shPsk, sedPrint, Joined.file, lines_unlines joined.inLine_rows]
  exact substitution_line joined.password_clean

/-! ## The values -/

theorem stripped_clean {s : CString} (hs : Clean s) : stripped s = s := by
  rw [stripped, List.filter_eq_self]
  intro c hc
  have hnewline : c ≠ '\n' := fun heq => hs.inLine.1 (heq ▸ hc)
  have hreturn : c ≠ '\r' := fun heq => hs.inLine.2 (heq ▸ hc)
  simp [isLineEnd, hnewline, hreturn]

/-- The two escapers agree on a value that fits. -/
theorem shEscape_eq {outlen : Nat} {s : CString} (hs : Clean s) (hfits : 2 * s.length < outlen) :
    shEscape s = confEscape outlen s := by
  have hescaped : sedSubstitute '"' ['\\', '"'] (sedSubstitute '\\' ['\\', '\\'] s) =
      backslashed isQuotable s := sedSubstitute_backslashes (by decide) s
  rw [shEscape, hescaped, confEscape_eq hfits, stripped_clean hs]
  apply substitution_eq_self
  · exact not_mem_backslashed (by decide) hs.inLine.1
  · exact not_mem_backslashed (by decide) hs.nul

theorem shSetting_eq (key : Key) (value : CString) :
    shSetting key value = (Written.setting key value).text := rfl

/-- Both ask for the same name and password. -/
theorem popen_passphraseCommand (passphrase : Passphrase) (joined : Joined) :
    passphrase.popen (passphraseCommand joined.ssid.1 joined.password.1) =
      some (passphrase joined.ssid.1 joined.password.1) := by
  rw [Passphrase.popen, simpleCommand_passphraseCommand joined.toCredentials]
  simp [Credentials.command, stripped_clean joined.ssid_clean]

/-! ## What is made of the answer -/

def ssidKey : CString := "ssid=".toList

def networkKey : CString := "network=\x7b".toList

/-- Whether more than copying is done with a line, or a piece of one, that the tool reads. -/
def isNamed (line : CString) : Bool :=
  ssidKey.isPrefixOf (line.dropWhile isIndent) || networkKey.isPrefixOf (line.dropWhile isIndent)

/-- A line of which the tool and the script make the same: a network that begins in it begins at
its first character, and if the tool reads it in pieces, then neither the line nor a piece of it
begins with one of the names. -/
structure Alike (row : CString) : Prop where
  newline : '\n' ∉ row
  nul : '\x00' ∉ row
  network : networkKey.isPrefixOf (row.dropWhile isIndent) → networkKey.isPrefixOf row
  long : 255 ≤ row.length →
    isNamed row = false ∧ (pieces 256 (row ++ ['\n'])).all (fun piece => !isNamed piece) = true

/-- An answer in lines that are ended, and whose last one is not empty. -/
structure Answer (output : CString) : Prop where
  rows : ∃ rows, output = unlines '\n' rows ∧ (∀ row ∈ rows, Alike row) ∧
    rows.getLast? ≠ some []

/-- What is written of a text that the tool copies. -/
def copied (escSsid line : CString) : CString := (copyLine escSsid line).flatMap Written.text

theorem copyLine_eq (escSsid line : CString) : copyLine escSsid line =
    if ssidKey.isPrefixOf (line.dropWhile isIndent) then []
    else if networkKey.isPrefixOf (line.dropWhile isIndent) then
      [.copied line, .setting .ssid escSsid]
    else [.copied line] := rfl

theorem awkRules_eq (escSsid record : CString) : awkRules escSsid record =
    if ssidKey.isPrefixOf (record.dropWhile isIndent) then []
    else if networkKey.isPrefixOf record then record ++ ['\n'] ++ shSetting .ssid escSsid
    else record ++ ['\n'] := rfl

theorem copied_plain {escSsid line : CString} (hplain : isNamed line = false) :
    copied escSsid line = line := by
  rw [isNamed, Bool.or_eq_false_iff] at hplain
  obtain ⟨hssid, hnetwork⟩ := hplain
  rw [copied, copyLine_eq, hssid, hnetwork, if_neg Bool.false_ne_true, if_neg Bool.false_ne_true,
    List.flatMap_cons, List.flatMap_nil, List.append_nil, Written.text]

/-- A network at the first character of a line is behind no blank. -/
theorem dropWhile_networkKey {row : CString} (h : networkKey.isPrefixOf row) :
    networkKey.isPrefixOf (row.dropWhile isIndent) := by
  obtain ⟨rest, hrest⟩ := List.isPrefixOf_iff_prefix.mp h
  have hkey : networkKey = 'n' :: "etwork=\x7b".toList := by decide
  have hfirst : row.dropWhile isIndent = row := by
    rw [← hrest, hkey, List.cons_append, List.dropWhile_cons_of_neg (by decide)]
  rw [hfirst]
  exact h

theorem awkRules_plain {escSsid row : CString} (hplain : isNamed row = false) :
    awkRules escSsid row = row ++ ['\n'] := by
  rw [isNamed, Bool.or_eq_false_iff] at hplain
  obtain ⟨hssid, hnetwork⟩ := hplain
  have hnot : ¬networkKey.isPrefixOf row := by
    intro hrow
    have hindent := dropWhile_networkKey hrow
    rw [hnetwork] at hindent
    cases hindent
  rw [awkRules_eq, hssid, if_neg Bool.false_ne_true, if_neg hnot]

theorem dropWhile_append_newline (row : CString) :
    (row ++ ['\n']).dropWhile isIndent = row.dropWhile isIndent ++ ['\n'] := by
  induction row with
  | nil => rfl
  | cons c row ih =>
      rw [List.cons_append, List.dropWhile_cons, List.dropWhile_cons]
      split
      · exact ih
      · rfl

theorem isPrefixOf_append_newline {key : CString} (hkey : '\n' ∉ key) (row : CString) :
    key.isPrefixOf (row ++ ['\n']) = key.isPrefixOf row := by
  rw [Bool.eq_iff_iff, List.isPrefixOf_iff_prefix, List.isPrefixOf_iff_prefix]
  exact prefix_append_cons hkey

/-- What the tool makes of a line that it reads whole. -/
theorem copied_row {escSsid row : CString} (hrow : Alike row) :
    copied escSsid (row ++ ['\n']) = awkRules escSsid row := by
  have hssidKey : '\n' ∉ ssidKey := by decide
  have hnetworkKey : '\n' ∉ networkKey := by decide
  have hsame : networkKey.isPrefixOf (row.dropWhile isIndent) = networkKey.isPrefixOf row := by
    rw [Bool.eq_iff_iff]
    exact ⟨hrow.network, dropWhile_networkKey⟩
  rw [copied, copyLine_eq, awkRules_eq, dropWhile_append_newline,
    isPrefixOf_append_newline hssidKey, isPrefixOf_append_newline hnetworkKey, hsame]
  split
  · rfl
  · split
    · rw [List.flatMap_cons, List.flatMap_cons, List.flatMap_nil, List.append_nil, shSetting_eq]
      rfl
    · rw [List.flatMap_cons, List.flatMap_nil, List.append_nil, Written.text]

/-- A line that is read in pieces is copied by both. -/
theorem copied_pieces {escSsid row : CString} (hrow : Alike row) :
    (pieces 256 (row ++ ['\n'])).flatMap (copied escSsid) = awkRules escSsid row := by
  by_cases hlong : 255 ≤ row.length
  · obtain ⟨hplain, hpieces⟩ := hrow.long hlong
    have hcopied : ∀ piece ∈ pieces 256 (row ++ ['\n']), copied escSsid piece = piece := by
      intro piece hpiece
      have hnot := List.all_eq_true.mp hpieces piece hpiece
      exact copied_plain (by simpa using hnot)
    have hself : (pieces 256 (row ++ ['\n'])).flatMap (fun piece => piece) =
        (pieces 256 (row ++ ['\n'])).flatten := List.flatMap_id
    rw [List.flatMap_congr hcopied, hself, pieces_flatten, awkRules_plain hplain]
  · rw [pieces_row hrow.newline (by omega), List.flatMap_cons, List.flatMap_nil, List.append_nil]
    exact copied_row hrow

/-- The script reads the lines that the tool reads pieces of. -/
theorem awk_eq (escSsid : CString) {rows : List CString} (hrows : ∀ row ∈ rows, Alike row) :
    awk escSsid (unlines '\n' rows) =
      (pieces 256 (unlines '\n' rows)).flatMap (copied escSsid) := by
  have hnewline : ∀ row ∈ rows, '\n' ∉ row := fun row hrow => (hrows row hrow).newline
  have htrimmed : ∀ row ∈ rows, awkRules escSsid (trimTrailingNewlines (row ++ ['\n'])) =
      (pieces 256 (row ++ ['\n'])).flatMap (copied escSsid) := by
    intro row hrow
    rw [copied_pieces (hrows row hrow), trimTrailingNewlines,
      List.rdropWhile_concat_pos _ _ _ (by rfl), rdropWhile_newline (hnewline row hrow)]
  rw [awk, lines_unlines hnewline, List.flatMap_map, List.flatMap_congr htrimmed, pieces_unlines,
    List.flatMap_assoc]

/-- What the script writes of an answer is what the tool writes of it. -/
theorem awk_answer (escSsid : CString) {output : CString} (hanswer : Answer output)
    (hne : output ≠ []) :
    substitution output ≠ [] ∧ awk escSsid (substitution output ++ ['\n']) =
      (pieces 256 output).flatMap (copied escSsid) := by
  obtain ⟨rows, rfl, hrows, hlast⟩ := hanswer.rows
  have hkept := substitution_unlines (fun row hrow => (hrows row hrow).newline)
    (fun row hrow => (hrows row hrow).nul) hlast (fun hnil => hne (by rw [hnil]; rfl))
  rw [hkept.2]
  exact ⟨hkept.1, awk_eq escSsid hrows⟩

/-! ## The configuration -/

/-- What the tool writes behind the first two lines. -/
def network (joined : Joined) (output : CString) : CString :=
  let escSsid := confEscape (wifiSsidLen * 2) joined.ssid.1
  if joined.isOpen then
    networkLine.text ++ shSetting .ssid escSsid ++ "\tkey_mgmt=NONE\n\x7d\n".toList
  else if output ≠ [] then (pieces 256 output).flatMap (copied escSsid)
  else
    networkLine.text ++ shSetting .ssid escSsid ++
      shSetting .psk (confEscape (wifiPassLen * 2) joined.password.1) ++ "\x7d\n".toList

theorem pieces_ne_nil {content : CString} (size : Nat) (hne : content ≠ []) :
    pieces size content ≠ [] := by
  intro hnone
  apply hne
  rw [← pieces_flatten size content, hnone, List.flatten_nil]

theorem conf_writeConfig (passphrase : Passphrase) (joined : Joined) :
    (writeConfig passphrase.host joined.ssid.1 joined.password.1 joined.isOpen).conf =
      header.text ++ network joined (passphrase joined.ssid.1 joined.password.1) := by
  have hpopen : passphrase.host.popen (passphraseCommand joined.ssid.1 joined.password.1) =
      some (passphrase joined.ssid.1 joined.password.1) := popen_passphraseCommand passphrase joined
  have hcreate : passphrase.host.create = true := rfl
  have hopen : passphrase.host.appendOpen = true := rfl
  have hhashed : passphrase.host.appendHashed = true := rfl
  have hplain : passphrase.host.appendPlain = true := rfl
  rw [Outcome.conf, writeConfig, network, hcreate, hopen, hhashed, hplain]
  dsimp only
  rw [hpopen, Option.map_some, Option.getD_some]
  cases joined.isOpen with
  | true => simp [shSetting_eq, Written.text]
  | false =>
      by_cases hnone : passphrase joined.ssid.1 joined.password.1 = []
      -- without an answer the password itself is written
      · have hpieces : pieces 256 [] = [] := rfl
        simp [hnone, hpieces, shSetting_eq, Written.text]
      · have hpieces := pieces_ne_nil 256 hnone
        simp [hnone, hpieces, List.flatMap_assoc]
        rfl

theorem shNetwork_eq (passphrase : Passphrase) (joined : Joined)
    (hanswer : joined.isOpen = false → Answer (passphrase joined.ssid.1 joined.password.1)) :
    shNetwork passphrase joined.ssid.1 joined.password.1 =
      network joined (passphrase joined.ssid.1 joined.password.1) := by
  have hssid := joined.ssid.2
  have hpassword := joined.password.2
  have hescSsid : shEscape joined.ssid.1 = confEscape (wifiSsidLen * 2) joined.ssid.1 :=
    shEscape_eq joined.ssid_clean (by omega)
  have hescPsk : shEscape joined.password.1 = confEscape (wifiPassLen * 2) joined.password.1 :=
    shEscape_eq joined.password_clean (by omega)
  have hline : "network=\x7b\n".toList = networkLine.text := rfl
  rw [shNetwork, network, hescSsid, hescPsk, hline]
  dsimp only
  by_cases hopen : joined.password.1 = []
  · have hisOpen : joined.isOpen = true := by rw [Joined.isOpen, hopen, List.isEmpty_nil]
    rw [if_neg (not_not_intro hopen), if_pos hisOpen]
  · have hisOpen : joined.isOpen = false := by
      rw [Joined.isOpen, List.isEmpty_eq_false_iff]
      exact hopen
    rw [if_pos hopen, hisOpen, if_neg Bool.false_ne_true]
    by_cases hnone : passphrase joined.ssid.1 joined.password.1 = []
    · have hempty : substitution [] = [] := rfl
      rw [hnone, hempty, if_neg (not_not_intro rfl), if_neg (not_not_intro rfl)]
    · obtain ⟨hkept, hsame⟩ := awk_answer (confEscape (wifiSsidLen * 2) joined.ssid.1)
        (hanswer hisOpen) hnone
      rw [if_pos hkept, if_pos hnone]
      exact hsame

theorem wifiSh_file (passphrase : Passphrase) (joined : Joined) :
    wifiSh false (some joined.file) passphrase =
      some (header.text ++ shNetwork passphrase joined.ssid.1 joined.password.1) := by
  have hheader : echo "ctrl_interface=/var/run/wpa_supplicant".toList ++
      echo "update_config=1".toList = header.text := by decide
  rw [wifiSh, shSsid_file, shPsk_file, if_neg joined.named, if_neg Bool.false_ne_true, hheader]

/-- Reconnecting with what was kept is connecting again. -/
structure Reconnects (env : Option CString) (files : Files) (passphrase : Passphrase)
    (joined : Joined) : Prop where
  loaded : loadPersisted env (persist env files joined.ssid.1 (some joined.password.1)) =
    some (joined.ssid.1, joined.password.1)
  read : ∃ conf,
    persist env files joined.ssid.1 (some joined.password.1) (persistPath env) = some conf ∧
      shSsid conf = joined.ssid.1 ∧ shPsk conf = joined.password.1
  conf : wifiSh false (persist env files joined.ssid.1 (some joined.password.1) (persistPath env))
      passphrase =
    some (writeConfig passphrase.host joined.ssid.1 joined.password.1 joined.isOpen).conf

/-- The script reads what was kept, and writes the configuration that the tool writes of it,
whatever `wpa_passphrase` answers in lines. -/
theorem wifiSh_reconnects (env : Option CString) (files : Files) (passphrase : Passphrase)
    (joined : Joined)
    (hanswer : joined.isOpen = false → Answer (passphrase joined.ssid.1 joined.password.1)) :
    Reconnects env files passphrase joined where
  loaded := loadPersisted_persist env files joined
  read := ⟨joined.file, persist_file env files joined, shSsid_file joined, shPsk_file joined⟩
  conf := by
    rw [persist_file, wifiSh_file, conf_writeConfig, shNetwork_eq passphrase joined hanswer]

/-- Quotes and backslashes in the name and in the password. -/
def cafe : Joined where
  ssid := ⟨"Bob's \"c:\\cafe\"".toList, by decide⟩
  password := ⟨"it's \"p\\w\"".toList, by decide⟩
  named := by decide
  ssid_clean := ⟨by decide, by decide⟩
  password_clean := ⟨by decide, by decide⟩

def cafeRows : List CString :=
  ["network=\x7b".toList, "\tssid=\"Bob's \"c:\\cafe\"\"".toList,
    "\t#psk=\"it's \"p\\w\"\"".toList, "\tpsk=42f1a65c".toList, "\x7d".toList]

theorem wifiSh_reconnects_cafe :
    Reconnects none (fun _ => none) (fun _ _ => unlines '\n' cafeRows) cafe := by
  have hshort : cafeRows.all (fun row => row.all (fun c => c != '\n' && c != '\x00') &&
      networkKey.isPrefixOf (row.dropWhile isIndent) == networkKey.isPrefixOf row &&
      decide (row.length < 255)) = true := by
    decide +kernel
  refine wifiSh_reconnects none (fun _ => none) (fun _ _ => unlines '\n' cafeRows) cafe fun _ =>
    ⟨cafeRows, rfl, fun row hrow => ?_, by decide +kernel⟩
  have hrow := List.all_eq_true.mp hshort row hrow
  simp only [Bool.and_eq_true, List.all_eq_true, bne_iff_ne, beq_iff_eq, decide_eq_true_eq] at hrow
  obtain ⟨⟨hclean, hnetwork⟩, hlength⟩ := hrow
  exact ⟨fun hmem => (hclean _ hmem).1 rfl, fun hmem => (hclean _ hmem).2 rfl,
    fun hindented => hnetwork ▸ hindented, fun hlong => absurd hlength (by omega)⟩

/-- A network with a password, and what is printed for it if a line does not fit the array of the
tool. -/
def home : Joined where
  ssid := ⟨"home".toList, by decide⟩
  password := ⟨"password".toList, by decide⟩
  named := by decide
  ssid_clean := ⟨by decide, by decide⟩
  password_clean := ⟨by decide, by decide⟩

def longRows : List CString :=
  ["network=\x7b".toList, "\tssid=\"".toList ++ List.replicate 300 'a' ++ ['"'], "\x7d".toList]

/-- Of a line that is too long the tool drops only what fits the array. -/
theorem wifiSh_differs :
    ¬ ∀ (env : Option CString) (files : Files) (passphrase : Passphrase) (joined : Joined),
      Reconnects env files passphrase joined := by
  intro h
  have hconf := (h none (fun _ => none) (fun _ _ => unlines '\n' longRows) home).conf
  rw [persist_file] at hconf
  revert hconf
  decide +kernel

end DarkUI.Wifi
