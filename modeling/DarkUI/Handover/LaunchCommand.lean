import DarkUI.Minui.ResumeLaws
import DarkUI.Foundation.Shell

/-! # The command that runs next

The launcher leaves a quoted command line in `/tmp/next`, and the launch script of each platform
runs it. The script of the rg35xx does so through an unquoted expansion, which respaces the line
and lets its fields match files.
-/

namespace DarkUI.Handover

open Text Minui

/-- What a launch means to run. -/
inductive Launch
  | rom (emuPath romPath : CString)
  | pak (path : CString)

namespace Launch

/-- The line that is left for the script. -/
def text : Launch → CString
  | .rom emuPath romPath => romCommand emuPath romPath
  | .pak path => pakCommand path

/-- The program and its arguments. -/
def command : Launch → List CString
  | .rom emuPath romPath => [emuPath, romPath]
  | .pak path => [path ++ "/launch.sh".toList]

/-- The paths that are escaped, each into an array of its own. -/
def paths : Launch → List CString
  | .rom emuPath romPath => [emuPath, romPath]
  | .pak path => [path]

/-- Every path fits its array with its quotes escaped. -/
def Fits (launch : Launch) : Prop :=
  ∀ path ∈ launch.paths, (Shell.escape path).length < maxPath * 2

instance (launch : Launch) : Decidable launch.Fits :=
  inferInstanceAs (Decidable (∀ path ∈ launch.paths, (Shell.escape path).length < maxPath * 2))

end Launch

/-- The launches that are written to `/tmp/next`, with what is written. -/
inductive Queued (host : Host) : CString → Launch → Prop
  | openRom {uninit : Uninit} {l : Launcher} {path text : CString} {last : Option CString} :
      l.quit = false → (l.openRom host uninit path last).quit = true →
      (l.openRom host uninit path last).store.tmp.next = some text →
      Queued host text (.rom
        (getEmuPath host l.fs (getEmuName (Launcher.launchedRom l.fs path)))
        (l.prepareSlot uninit path).1)
  | openPak {l : Launcher} {path text : CString} :
      (l.openPak host path).store.tmp.next = some text → Queued host text (.pak path)
  | autoResume {fs : FileSystem} {tmp : Tmp} {path text : CString} :
      fs.getFile autoResumePath maxPath = some path → tmp.next = none →
      (autoResume host fs tmp).2.next = some text →
      Queued host text (.rom (getEmuPath host (fs.unlink autoResumePath) (getEmuName (sdPath path)))
        (sdPath path))

/-- The program and the arguments that `eval $CMD` runs, where `$CMD` is what the backquotes give:
the file without the newlines at its end. -/
def Rg35xx.runNext (pathnames : CString → List CString) (next : CString) :
    Option (List CString) :=
  Shell.words (Shell.evaluated pathnames (next.rdropWhile (· == '\n')))

/-- The program and the arguments that sourcing the file runs. -/
def Rg35xxplus.runNext (next : CString) : Option (List CString) := Shell.words next

/-! ## Escaping into an array -/

/-- What an array takes of a path is a part from its front, quoted as a whole. -/
theorem escapeFrom_eq {size di : Nat} (hdi : di < size) (src : CString) :
    ∃ kept, escapeFrom size di src = Shell.escape kept ∧
      di + (Shell.escape kept).length < size ∧
      (kept = src ↔ di + (Shell.escape src).length < size) := by
  induction src generalizing di with
  | nil => exact ⟨[], rfl, hdi, by simpa [Shell.escape] using hdi⟩
  | cons c src ih =>
      have hcons : ∀ rest, Shell.escape (c :: rest) =
          (if c = '\'' then "'\\''".toList else [c]) ++ Shell.escape rest := Shell.escape_cons c
      have hgroup : (if c = '\'' then "'\\''".toList else [c]).length =
          if c = '\'' then 4 else 1 := by
        split <;> rfl
      rw [hcons, List.length_append, hgroup, ← Nat.add_assoc]
      unfold escapeFrom
      dsimp only
      by_cases hroom : di + (if c = '\'' then 4 else 1) < size
      · obtain ⟨kept, hkept, hfits, hwhole⟩ := ih hroom
        refine ⟨c :: kept, ?_, ?_, ?_⟩
        · rw [if_neg (Nat.not_le.mpr hroom), hkept, hcons]
        · rw [hcons, List.length_append, hgroup, ← Nat.add_assoc]
          exact hfits
        · rw [List.cons.injEq, hwhole]
          simp
      · -- the group does not fit, and nothing after it is copied
        refine ⟨[], if_pos (Nat.not_lt.mp hroom), hdi, ?_⟩
        simp only [List.nil_eq, List.cons_ne_nil, false_iff]
        omega

theorem escapeSingleQuotes_eq (path : CString) : ∃ kept,
    escapeSingleQuotes (maxPath * 2) path = Shell.escape kept ∧
      (Shell.escape kept).length < maxPath * 2 ∧
      (kept = path ↔ (Shell.escape path).length < maxPath * 2) := by
  obtain ⟨kept, heq, hfits, hwhole⟩ := @escapeFrom_eq (maxPath * 2) 0 (by decide) path
  rw [Nat.zero_add] at hfits hwhole
  exact ⟨kept, heq, hfits, hwhole⟩

/-- The array of the command has room for whatever the others hold. -/
theorem Launch.text_eq (launch : Launch) : ∃ ws, ws ≠ [] ∧ launch.text = Shell.command ws ∧
    (ws = launch.command ↔ launch.Fits) := by
  cases launch with
  | rom emuPath romPath =>
      obtain ⟨emu, hemu, hemuFits, hemuWhole⟩ := escapeSingleQuotes_eq emuPath
      obtain ⟨rom, hrom, hromFits, hromWhole⟩ := escapeSingleQuotes_eq romPath
      refine ⟨[emu, rom], List.cons_ne_nil _ _, ?_, ?_⟩
      · have hcommand : Shell.command [emu, rom] =
            '\'' :: Shell.escape emu ++ "' '".toList ++ Shell.escape rom ++ ['\''] := by
          simp [Shell.command, Shell.quote]
        rw [text, romCommand, hemu, hrom, hcommand]
        apply bounded_of_lt
        simp only [List.length_append, List.length_cons, List.length_nil, maxPath] at *
        have hgap : "' '".toList.length = 3 := rfl
        omega
      · simp [command, Fits, paths, hemuWhole, hromWhole]
  | pak path =>
      obtain ⟨pak, hpak, hfits, hwhole⟩ := escapeSingleQuotes_eq path
      have hscript : Shell.escape "/launch.sh".toList = "/launch.sh".toList := by decide
      refine ⟨[pak ++ "/launch.sh".toList], List.cons_ne_nil _ _, ?_, ?_⟩
      · have hcommand : Shell.command [pak ++ "/launch.sh".toList] =
            '\'' :: Shell.escape pak ++ "/launch.sh'".toList := by
          rw [Shell.command, List.map_singleton, List.intercalate_singleton, Shell.quote,
            Shell.escape_append, hscript]
          simp
        rw [text, pakCommand, hpak, hcommand]
        apply bounded_of_lt
        simp only [List.length_append, List.length_cons, maxPath] at *
        have hend : "/launch.sh'".toList.length = 11 := rfl
        omega
      · simp [command, Fits, paths, hwhole]

/-! ## Running the line -/

variable {host : Host} {text : CString} {launch : Launch}

theorem Queued.text_eq (h : Queued host text launch) : text = launch.text := by
  cases h with
  | openRom hrunning hquit hnext =>
      unfold Launcher.openRom at hquit hnext
      dsimp only at hquit hnext
      rw [Launcher.prepareSlot_state] at hquit hnext
      split at hquit
      next => exact absurd (hquit.symm.trans hrunning) (by decide)
      next hemu =>
        rw [if_neg hemu] at hnext
        cases hnext
        rfl
  | openPak hnext =>
      cases hnext
      rfl
  | autoResume hpath hqueued hnext =>
      unfold Minui.autoResume at hnext
      rw [hpath] at hnext
      dsimp only at hnext
      split at hnext
      next => exact absurd (hnext.symm.trans hqueued) (by simp)
      next =>
        split at hnext
        next => exact absurd (hnext.symm.trans hqueued) (by simp)
        next =>
          cases hnext
          rfl

theorem map_eq_self_iff {ws : List CString} {f : CString → CString} :
    ws.map f = ws ↔ ∀ w ∈ ws, f w = w := by
  induction ws with
  | nil => simp
  | cons w ws ih => simp [ih]

/-- Where no field of the line matches a file, both scripts run what was meant if and only if
every path fits its array and every word is single-spaced. -/
theorem launch_run_iff (h : Queued host text launch) {pathnames : CString → List CString}
    (hinert : ∀ field ∈ Shell.fields text, pathnames field = []) :
    (Rg35xx.runNext pathnames text = some launch.command ∧
      Rg35xxplus.runNext text = some launch.command) ↔
    launch.Fits ∧ ∀ word ∈ launch.command, Shell.SingleSpaced word := by
  obtain ⟨ws, hne, htext, hfits⟩ := launch.text_eq
  rw [h.text_eq, htext] at hinert ⊢
  have hplus : Rg35xxplus.runNext (Shell.command ws) = some ws := Shell.words_command ws
  have hrg : Rg35xx.runNext pathnames (Shell.command ws) = some (ws.map Shell.respace) := by
    obtain ⟨body, hbody⟩ := Shell.command_bounds hne
    have hcat : (Shell.command ws).rdropWhile (· == '\n') = Shell.command ws := by
      rw [hbody, ← List.cons_append]
      exact List.rdropWhile_concat_neg _ _ _ (by simp)
    rw [Rg35xx.runNext, hcat, Shell.evaluated_command hne hinert]
    exact Shell.words_command _
  rw [hplus, hrg, Option.some.injEq, Option.some.injEq, ← hfits]
  have hspaced : ws.map Shell.respace = ws ↔ ∀ word ∈ ws, Shell.SingleSpaced word := by
    rw [map_eq_self_iff]
    exact forall₂_congr fun _ _ => Shell.respace_eq_self_iff
  constructor
  · rintro ⟨hrespaced, rfl⟩
    exact ⟨rfl, hspaced.mp hrespaced⟩
  · rintro ⟨rfl, hsingle⟩
    exact ⟨hspaced.mpr hsingle, rfl⟩

/-- A game, and the emulator that runs it. -/
def gameCard (game : CString) : FileSystem :=
  .ofLists
    [("/mnt/sdcard/.system/rg35xx/paks/Emus/GB.pak/launch.sh".toList, []), (game, [])]
    [("/mnt/sdcard/Roms".toList, [⟨"GB".toList, true⟩])]

/-- The launcher, with that game on the card. -/
def atRoot (game : CString) : Launcher :=
  .start Launcher.stableHost (gameCard game) Tmp.empty

def gbLauncher : CString := "/mnt/sdcard/.system/rg35xx/paks/Emus/GB.pak/launch.sh".toList

theorem queued_game {game : CString}
    (hquit : ((atRoot game).openRom Launcher.stableHost Frame.idle.uninit game none).quit = true)
    (hnext :
      ((atRoot game).openRom Launcher.stableHost Frame.idle.uninit game none).store.tmp.next =
      some (romCommand gbLauncher game)) :
    ∃ launch, Queued Launcher.stableHost (romCommand gbLauncher game) launch ∧
      launch = .rom
        (getEmuPath Launcher.stableHost (atRoot game).fs
          (getEmuName (Launcher.launchedRom (atRoot game).fs game)))
        ((atRoot game).prepareSlot Frame.idle.uninit game).1 :=
  ⟨_, .openRom rfl hquit hnext, rfl⟩

/-- A name with quotes, expansions and a pattern that matches nothing reaches the emulator. -/
theorem launch_run_quoted : ∃ text launch, Queued Launcher.stableHost text launch ∧
    launch.command = [gbLauncher, "/mnt/sdcard/Roms/GB/It's $HOME [!].gb".toList] ∧
    Rg35xx.runNext (fun _ => []) text = some launch.command ∧
      Rg35xxplus.runNext text = some launch.command := by
  obtain ⟨launch, hqueued, hlaunch⟩ := @queued_game "/mnt/sdcard/Roms/GB/It's $HOME [!].gb".toList
    (by decide +kernel) (by decide +kernel)
  have hcommand : launch.command =
      [gbLauncher, "/mnt/sdcard/Roms/GB/It's $HOME [!].gb".toList] := by
    rw [hlaunch]
    decide +kernel
  refine ⟨_, launch, hqueued, hcommand, (launch_run_iff hqueued fun _ _ => rfl).mpr ?_⟩
  rw [hlaunch]
  decide +kernel

/-- Of two spaces in a name the rg35xx passes on one. -/
theorem launch_respaced : ∃ text launch, Queued Launcher.stableHost text launch ∧
    Rg35xx.runNext (fun _ => []) text ≠ some launch.command := by
  obtain ⟨launch, hqueued, hlaunch⟩ := @queued_game "/mnt/sdcard/Roms/GB/A  B.gb".toList
    (by decide +kernel) (by decide +kernel)
  refine ⟨_, launch, hqueued, ?_⟩
  rw [hlaunch]
  decide +kernel

end DarkUI.Handover
