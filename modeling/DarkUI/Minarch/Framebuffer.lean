import DarkUI.Foundation.Run
import DarkUI.Minarch.Renderer

/-! # The two pages of the framebuffer

The `rg35xx` draws on one page of memory and shows the other. Each byte is known here by who
drew it last: the pages outlive the menu and the settings that are laid over a game, and a game
need not draw on all of its screen.
-/

namespace DarkUI.Minarch

open Run

/-- Nobody yet, a page being cleared, the game's picture, the settings over it, or a menu. -/
inductive Painter
  | stale | blank | game | overlay | menu
  deriving DecidableEq, Repr

/-- The size and the pitch of the screen. -/
structure ScreenSize where
  width : Nat
  height : Nat
  pitch : Nat

/-- `VID_Context`, with the memory of the pages and where the one that is shown starts. -/
structure Vid where
  memory : Nat → Painter
  page : Bool
  screen : ScreenSize
  cleared : Bool
  shown : Nat

namespace Vid

def pageStart (page : Bool) : Nat := if page then pageSize else 0

variable (vid : Vid)

/-- `memset` of some bytes from the start of the screen on. -/
def blank (size : Nat) : Vid :=
  let start := pageStart vid.page
  { vid with
    memory := fun i => if start ≤ i ∧ i < start + size then .blank else vid.memory i }

/-- Some bytes of the screen, by their distance from its start. -/
def draw (painter : Painter) (area : Nat → Bool) : Vid :=
  let start := pageStart vid.page
  { vid with
    memory := fun i => if start ≤ i ∧ area (i - start) then painter else vid.memory i }

/-- `PLAT_initVideo` -/
def init : Vid :=
  let screen := ⟨fixedWidth, fixedHeight, fixedWidth * fixedBpp⟩
  blank ⟨fun _ => .stale, true, screen, false, pageStart true⟩ (screen.pitch * screen.height)

/-- `PLAT_clearVideo` -/
def clearVideo : Vid := vid.blank pageSize

/-- `PLAT_clearAll`, which leaves the page that is shown for later. -/
def clearAll : Vid := { vid.clearVideo with cleared := true }

/-- `PLAT_resizeVideo`, which shows the page that is drawn on. -/
def resizeVideo (screen : ScreenSize) : Vid :=
  { vid with screen, shown := pageStart vid.page }.blank (screen.pitch * screen.height)

/-- `PLAT_flip` -/
def flip : Vid :=
  let flipped := { vid with shown := pageStart vid.page, page := !vid.page }
  if vid.cleared then { flipped.clearVideo with cleared := false } else flipped

end Vid

/-- The screen with `overlay_clear`, and whether the menu is open. -/
structure Display extends Vid where
  overlayClear : Nat
  inMenu : Bool

inductive DisplayAction
  /-- A clear screen before a loop. -/
  | vsync
  /-- `video_refresh_callback_main` and the flip after it: the size that `selectScaler` gives
  the screen if it is called, what the picture covers, and what the settings over it do. -/
  | refresh (resized : Option ScreenSize) (picture : Nat → Bool) (overlay : Option (Nat → Bool))
  /-- A flip without a picture, which was passed over while fast forwarding. -/
  | passOver
  /-- `Menu_loop` up to its loop -/
  | openMenu (resized : Option ScreenSize)
  | drawMenu (area : Nat → Bool)
  /-- The scaling was changed in the options. -/
  | rescale (game device : ScreenSize)
  /-- `Menu_loop` from its loop on -/
  | closeMenu (resized : Option ScreenSize)

namespace Display

variable (s : Display)

/-- A change to the pages. -/
def map (f : Vid → Vid) : Display := { s with toVid := f s.toVid }

/-- `GFX_resize`, where it is called. -/
def resize : Option ScreenSize → Display
  | none => s
  | some screen => s.map (·.resizeVideo screen)

/-- `selectScaler` and the clearing after it. -/
def rescaled : Option ScreenSize → Display
  | none => s
  | some screen => s.map fun vid => (vid.resizeVideo screen).clearAll

/-- The count of pictures that follow the settings. -/
def countClear (shows : Bool) : Display :=
  if shows then { s with overlayClear := 2 }
  else if s.overlayClear > 0 then
    { s.map (·.clearAll) with overlayClear := s.overlayClear - 1 }
  else s

def overlaid : Option (Nat → Bool) → Display
  | none => s
  | some area => s.map (·.draw .overlay area)

/-- `video_refresh_callback_main` up to the flip -/
def refreshed (resized : Option ScreenSize) (picture : Nat → Bool)
    (overlay : Option (Nat → Bool)) : Display :=
  (((s.rescaled resized).countClear overlay.isSome).map (·.draw .game picture)).overlaid overlay

def step (s : Display) : DisplayAction → Option Display
  | .vsync => some (s.map fun vid => vid.clearAll.flip)
  | .refresh resized picture overlay =>
      some ((s.refreshed resized picture overlay).map (·.flip))
  | .passOver => some (s.map (·.flip))
  | .openMenu resized => some { s.resize resized with inMenu := true }
  | .drawMenu area => some (s.map fun vid => (vid.clearVideo.draw .menu area).flip)
  | .rescale game device =>
      some (s.map fun vid => (vid.resizeVideo game).resizeVideo device)
  | .closeMenu resized =>
      some { ((s.map (·.clearAll)).resize resized).map (·.clearVideo) with inMenu := false }

/-- The menu holds up the game. -/
def Possible (s : Display) : DisplayAction → Prop
  | .drawMenu _ | .rescale _ _ | .closeMenu _ => s.inMenu = true
  | _ => s.inMenu = false

/-- The screen that the first loop starts with. -/
def start : Display := ⟨Vid.init.clearAll.flip, 0, false⟩

end Display

namespace Vid

/-- Every byte of a page was drawn by the like. -/
def Page (ok : Painter → Prop) (vid : Vid) (page : Bool) : Prop :=
  ∀ i < pageSize, ok (vid.memory (pageStart page + i))

/-- The page to show next is fit to be seen, and the other is or will be cleared. -/
structure Ready (ok : Painter → Prop) (vid : Vid) : Prop where
  back : Page ok vid vid.page
  front : vid.cleared = true ∨ Page ok vid !vid.page

variable {ok : Painter → Prop} {vid : Vid} {page : Bool}

end Vid

namespace Display

/-- What a game may show while the settings lie over it. -/
def InGame (painter : Painter) : Prop := painter ≠ .stale ∧ painter ≠ .menu

/-- What it shows by itself. -/
def Plain (painter : Painter) : Prop := painter = .blank ∨ painter = .game

theorem InGame.cases {painter : Painter} (h : InGame painter) :
    painter = .blank ∨ painter = .game ∨ painter = .overlay := by
  cases painter with
  | stale => exact absurd rfl h.1
  | blank => exact .inl rfl
  | game => exact .inr (.inl rfl)
  | overlay => exact .inr (.inr rfl)
  | menu => exact absurd rfl h.2

/-- Between the menus no page keeps a menu, and none the settings unless they are still to be
cleared. -/
structure Kept (s : Display) : Prop where
  inGame : s.inMenu = false → s.Ready InGame
  plain : s.inMenu = false → s.overlayClear = 2 ∨ s.Ready Plain

variable {ok : Painter → Prop} {s t : Display} {action : DisplayAction}

/-- The screen, a picture over its first row, and the settings in its second. -/
def device : ScreenSize := ⟨fixedWidth, fixedHeight, fixedWidth * fixedBpp⟩
end Display

end DarkUI.Minarch
