import DarkUI.Foundation.Text

/-! # Paths and limits shared by the launcher and the emulator front end -/

namespace DarkUI

open Text

def maxPath : Nat := 512

/-- What both builds have for a screen: two bytes for each of 640 times 480 pixels. -/
def fixedScale : Nat := 2
def fixedWidth : Nat := 640
def fixedHeight : Nat := 480
def fixedBpp : Nat := 2

/-- `SCALE1`: a length in the design's pixels as one on the screen. -/
def scale1 (a : Int) : Int := a * fixedScale

def sdcardPath : CString := "/mnt/sdcard".toList
def romsPath : CString := sdcardPath ++ "/Roms".toList
def sharedUserdataPath : CString := sdcardPath ++ "/.userdata/shared".toList
def recentPath : CString := sharedUserdataPath ++ "/.minui/recent.txt".toList
def simpleModePath : CString := sharedUserdataPath ++ "/enable-simple-mode".toList
def autoResumePath : CString := sharedUserdataPath ++ "/.minui/auto_resume.txt".toList
def autoResumeSlot : Int := 9

def fauxRecentPath : CString := sdcardPath ++ "/Recently Played".toList
def collectionsPath : CString := sdcardPath ++ "/Collections".toList

/-- A file on the card, by its path below the card's root. -/
structure CardPath where
  rel : CString
  rel_ne : rel ≠ []

def CardPath.full (path : CardPath) : CString := sdcardPath ++ path.rel

/-- What a build fixes: the platform's name and how many rows the list shows. -/
structure Device where
  platform : CString
  mainRowCount : Nat
  mainRowCount_pos : 0 < mainRowCount

namespace Device

variable (device : Device)

def systemPath : CString := sdcardPath ++ "/.system/".toList ++ device.platform
def paksPath : CString := device.systemPath ++ "/paks".toList
def toolsPath : CString := sdcardPath ++ "/Tools/".toList ++ device.platform

/-- `MAIN_ROW_COUNT` as the signed arithmetic of the list uses it. -/
def rows : Int := device.mainRowCount

theorem rows_pos : 0 < device.rows := by
  have := device.mainRowCount_pos
  simp only [rows]
  omega

end Device

def rg35xx : Device := ⟨"rg35xx".toList, 6, by decide⟩
def rg35xxplus : Device := ⟨"rg35xxplus".toList, 6, by decide⟩

end DarkUI
