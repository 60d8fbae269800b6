import DarkUI.Foundation.Text
import DarkUI.Foundation.Lines
import DarkUI.Foundation.Decimal
import DarkUI.Foundation.Stdio
import DarkUI.Common.Defines
import DarkUI.Common.Utils
import DarkUI.Common.FileSystem
import DarkUI.Minarch.SaveFiles
import DarkUI.Minarch.Collections
import DarkUI.Minarch.SaveFileLaws
import DarkUI.Minarch.Game
import DarkUI.Foundation.Shell
import DarkUI.Foundation.Window
import DarkUI.Foundation.Run
import DarkUI.Foundation.Neighbours
import DarkUI.Minui.Entries
import DarkUI.Minui.Directory
import DarkUI.Minui.Launcher
import DarkUI.Minui.Menu
import DarkUI.Minui.MoveLaws
import DarkUI.Minui.StackLaws
import DarkUI.Minui.WindowLaws
import DarkUI.Minui.FetchLaws
import DarkUI.Minui.ResumeLaws
import DarkUI.Minui.CollationLaws
import DarkUI.Handover.RomPaths
import DarkUI.Handover.ResumeFiles
import DarkUI.Minarch.Discs
import DarkUI.Minarch.DiscLaws
import DarkUI.Minarch.PickerLaws
import DarkUI.Minarch.Quicksave
import DarkUI.Minarch.QuicksaveLaws
import DarkUI.Handover.Quicksave
import DarkUI.Handover.QuicksaveLaws
import DarkUI.Foundation.KeyedLines
import DarkUI.Minarch.Config
import DarkUI.Minarch.ConfigLaws
import DarkUI.Foundation.Recency
import DarkUI.Minui.Recents
import DarkUI.Minui.RecentsFile
import DarkUI.Foundation.Mask
import DarkUI.Input.Pad
import DarkUI.Input.Sdl
import DarkUI.Input.Evdev
import DarkUI.Input.PadLaws
import DarkUI.Input.ReleaseLaws
import DarkUI.Input.Source
import DarkUI.Minarch.Frontend
import DarkUI.Minarch.Play
import DarkUI.Minarch.FastForwardLaws
import DarkUI.Minarch.ThreadLaws
import DarkUI.Foundation.Ring
import DarkUI.Common.Snd
import DarkUI.Common.SndLaws
import DarkUI.Foundation.Disk
import DarkUI.Common.Settings
import DarkUI.Common.SettingsLaws
import DarkUI.Boot.Update
import DarkUI.Boot.Rg35xx
import DarkUI.Boot.Rg35xxplus
import DarkUI.Boot.Rg35xxLaws
import DarkUI.Boot.UpdateLaws
import DarkUI.Common.Ancestors
import DarkUI.Minui.NestedLaws
import DarkUI.Minui.RestoreLaws
import DarkUI.Handover.LaunchCommand
import DarkUI.Common.Pwr
import DarkUI.Common.PwrLaws
import DarkUI.Minarch.ToggleLaws
import DarkUI.Foundation.Folder
import DarkUI.Minarch.CollectionPicker
import DarkUI.Minarch.CollectionPickerLaws
import DarkUI.Minui.CollectionLaws
import DarkUI.Handover.Aliases
import DarkUI.Foundation.InPlace
import DarkUI.Minarch.Options
import DarkUI.Minarch.Controls
import DarkUI.Minarch.OptionsSession
import DarkUI.Minarch.OptionsLaws
import DarkUI.Minarch.DefaultsLaws
import DarkUI.Foundation.Orbits
import DarkUI.Minarch.Zip
import DarkUI.Minarch.ZipLaws
import DarkUI.Foundation.Inflate
import DarkUI.Minarch.Extract
import DarkUI.Minarch.ExtractLaws
import DarkUI.Minarch.DiscChange
import DarkUI.Minarch.DiscChangeLaws
import DarkUI.Common.Gfx
import DarkUI.Common.GfxLaws
import DarkUI.Common.WrapLaws
import DarkUI.Common.Filling
import DarkUI.Minarch.StateRead
import DarkUI.Minarch.Variables
import DarkUI.Minarch.VariablesLaws
import DarkUI.Foundation.Runs
import DarkUI.Minui.AlphaLaws
import DarkUI.Minui.LabelLaws
import DarkUI.Minui.DiscLaws
import DarkUI.Minarch.BindingsLaws
import DarkUI.Foundation.Occurrences
import DarkUI.Minarch.KeyLaws
import DarkUI.Foundation.LineEndings
import DarkUI.Minarch.OptionsRead
import DarkUI.Minarch.BindingEndings
import DarkUI.Minarch.ValueEndings
import DarkUI.Minarch.LineEndingLaws
import DarkUI.Minarch.Descriptions
import DarkUI.Common.ResampleLaws
import DarkUI.Common.ScalerLaws
import DarkUI.Common.EffectsLaws
import DarkUI.Minarch.ScalerChoice
import DarkUI.Minarch.PageLaws
import DarkUI.Minarch.PagerLaws
import DarkUI.Wifi.ConfigLaws
import DarkUI.Minarch.PreviewFits
import DarkUI.Foundation.Calendar
import DarkUI.Foundation.Cells
import DarkUI.Foundation.Heaviest
import DarkUI.Foundation.Filters
import DarkUI.Clock.Clock
import DarkUI.Clock.DateLaws
import DarkUI.Clock.CursorLaws
import DarkUI.Keymon.Settings
import DarkUI.Keymon.Keymon
import DarkUI.Keymon.ScaleLaws
import DarkUI.Common.DisplayName
import DarkUI.Common.DisplayNameLaws
import DarkUI.Boot.Cube
import DarkUI.Boot.CubeLaws
import DarkUI.Wifi.Scan
import DarkUI.Wifi.ScanLaws
import DarkUI.Wifi.BootScript
import DarkUI.Wifi.BootScriptLaws
import DarkUI.Foundation.Mailbox
import DarkUI.Minarch.CoreThread
import DarkUI.Minarch.CoreThreadLaws
import DarkUI.Minarch.Pacing
import DarkUI.Foundation.Latch
import DarkUI.Minarch.InputLaws
import DarkUI.Minarch.Battery
import DarkUI.Common.Sleep
import DarkUI.Common.Keyboard
import DarkUI.Wifi.Tool
import DarkUI.Wifi.ToolLaws
import DarkUI.Common.SharedSettings
import DarkUI.Common.SharedSettingsLaws
import DarkUI.Boot.Overclock
import DarkUI.Minarch.CoreOptions
import DarkUI.Foundation.Block
import DarkUI.Minui.Containers
import DarkUI.Minarch.Framebuffer
import DarkUI.Foundation.Repeats
import DarkUI.Keymon.Turns
import DarkUI.Keymon.TurnLaws
