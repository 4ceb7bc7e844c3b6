import EmulatorSettings.Row.Basic

/-!
# Screens — rows

The rows of each screen.  Every row of `screen.rows file` edits `file`, so the same screen serves
the global settings and the overrides of a game.
-/

namespace EmulatorSettings.Screen

/-- A `CheckBox` with a description. -/
def checkBoxRow (file : SettingsFile) (sectionName key title description : String)
    (default : Bool) : Row :=
  .editor title (some description) (.checkBox ⟨⟨file, sectionName, key⟩, default⟩)

/-- A `SingleChoice` among the system settings. -/
def choiceRow (file : SettingsFile) (key title : String) (choices : List (String × Int32))
    (default : Int32) : Row :=
  .editor title none
    (.singleChoice ⟨⟨file, Names.system, key⟩, choices.map fun c => ⟨c.1, c.2⟩, default⟩)

/-- An `InputBinding` among the controls. -/
def bindingRow (file : SettingsFile) (key title : String) : Row :=
  .editor title none (.inputBinding ⟨⟨file, Names.controls, key⟩⟩)

/-- A `Slider` among the renderer settings that stores its position as an `integer`. -/
def sliderRow (file : SettingsFile) (key title description : String)
    (least greatest default : Int32) (units : String) : Row :=
  .editor title (some description)
    (.slider ⟨⟨file, Names.renderer, key⟩, least, greatest, default, units, .integer⟩)

/-- The general options, under `Names.core` and `Names.renderer`. -/
def coreRows (file : SettingsFile) : List Row :=
  [checkBoxRow file Names.core Names.useCpuJit "Enable CPU JIT"
     "Use the JIT compiler for the emulated CPU." true,
   checkBoxRow file Names.renderer Names.useFrameLimit "Limit Speed"
     "Limit emulation speed to a percentage of normal speed." true,
   sliderRow file Names.frameLimit "Limit Speed Percent"
     "Percentage of normal speed to run at." 0 200 100 "%"]

/-- The options of the emulated system, under `Names.system`. -/
def systemRows (file : SettingsFile) : List Row :=
  [choiceRow file Names.regionValue "Emulated Region"
     [("Auto-select", -1), ("JPN", 0), ("USA", 1), ("EUR", 2), ("AUS", 3), ("CHN", 4), ("KOR", 5),
      ("TWN", 6)] (-1),
   choiceRow file Names.language "Emulated Language"
     [("Japanese", 0), ("English", 1), ("French", 2), ("German", 3), ("Italian", 4),
      ("Spanish", 5), ("Simplified Chinese", 6), ("Korean", 7), ("Dutch", 8), ("Portuguese", 9),
      ("Russian", 10), ("Traditional Chinese", 11)] 1,
   choiceRow file Names.initClock "Clock" [("System Clock", 0), ("Fixed Time", 1)] 0,
   .editor "System Clock" (some "Start time used when the clock is fixed.")
     (.timeField ⟨⟨file, Names.system, Names.initTime⟩, "2000-01-01 00:00:01"⟩)]

/-- The controller bindings, under `Names.controls`. -/
def controlsRows (file : SettingsFile) : List Row :=
  [.header "Buttons",
   bindingRow file Names.buttonA "A",
   bindingRow file Names.buttonB "B",
   bindingRow file Names.buttonX "X",
   bindingRow file Names.buttonY "Y",
   bindingRow file Names.buttonSelect "Select",
   bindingRow file Names.buttonStart "Start",
   .header "Circle Pad",
   bindingRow file Names.circlePadVertical "Up/Down",
   bindingRow file Names.circlePadHorizontal "Left/Right",
   .header "C-Stick",
   bindingRow file Names.cStickVertical "Up/Down",
   bindingRow file Names.cStickHorizontal "Left/Right",
   .header "D-Pad",
   bindingRow file Names.dPadVertical "Up/Down",
   bindingRow file Names.dPadHorizontal "Left/Right",
   .header "Triggers",
   bindingRow file Names.buttonL "L",
   bindingRow file Names.buttonR "R",
   bindingRow file Names.buttonZL "ZL",
   bindingRow file Names.buttonZR "ZR"]

/-- The graphics options, under `Names.renderer`. -/
def rendererRows (file : SettingsFile) : List Row :=
  [checkBoxRow file Names.renderer Names.useHwRenderer "Hardware Renderer"
     "Render with the GPU instead of the CPU." true,
   checkBoxRow file Names.renderer Names.useHwShader "Hardware Shader"
     "Emulate shaders on the GPU." true,
   checkBoxRow file Names.renderer Names.shadersAccurateMul "Accurate Multiplication"
     "Slower but more accurate shader multiplication." false,
   sliderRow file Names.resolutionFactor "Internal Resolution"
     "Multiple of the native resolution to render at." 1 4 1 "x",
   checkBoxRow file Names.renderer Names.useVsync "V-Sync"
     "Synchronise frames with the display refresh rate." true,
   checkBoxRow file Names.renderer Names.filterMode "Linear Filtering"
     "Smooth textures with linear filtering." true]

/-- The audio options, under `Names.audio`. -/
def audioRows (file : SettingsFile) : List Row :=
  [checkBoxRow file Names.audio Names.enableAudioStretching "Audio Stretching"
     "Stretch audio to reduce stuttering when emulation runs slow." false]

/-- The rows of a `screen` that edits `file`; those of `config` lead to the other screens. -/
def rows (screen : Screen) (file : SettingsFile) : List Row :=
  match screen with
  | config   => all.tail.map fun s => .submenu s.title s
  | core     => coreRows file
  | system   => systemRows file
  | controls => controlsRows file
  | renderer => rendererRows file
  | audio    => audioRows file

end EmulatorSettings.Screen
