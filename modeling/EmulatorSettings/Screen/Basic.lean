import EmulatorSettings.Store.Setting

/-!
# Screens

The screens a front end offers, by name and by title, and the section and key names that the
emulator looks up in its settings files.  A setting under a name that is not in `Names` is kept but
never seen by the emulator.
-/

namespace EmulatorSettings

/-- A settings screen; `config` is the one that leads to the others. -/
inductive Screen where
  | config
  | core
  | system
  | controls
  | renderer
  | audio
  deriving DecidableEq

namespace Screen

/-- Every screen, `config` first. -/
def all : List Screen :=
  [config, core, system, controls, renderer, audio]

/-- The name that a user gives, as `ofName?` takes it. -/
def name : Screen → String
  | config   => "config"
  | core     => "core"
  | system   => "system"
  | controls => "controls"
  | renderer => "renderer"
  | audio    => "audio"

/-- The title shown, as `heading` gives it for the global settings. -/
def title : Screen → String
  | config   => "Settings"
  | core     => "General"
  | system   => "System"
  | controls => "Controls"
  | renderer => "Graphics"
  | audio    => "Audio"

/-- The screen with the name `s`, blank characters around it and the case of its letters aside. -/
def ofName? (s : String) : Option Screen :=
  let wanted := (Text.trim s.toList).map Char.toLower
  all.find? fun screen => screen.name.toList == wanted

/-- What is said of a name that `ofName?` does not know. -/
def unknownMessage (s : String) : String :=
  "unknown menu `" ++ s ++ "`"

/-- The title bar of a `screen` that edits `file`: the id of the game, or the screen's `title`. -/
def heading (screen : Screen) (file : SettingsFile) : String :=
  match file.gameId? with
  | some id => "Game Settings: " ++ id
  | none    => screen.title

end Screen

end EmulatorSettings

namespace EmulatorSettings.Names

/-! ### Section and key names -/

def core : String := "Core"
def system : String := "System"
def controls : String := "Controls"
def renderer : String := "Renderer"
def audio : String := "Audio"

/-- The sections of the global settings, in the order of their screens. -/
def sections : List String :=
  [core, system, controls, renderer, audio]

def useCpuJit : String := "use_cpu_jit"

def useHwRenderer : String := "use_hw_renderer"
def useHwShader : String := "use_hw_shader"
def shadersAccurateMul : String := "shaders_accurate_mul"
def useVsync : String := "use_vsync_new"
def resolutionFactor : String := "resolution_factor"
def useFrameLimit : String := "use_frame_limit"
def frameLimit : String := "frame_limit"
def filterMode : String := "filter_mode"

def enableAudioStretching : String := "enable_audio_stretching"

def regionValue : String := "region_value"
def language : String := "language"
def initClock : String := "init_clock"
def initTime : String := "init_time"

def buttonA : String := "button_a"
def buttonB : String := "button_b"
def buttonX : String := "button_x"
def buttonY : String := "button_y"
def buttonSelect : String := "button_select"
def buttonStart : String := "button_start"
def buttonL : String := "button_l"
def buttonR : String := "button_r"
def buttonZL : String := "button_zl"
def buttonZR : String := "button_zr"
def circlePadVertical : String := "circlepad_axis_vertical"
def circlePadHorizontal : String := "circlepad_axis_horizontal"
def cStickVertical : String := "cstick_axis_vertical"
def cStickHorizontal : String := "cstick_axis_horizontal"
def dPadVertical : String := "dpad_axis_vertical"
def dPadHorizontal : String := "dpad_axis_horizontal"

end EmulatorSettings.Names
