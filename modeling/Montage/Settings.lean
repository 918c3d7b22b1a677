import Montage.Host.Basic

/-!
# Settings

The settings are environment variables. A setting is read where it is needed, so one that cannot
be read fails only there. They are those of the process: nobody else changes them.

* `Settings.text`: a variable that is unset or empty has the default.
* `Settings.integer`: a variable that is unset has the default; text after the integer is ignored.
-/

namespace Montage.Settings

/-- The text of a setting, or its default (`get_env_string`). -/
def text (h : Host) (name default : String) : String :=
  match h.valueOf? name with
  | some value => if value.isEmpty then default else value
  | none => default

/-- The integer at the start of a setting, or its default (`get_env_int`). -/
def integer (h : Host) (name : String) (default : Int) : Except Integer.Fault Int :=
  match h.valueOf? name with
  | some value => (Integer.read value.toList).map (·.1)
  | none => .ok default

/-- A setting that is on unless it is zero. -/
def switch (h : Host) (name : String) (default : Int) : Except Integer.Fault Bool :=
  (integer h name default).map (· ≠ 0)

/-- The program that runs the commands: a path, or a name that is looked up. -/
def program (h : Host) : String := text h "FFMPEG_PATH" "ffmpeg"

/-- The name of the folder for list files and for outputs that were given no name. -/
def tempName (h : Host) : String :=
  text h "CLIPFORGE_TEMP_DIR" (Path.joinText h.directoryText "temp")

/-- The folder for list files and for outputs that were given no name (`temp_dir`). The working
directory is asked for even if a variable names the folder. -/
def tempFolder (h : Host) : Except FileFault String := h.currentPath.map fun _ => tempName h

/-- Whether outputs that are there are overwritten without asking. -/
def overwrite (h : Host) : Except Integer.Fault Bool := switch h "OVERWRITE_OUTPUT" 1

/-- Whether the program leaves out its banner. -/
def hideBanner (h : Host) : Except Integer.Fault Bool := switch h "HIDE_BANNER" 1

/-- Whether messages for debugging are logged. -/
def debugging (h : Host) : Except Integer.Fault Bool := switch h "DEBUG_LOGGING" 0

/-- Whether the table of timings is shown at the end. -/
def printTiming (h : Host) : Except Integer.Fault Bool := switch h "PRINT_TIMING" 0

/-- The distance from the edges, in pixels, of what is placed without one. -/
def overlayPadding (h : Host) : Except Integer.Fault Int := integer h "OVERLAY_PADDING" 10

end Montage.Settings
