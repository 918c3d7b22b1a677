import Montage.Operation

/-!
# The options of the command line

What a command line asks for, and the flags that ask for it.

* `CommandLine.Options`: all that can be asked for.
* `CommandLine.Switch`, `CommandLine.Flag`: the flags without and with a value.
* `CommandLine.usage`: the text that explains them.
-/

namespace Montage.CommandLine

structure Options where
  input : Option String := none
  output : String := ""
  trim : Trim := {}
  resize : Option Resize := none
  crop : Option Crop := none
  rotate : Option Binary64 := none
  speed : Option Binary64 := none
  color : ColorAdjustment := {}
  caption : Option Caption := none
  overlay : Option Overlay := none
  encoding : Encoding := {}
  concat : ConcatRequest := {}
  dryRun : Bool := false
  help : Bool := false
  deriving DecidableEq

/-- The flags without a value. -/
inductive Switch where
  | dryRun | videoOnly | help
  deriving DecidableEq

namespace Switch

def all : List Switch := [dryRun, videoOnly, help]

def name : Switch → String
  | dryRun => "--dry-run"
  | videoOnly => "--video-only"
  | help => "--help"

def ofName? (text : String) : Option Switch := all.find? fun s => s.name = text

end Switch

/-- The flags with a value. -/
inductive Flag where
  | start | stop | duration
  | resize | keepAspect | crop | rotate | speed
  | brightness | contrast | saturation
  | text | textPosition | fontSize | fontColor
  | overlay | overlayPosition | opacity
  | codec | bitrate | crf | preset
  | concat | concatStrategy
  deriving DecidableEq

namespace Flag

def all : List Flag :=
  [start, stop, duration, resize, keepAspect, crop, rotate, speed, brightness, contrast,
    saturation, text, textPosition, fontSize, fontColor, overlay, overlayPosition, opacity, codec,
    bitrate, crf, preset, concat, concatStrategy]

def name : Flag → String
  | start => "--start"
  | stop => "--end"
  | duration => "--duration"
  | resize => "--resize"
  | keepAspect => "--keep-aspect"
  | crop => "--crop"
  | rotate => "--rotate"
  | speed => "--speed"
  | brightness => "--brightness"
  | contrast => "--contrast"
  | saturation => "--saturation"
  | text => "--text"
  | textPosition => "--text-position"
  | fontSize => "--font-size"
  | fontColor => "--font-color"
  | overlay => "--overlay"
  | overlayPosition => "--overlay-position"
  | opacity => "--opacity"
  | codec => "--codec"
  | bitrate => "--bitrate"
  | crf => "--crf"
  | preset => "--preset"
  | concat => "--concat"
  | concatStrategy => "--concat-strategy"

def ofName? (text : String) : Option Flag := all.find? fun f => f.name = text

end Flag

/-- The text shown for `--help` and after a command line that cannot be read (`usage_text`). -/
def usage : String :=
  String.join [
    "Usage: clipforge <input> <output> [options]\n",
    "       clipforge --concat A --concat B [...] <output> [options]\n",
    "\n",
    "  --start T --end T --duration T   trim ([[HH:]MM:]SS[.mmm])\n",
    "  --resize WxH|W|xH --keep-aspect 0|1\n",
    "  --crop W:H[:X:Y]  --rotate DEG  --speed F\n",
    "  --brightness B --contrast C --saturation S\n",
    "  --text STR --text-position POS --font-size N --font-color C\n",
    "  --overlay PATH --overlay-position POS --opacity A\n",
    "  --codec C --bitrate B --crf N --preset P\n",
    "  --concat PATH (repeatable) --concat-strategy filter|demuxer\n",
    "  --video-only  --dry-run  --help\n"]

end Montage.CommandLine
