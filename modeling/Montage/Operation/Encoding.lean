import Montage.Draft

/-!
# Encoding

The video codec with its bitrate, its quality and its preset.
-/

namespace Montage

structure Encoding where
  codec : Option String := none
  bitrate : Option String := none
  quality : Option Int := none
  preset : Option String := none
  deriving DecidableEq

namespace Encoding

def presets : List String :=
  ["ultrafast", "superfast", "veryfast", "faster", "fast", "medium", "slow", "slower", "veryslow"]

def isEmpty (e : Encoding) : Bool :=
  e.codec.isNone && e.bitrate.isNone && e.quality.isNone && e.preset.isNone

/-- One option is given, the quality has its range, and the preset is known (`validate`). -/
def check (e : Encoding) : Except Error Unit := do
  if e.isEmpty then
    throw (.invalidParameter "options" "EncodingOptions requires at least one option to be set")
  if let some quality := e.quality then
    if quality < 0 ∨ 51 < quality then
      throw (.invalidParameter "crf" "CRF must be between 0 and 51")
  if let some preset := e.preset then
    unless preset ∈ presets do
      let known := Text.join ", " presets
      throw (.invalidParameter "preset" s!"Preset must be one of: {known}")

/-- What an encoding adds to the command (`apply_to_command`). -/
def arguments (e : Encoding) : List String :=
  OutputOptions.pair "-c:v" e.codec ++ OutputOptions.pair "-b:v" e.bitrate
    ++ OutputOptions.pair "-crf" (e.quality.map Decimal.ofInt)
    ++ OutputOptions.pair "-preset" e.preset

def describe (e : Encoding) : String :=
  let part (label : String) : Option String → List String
    | some value => [label ++ ": " ++ value]
    | none => []
  let parts := part "codec" e.codec ++ part "videoBitrate" e.bitrate
    ++ part "crf" (e.quality.map Decimal.ofInt) ++ part "preset" e.preset
  let shown := Text.join ", " parts
  s!"Setting encoding options: {shown}"

end Encoding

end Montage
