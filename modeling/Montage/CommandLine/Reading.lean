import Montage.CommandLine.Options

/-!
# Reading the command line

The arguments are cut into groups: positionals, switches, and flags with the argument after them
as their value. Each group adds to what was gathered; what concerns several groups is checked at
the end, so the order of different flags does not matter.

* `Group.cut`: the groups of a command line.
* `Gathered.add`: what one group adds.
* `parseSize`, `parseCrop`: the values of `--resize` and `--crop`.
* `parse`: the options of a command line.
-/

namespace Montage.CommandLine

/-! ## Values -/

def parseNumber (flag value : String) : Except Error Binary64 :=
  match Number.ofWord? value with
  | some n => .ok n
  | none => .error (.usage s!"{flag} expects a number, got '{value}'")

def parseInteger (flag value : String) : Except Error Int :=
  match Integer.ofWord? value with
  | some n => .ok n
  | none => .error (.usage s!"{flag} expects an integer, got '{value}'")

/-- One side of a size; an empty text leaves it open. -/
def parseSide (text : List Char) : Except Error (Option Int) :=
  if text.isEmpty then .ok none else (parseInteger "--resize" (String.ofList text)).map some

/-- A size `WxH`, `W` or `xH`: the sides before and after the first `x` (`parse_resize`). -/
def parseSize (value : String) (keepsAspect : Bool) : Except Error Resize := do
  let width ← parseSide (value.toList.takeWhile (· ≠ 'x'))
  let height ← parseSide ((value.toList.dropWhile (· ≠ 'x')).drop 1)
  if width.isNone && height.isNone then
    throw (.usage s!"--resize expects WxH, W or xH, got '{value}'")
  return ⟨width, height, keepsAspect⟩

/-- A part of the frame, `W:H` or `W:H:X:Y` (`parse_crop`). -/
def parseCrop (value : String) : Except Error Crop := do
  let part (text : List Char) := parseInteger "--crop" (String.ofList text)
  match Text.splitOn ':' value.toList with
  | [width, height] => return { width := ← part width, height := ← part height }
  | [width, height, x, y] => return ⟨← part width, ← part height, ← part x, ← part y⟩
  | _ => throw (.usage s!"--crop expects W:H or W:H:X:Y, got '{value}'")

/-! ## Groups -/

inductive Group where
  | positional (text : String)
  | switch (s : Switch)
  | option (name value : String)
  /-- A flag at the end that lacks its value. -/
  | dangling (name : String)
  deriving DecidableEq

namespace Group

def isFlag (argument : String) : Bool := ['-', '-'].isPrefixOf argument.toList

/-- The group of an argument that nothing follows. -/
def ofLast (argument : String) : Group :=
  if isFlag argument then
    match Switch.ofName? argument with
    | some s => .switch s
    | none => .dangling argument
  else .positional argument

/-- Cuts arguments into groups. -/
def cut : List String → List Group
  | [] => []
  | [last] => [ofLast last]
  | argument :: value :: rest =>
    if isFlag argument then
      match Switch.ofName? argument with
      | some s => .switch s :: cut (value :: rest)
      | none => .option argument value :: cut rest
    else .positional argument :: cut (value :: rest)

end Group

/-! ## Gathering -/

/-- What was gathered from groups. The size is read at the end, when it is known whether the
aspect is to be kept. -/
structure Gathered where
  options : Options := {}
  positionals : List String := []
  size : Option String := none
  keepsAspect : Bool := true
  deriving DecidableEq

namespace Gathered

/-- Sets something in the options. -/
def update (g : Gathered) (change : Options → Options) : Gathered :=
  { g with options := change g.options }

/-- Sets something in the caption, which comes into being with its first flag. -/
def updateCaption (g : Gathered) (change : Caption → Caption) : Gathered :=
  g.update fun o => { o with caption := some (change (o.caption.getD {})) }

/-- Sets something in the overlay, which comes into being with its first flag. -/
def updateOverlay (g : Gathered) (change : Overlay → Overlay) : Gathered :=
  g.update fun o => { o with overlay := some (change (o.overlay.getD {})) }

def addSwitch (g : Gathered) : Switch → Gathered
  | .dryRun => g.update fun o => { o with dryRun := true }
  | .videoOnly => g.update fun o => { o with concat := { o.concat with videoOnly := true } }
  | .help => g.update fun o => { o with help := true }

/-- Adds a flag with its value. -/
def addFlag (g : Gathered) (flag : Flag) (value : String) : Except Error Gathered :=
  match flag with
  | .start => .ok (g.update fun o => { o with trim := { o.trim with start := some (.clock value) } })
  | .stop => .ok (g.update fun o => { o with trim := { o.trim with stop := some (.clock value) } })
  | .duration =>
    .ok (g.update fun o => { o with trim := { o.trim with duration := some (.clock value) } })
  | .resize => .ok { g with size := some value }
  | .keepAspect => do
    let n ← parseInteger flag.name value
    return { g with keepsAspect := n ≠ 0 }
  | .crop => do
    let crop ← parseCrop value
    return g.update fun o => { o with crop := some crop }
  | .rotate => do
    let n ← parseNumber flag.name value
    return g.update fun o => { o with rotate := some n }
  | .speed => do
    let n ← parseNumber flag.name value
    return g.update fun o => { o with speed := some n }
  | .brightness => do
    let n ← parseNumber flag.name value
    return g.update fun o => { o with color := { o.color with brightness := some n } }
  | .contrast => do
    let n ← parseNumber flag.name value
    return g.update fun o => { o with color := { o.color with contrast := some n } }
  | .saturation => do
    let n ← parseNumber flag.name value
    return g.update fun o => { o with color := { o.color with saturation := some n } }
  | .text => .ok (g.updateCaption fun c => { c with text := value })
  | .textPosition => do
    let anchor ← Anchor.ofName value
    return g.updateCaption fun c => { c with place := { c.place with anchor := some anchor } }
  | .fontSize => do
    let n ← parseInteger flag.name value
    return g.updateCaption fun c => { c with fontSize := some n }
  | .fontColor => .ok (g.updateCaption fun c => { c with fontColor := some value })
  | .overlay => .ok (g.updateOverlay fun v => { v with source := value })
  | .overlayPosition => do
    let anchor ← Anchor.ofName value
    return g.updateOverlay fun v => { v with place := { v.place with anchor := some anchor } }
  | .opacity => do
    let n ← parseNumber flag.name value
    return g.updateOverlay fun v => { v with opacity := some n }
  | .codec =>
    .ok (g.update fun o => { o with encoding := { o.encoding with codec := some value } })
  | .bitrate =>
    .ok (g.update fun o => { o with encoding := { o.encoding with bitrate := some value } })
  | .crf => do
    let n ← parseInteger flag.name value
    return g.update fun o => { o with encoding := { o.encoding with quality := some n } }
  | .preset =>
    .ok (g.update fun o => { o with encoding := { o.encoding with preset := some value } })
  | .concat =>
    .ok (g.update fun o =>
      { o with concat := { o.concat with inputs := o.concat.inputs ++ [value] } })
  | .concatStrategy =>
    .ok (g.update fun o => { o with concat := { o.concat with strategy := some value } })

/-- Adds one group. -/
def add (g : Gathered) : Group → Except Error Gathered
  | .positional text => .ok { g with positionals := g.positionals ++ [text] }
  | .switch s => .ok (g.addSwitch s)
  | .dangling name => .error (.usage s!"{name} requires a value")
  | .option name value =>
    match Flag.ofName? name with
    | some flag => g.addFlag flag value
    | none => .error (.usage s!"Unknown option: {name}")

/-- The options with their files: a list of files to join makes the input optional. -/
def withFiles (g : Gathered) (o : Options) : Except Error Options :=
  match g.positionals, o.concat.inputs with
  | [output], _ :: _ => .ok { o with output }
  | [input, output], _ => .ok { o with input := some input, output }
  | _, _ => .error (.usage "Expected <input> <output>")

/-- The flags of a caption need its text, those of an overlay its source. -/
def checkNeeds (o : Options) : Except Error Unit := do
  if o.caption.any fun c => c.text.isEmpty then
    throw (.usage "--text-position/--font-size/--font-color need --text")
  if o.overlay.any fun v => v.source.isEmpty then
    throw (.usage "--overlay-position/--opacity need --overlay")

/-- The options once all groups are added. A request for help is not checked any further. -/
def finish (g : Gathered) : Except Error Options :=
  if g.options.help then .ok g.options
  else do
    let resize ← g.size.mapM fun value => parseSize value g.keepsAspect
    let o ← g.withFiles { g.options with resize }
    checkNeeds o
    return o

end Gathered

/-- The options that the arguments ask for (`parse_cli`). -/
def parse (arguments : List String) : Except Error Options := do
  let gathered ← (Group.cut arguments).foldlM Gathered.add {}
  gathered.finish

end Montage.CommandLine
