import Montage.Script.Pathname

/-!
# Expansion of words

Parameters, arithmetic expressions and the output of scripts are put into words. How a script is
run to its output is handed in as `capture`.

* `Expansion.fields`: the fields of words, each split and matched against the files of the host.
* `Expansion.text`: the text of a word that is not split.
* `Expansion.pattern`: the pattern of a word.
-/

namespace Montage.Expansion

/-! ## Parameters -/

/-- What a parameter holds. -/
inductive Held where
  | text (text : String)
  | arguments (arguments : List String)

/-- The letters of the options in the order in which they are shown. -/
def switchOrder : List Char := "uabCEVvxsnmiIfe".toList

/-- What a parameter holds; none if it is unset. -/
def parameter? (s : Shell) (name : String) : Option Held :=
  match name.toList with
  | ['@'] | ['*'] => some (.arguments s.arguments)
  | ['#'] => some (.text (Decimal.ofInt s.arguments.length))
  | ['?'] => some (.text (Decimal.ofInt s.status))
  | ['$'] => some (.text (Decimal.ofInt s.process))
  | ['!'] => s.lastJob.map fun process => .text (Decimal.ofInt process)
  | ['-'] => some (.text (String.ofList (switchOrder.filter s.switches.contains)))
  | ['0'] => some (.text s.name)
  | c :: rest =>
    if c.isDigit then (s.arguments[Decimal.ofDigits (c :: rest) - 1]?).map .text
    else (s.value? name).map .text
  | [] => none

/-- What stands between arguments that are joined. -/
def joint (s : Shell) : String := String.ofList (s.separators.take 1)

/-- What stands between the arguments in the value of a parameter. Where fields are made they are
kept apart, by the character zero, but for those of `$*` in quotes. -/
def between (s : Shell) (name : String) (quoted splitting : Bool) : String :=
  if splitting && (name = "@" || !quoted) then "\x00" else joint s

def Held.value (between : String) : Held → String
  | text t => t
  | arguments as => Text.join between as

/-- Bits with a gap between the arguments. -/
def apart (hard : Bool) : List (List Bit) → List Bit
  | [] => []
  | [last] => last
  | first :: rest => first ++ .gap hard :: apart hard rest

/-- The bits of a text that was put in. -/
def textBits (quoted splitting : Bool) (text : String) : List Bit :=
  if quoted then .mark :: Bit.ofText true false text else .start :: Bit.ofText false splitting text

/-- The bits of a value in which arguments may be kept apart. -/
def valueBits (quoted splitting : Bool) (value : String) : List Bit :=
  apart quoted ((Text.splitOn '\x00' value.toList).map fun part =>
    textBits quoted splitting (String.ofList part))

/-- The bits of what a parameter holds. -/
def heldBits (s : Shell) (name : String) (quoted splitting : Bool) : Held → List Bit
  | .arguments [] => []
  | held => valueBits quoted splitting (held.value (between s name quoted splitting))

/-- What a parameter holds. With the option `u` one that is unset is an error. -/
def require (name : String) : Running Held := do
  match parameter? (← get) name with
  | some held => return held
  | none =>
    if (← get).isOn 'u' then Running.fail s!"{name}: parameter not set"
    else return .text ""

/-! ## Tildes -/

/-- A text with a tilde at its start replaced by the home folder, if a slash or the end of the word
follows it. -/
def withHome (home : Option String) (endsWord : Bool) (cs : List Char) : List Char :=
  match cs, home with
  | ['~'], some home => if endsWord then home.toList else cs
  | '~' :: '/' :: rest, some home => home.toList ++ '/' :: rest
  | _, _ => cs

/-- A word with a tilde at its start replaced. In an assignment tildes behind colons are too. -/
def replaceTilde (s : Shell) (assigns : Bool) : Word → Word
  | .literal text false :: rest =>
    let parts := if assigns then Text.splitOn ':' text.toList else [text.toList]
    let last := parts.length - 1
    let parts := parts.mapIdx fun i part =>
      withHome (s.value? "HOME") (i < last || rest.isEmpty) part
    .literal (String.ofList ([':'].intercalate parts)) false :: rest
  | word => word

/-! ## Values -/

/-- The value of an arithmetic expression. What it assigns is assigned. -/
def calculate (expression : String) : Running String := do
  let s ← get
  match Arithmetic.evaluate s.valueOr expression with
  | .error fault => Running.fail (fault.message expression)
  | .ok (n, assigned) =>
    assigned.forM fun (name, value) => Running.assign name (Decimal.ofInt value)
    return Decimal.ofInt n

/-- A text without line ends at its end, and without the octet zero. -/
def trimLineEnds (text : String) : String :=
  let kept := text.toList.filter (· ≠ '\x00')
  String.ofList (kept.reverse.dropWhile (· = '\n')).reverse

/-- The error for a parameter without a value: the given message or a general one. -/
def missing {α : Type} (name message : String) (orEmpty : Bool) : Running α :=
  if message.isEmpty then
    Running.fail (name ++ ": parameter not set" ++ if orEmpty then " or null" else "")
  else Running.fail s!"{name}: {message}"

/-- Assigns a value in an expansion. -/
def assignDefault (name value : String) : Running Unit := do
  if Script.isName name then Running.assign name value
  else Running.fail s!"{name}: bad variable name"

/-! ## Words -/

section

variable (capture : Script → Running String)

mutual

/-- The bits of a piece of a word. `splitting` tells whether fields are made, `inner` whether the
literal text outside of quotes may separate them. -/
def pieceBits (splitting inner : Bool) : Piece → Running (List Bit)
  | .literal text quoted => do
    return if quoted then .mark :: Bit.ofText true false text else Bit.ofText false inner text
  | .arithmetic expression quoted => do
    let text := Glyph.text (Bit.glyphs (← wordBits false false expression))
    return textBits quoted splitting (← calculate text)
  | .output script quoted => do
    let text ← capture script
    return textBits quoted splitting (trimLineEnds text)
  | .parameter _ .malformed _ => Running.fail "Bad substitution"
  | .parameter name .plain quoted => do
    let held ← require name
    return heldBits (← get) name quoted splitting held
  | .parameter name .length quoted => do
    let length := ((← require name).value (joint (← get))).length
    return textBits quoted splitting (Decimal.ofInt length)
  | .parameter name (.trimmed atEnd longest pattern) quoted => do
    let held ← require name
    if (parameter? (← get) name).isNone then return []
    let p := Pattern.ofGlyphs (Bit.glyphs (← wordBits false false pattern))
    let text := (held.value (between (← get) name quoted splitting)).toList
    let kept := if atEnd then p.trimEnd longest text else p.trimStart longest text
    return valueBits quoted splitting (String.ofList kept)
  | .parameter name (.replaced replacement orEmpty word) quoted => do
    let s ← get
    let value (held : Held) : String := held.value (between s name quoted splitting)
    let held := (parameter? s name).filter fun held => !orEmpty || !(value held).isEmpty
    match replacement, held with
    | .alternative, none => return []
    | .alternative, some _ | .default, none => wordBits splitting (splitting && !quoted) word
    | .assigned, none =>
      let text := Glyph.text (Bit.glyphs (← wordBits false false word))
      assignDefault name text
      return textBits quoted splitting text
    | .required, none =>
      let text := Glyph.text (Bit.glyphs (← wordBits false false word))
      missing name text orEmpty
    | _, some held => return heldBits s name quoted splitting held

def wordBits (splitting inner : Bool) : List Piece → Running (List Bit)
  | [] => pure []
  | piece :: rest => do
    let first ← pieceBits splitting inner piece
    return first ++ (← wordBits splitting inner rest)

end

/-- The text of a word that is not split. -/
def text (word : Word) : Running String := do
  let word := replaceTilde (← get) false word
  return Glyph.text (Bit.glyphs (← wordBits capture false false word))

/-- The text that is assigned by a word. -/
def assignedText (word : Word) : Running String := do
  let word := replaceTilde (← get) true word
  return Glyph.text (Bit.glyphs (← wordBits capture false false word))

def pattern (word : Word) : Running Pattern := do
  let word := replaceTilde (← get) false word
  return Pattern.ofGlyphs (Bit.glyphs (← wordBits capture false false word))

/-- The fields of a word. -/
def wordFields (word : Word) : Running (List String) := do
  let word := replaceTilde (← get) false word
  let bits ← wordBits capture true false word
  let s ← get
  let fields := Fields.split s.separators bits
  if s.isOn 'f' then return fields.map Glyph.text
  else return fields.flatMap s.host.pathnames

/-- The fields of words. -/
def fields (words : List Word) : Running (List String) := do
  return (← words.mapM (wordFields capture)).flatten

end

end Montage.Expansion
