import Montage.Number.Reader
import Montage.Number.Scientific
import Montage.Script.Arithmetic

/-!
# Formatted output

* `Format.echoText`: what `echo` writes.
* `Format.printf`: what `printf` writes, and what it complains about.
-/

namespace Montage.Format

/-! ## Escapes -/

/-- The character of a simple escape. -/
def escapeValue : Char → Option Char
  | '\\' => some '\\'
  | 'a' => some '\x07'
  | 'b' => some '\x08'
  | 'e' => some '\x1b'
  | 'f' => some '\x0c'
  | 'n' => some '\n'
  | 'r' => some '\r'
  | 't' => some '\t'
  | 'v' => some '\x0b'
  | _ => none

def isOctal (c : Char) : Bool := Arithmetic.isDigit 8 c

/-- The octet that octal digits stand for. -/
def ofOctal (cs : List Char) : Char := Char.ofNat (Arithmetic.ofDigits 8 cs % 256)

/-- The text behind a backslash, read as an escape: the character and the rest. A backslash that
begins no escape stands for itself. With `leadingZero` an octal escape has a zero more. -/
def readEscape (leadingZero : Bool) : List Char → Char × List Char
  | [] => ('\\', [])
  | c :: rest =>
    match escapeValue c with
    | some value => (value, rest)
    | none =>
      if isOctal c then
        let body := if leadingZero && c = '0' && rest.head?.any isOctal then rest else c :: rest
        let digits := (body.takeWhile isOctal).take 3
        (ofOctal digits, body.drop digits.length)
      else ('\\', c :: rest)

/-- A text with its escapes replaced, and whether output ends in it. -/
def unescape : Nat → List Char → List Char × Bool
  | 0, _ => ([], false)
  | _, [] => ([], false)
  | _ + 1, '\\' :: 'c' :: _ => ([], true)
  | fuel + 1, '\\' :: rest =>
    let (c, rest) := readEscape true rest
    let (more, ends) := unescape fuel rest
    (c :: more, ends)
  | fuel + 1, c :: rest =>
    let (more, ends) := unescape fuel rest
    (c :: more, ends)

def unescaped (text : String) : String × Bool :=
  let (cs, ends) := unescape (text.length + 1) text.toList
  (String.ofList cs, ends)

/-! ## `echo` -/

/-- The arguments of `echo` with blanks between and the end of the line behind them. -/
def echoLine (lineEnd : String) : List String → String
  | [] => lineEnd
  | [last] =>
    let (text, ends) := unescaped last
    text ++ if ends then "" else lineEnd
  | first :: rest =>
    let (text, ends) := unescaped first
    text ++ if ends then "" else " " ++ echoLine lineEnd rest

def echoText : List String → String
  | "-n" :: rest => echoLine "" rest
  | arguments => echoLine "\n" arguments

/-! ## Directives -/

/-- How a value is shown. -/
structure Directive where
  flags : List Char := []
  width : Nat := 0
  places : Option Nat := none
  conversion : Char

namespace Directive

def has (d : Directive) (flag : Char) : Bool := d.flags.contains flag

/-- A text filled up to the width. -/
def fill (d : Directive) (text : List Char) : List Char :=
  let blanks := List.replicate (d.width - text.length) ' '
  if d.has '-' then text ++ blanks else blanks ++ text

/-- A number with its sign, filled up to the width; with zeros behind the sign if `zeros`. -/
def fillNumber (d : Directive) (zeros : Bool) (sign body : List Char) : List Char :=
  if zeros && d.has '0' && !d.has '-' then
    sign ++ List.replicate (d.width - sign.length - body.length) '0' ++ body
  else d.fill (sign ++ body)

def sign (d : Directive) (negative : Bool) : List Char :=
  if negative then ['-'] else if d.has '+' then ['+'] else if d.has ' ' then [' '] else []

def showText (d : Directive) (text : List Char) : List Char :=
  d.fill (match d.places with
    | some places => text.take places
    | none => text)

/-- The digits of a number, at least as many as asked for. -/
def digits (d : Directive) (base n : Nat) : List Char :=
  let digits := if n = 0 && d.places = some 0 then [] else Nat.toDigits base n
  Text.padLeft '0' (d.places.getD 1) digits

def showSigned (d : Directive) (n : Int) : List Char :=
  d.fillNumber d.places.isNone (d.sign (decide (n < 0))) (d.digits 10 n.natAbs)

def showUnsigned (d : Directive) (n : Nat) : List Char :=
  let zeros := d.places.isNone
  match d.conversion with
  | 'o' =>
    let digits := d.digits 8 n
    d.fillNumber zeros [] (if d.has '#' && digits.head? ≠ some '0' then '0' :: digits else digits)
  | 'x' => d.fillNumber zeros (if d.has '#' && n ≠ 0 then ['0', 'x'] else []) (d.digits 16 n)
  | 'X' =>
    d.fillNumber zeros (if d.has '#' && n ≠ 0 then ['0', 'X'] else [])
      ((d.digits 16 n).map Char.toUpper)
  | _ => d.fillNumber zeros [] (d.digits 10 n)

def isNegative : Binary64 → Bool
  | .nan => false
  | .infinity negative => negative
  | .finite negative _ => negative

/-- A number with a point behind its digits, in front of the exponent, if it has none. -/
def pointed (cs : List Char) : List Char :=
  let mantissa := cs.takeWhile (· ≠ 'e')
  if mantissa.contains '.' then cs else mantissa ++ '.' :: cs.drop mantissa.length

def showNumber (d : Directive) (x : Binary64) : List Char :=
  let places := d.places.getD 6
  let body :=
    match d.conversion.toLower with
    | 'f' => (x.abs.fixed places).toList
    | 'e' => x.scientific places
    | _ => x.general (d.has '#') (max places 1)
  let body := if d.has '#' && x.isFinite then pointed body else body
  let body := if d.conversion.isUpper then body.map Char.toUpper else body
  d.fillNumber x.isFinite (d.sign (isNegative x)) body

end Directive

/-! ## `printf` -/

/-- Output in the making. -/
structure Progress where
  arguments : List String
  out : List Char := []
  complaints : List String := []

/-- Why output stops before the end of the format. -/
inductive Stop where
  | asked
  | failed (message : String)

abbrev Printing := ExceptT Stop (StateM Progress)

namespace Printing

def emit (cs : List Char) : Printing Unit := modify fun p => { p with out := cs.reverse ++ p.out }

def complain (message : String) : Printing Unit :=
  modify fun p => { p with complaints := message :: p.complaints }

/-- Takes the next argument. -/
def argument? : Printing (Option String) :=
  modifyGet fun p => (p.arguments.head?, { p with arguments := p.arguments.tail })

/-- Complains about what is left behind a number in an argument. -/
def checkRest (argument : String) (rest : List Char) : Printing Unit := do
  if rest.length = argument.length then
    unless rest.isEmpty do complain s!"{argument}: expected numeric value"
  else unless rest.isEmpty do complain s!"{argument}: not completely converted"

/-- The number of the character behind a quote. -/
def quoted? (argument : String) : Option Nat :=
  match argument.toList with
  | quote :: rest => if quote = '"' || quote = '\'' then some ((rest.head?.map Char.toNat).getD 0) else none
  | [] => none

/-- The next argument as an integer between limits. -/
def integer (low high : Int) : Printing Int := do
  let some argument ← argument? | return 0
  if let some n := quoted? argument then return n
  match Arithmetic.leadingInteger? false argument.toList with
  | none =>
    checkRest argument argument.toList
    return 0
  | some (n, rest) =>
    checkRest argument rest
    if low ≤ n && n ≤ high then return n
    if rest.isEmpty then complain s!"{argument}: Numerical result out of range"
    return if n < low then low else high

def signed : Printing Int := integer Arithmetic.least Arithmetic.greatest

/-- The greatest integer of 64 bits without a sign. -/
def greatestUnsigned : Int := 18446744073709551615

/-- The next argument as an integer without a sign; a negative one wraps around. -/
def unsigned : Printing Nat := do
  let n ← integer (-greatestUnsigned) greatestUnsigned
  return if n = -greatestUnsigned then greatestUnsigned.toNat else (n % (greatestUnsigned + 1)).toNat

def number : Printing Binary64 := do
  let some argument ← argument? | return 0
  if let some n := quoted? argument then return .ofInt n
  match Number.read argument.toList with
  | none =>
    checkRest argument argument.toList
    return 0
  | some (reading, rest) =>
    checkRest argument rest
    if reading.outOfRange && rest.isEmpty then
      complain s!"{argument}: Numerical result out of range"
    return reading.value

/-- A count in a format, digits or a star for the next argument, and the rest. -/
def count (cs : List Char) : Printing (Int × List Char) := do
  match cs with
  | '*' :: rest => return (← signed, rest)
  | _ => return (Decimal.ofDigits (cs.takeWhile Char.isDigit), cs.dropWhile Char.isDigit)

def isFlag (c : Char) : Bool := "#-+ 0".toList.contains c

/-- Reads a directive behind its percent sign: what it says, its text and the rest. -/
def directive (cs : List Char) : Printing (Directive × String × List Char) := do
  let flags := cs.takeWhile isFlag
  let (width, rest) ← count (cs.dropWhile isFlag)
  let (places, rest) ← match rest with
    | '.' :: rest => do
      let (places, rest) ← count rest
      pure (if places < 0 then none else some places.toNat, rest)
    | _ => pure (none, rest)
  match rest with
  | [] => throw (.failed "missing format character")
  | conversion :: after =>
    let text := String.ofList ('%' :: cs.take (cs.length - after.length))
    let flags := if width < 0 then '-' :: flags else flags
    return (⟨flags, width.natAbs, places, conversion⟩, text, after)

/-- Writes the next argument as a directive says. -/
def convert (d : Directive) (text : String) : Printing Unit := do
  let c := d.conversion
  if c = 's' then emit (d.showText ((← argument?).getD "").toList)
  else if c = 'b' then
    let (text, ends) := unescaped ((← argument?).getD "")
    emit (d.showText text.toList)
    if ends then throw .asked
  else if c = 'c' then emit (d.fill [((← argument?).getD "").toList.headD '\x00'])
  else if c = 'd' || c = 'i' then emit (d.showSigned (← signed))
  else if "ouxX".toList.contains c then emit (d.showUnsigned (← unsigned))
  else if "eEfFgG".toList.contains c then emit (d.showNumber (← number))
  else throw (.failed s!"{text}: invalid directive")

/-- One pass over a format. -/
def pass : Nat → List Char → Printing Unit
  | 0, _ => pure ()
  | _, [] => pure ()
  | fuel + 1, '\\' :: rest => do
    let (c, rest) := readEscape false rest
    emit [c]
    pass fuel rest
  | fuel + 1, '%' :: '%' :: rest => do
    emit ['%']
    pass fuel rest
  | fuel + 1, '%' :: rest => do
    let (d, text, rest) ← directive rest
    convert d text
    pass fuel rest
  | fuel + 1, c :: rest => do
    emit [c]
    pass fuel rest

/-- Passes over a format until no argument is left or a pass takes none. -/
def passes (format : List Char) : Nat → Printing Unit
  | 0 => pure ()
  | fuel + 1 => do
    let before := (← get).arguments.length
    pass (format.length + 1) format
    let after := (← get).arguments.length
    if 0 < after && after < before then passes format fuel

end Printing

/-- What `printf` did. -/
structure Printed where
  text : String
  complaints : List String
  error : Option String

def printf (format : String) (arguments : List String) : Printed :=
  let (outcome, p) := (Printing.passes format.toList (arguments.length + 1)).run { arguments }
  { text := String.ofList p.out.reverse
    complaints := p.complaints.reverse
    error := match outcome with
      | .error (.failed message) => some message
      | _ => none }

end Montage.Format
