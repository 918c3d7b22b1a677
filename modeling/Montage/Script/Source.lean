import Montage.Script.Basic

/-!
# Reading the text of a script

The characters of a script are read one after the other, lines being counted. A line end behind a
backslash joins two lines. The lines of a here-document are cut out of the text when its operator
is read, so that reading goes on behind the operator.

* `Reading`: reads from a source, or finds that it breaks the grammar.
* `Lexeme`: words and operators.
* `GrammarFault.message`: the wording of what breaks the grammar.
-/

namespace Montage.Script

/-! ## Characters -/

def isNameStart (c : Char) : Bool := c.isAlpha || c = '_'

def isNameRest (c : Char) : Bool := c.isAlphanum || c = '_'

/-- Whether a text is the name of a variable or a function. -/
def isName (text : String) : Bool :=
  match text.toList with
  | first :: rest => isNameStart first && rest.all isNameRest
  | [] => false

/-- The parameters other than variables and arguments. -/
def isSpecial (c : Char) : Bool := "@*#?$!-".toList.contains c

/-- The characters that end a word outside of quotes. -/
def endsWord (c : Char) : Bool := " \t\n;&|<>()".toList.contains c

/-! ## Lexemes -/

inductive Lexeme where
  | stop
  | lineEnd
  | operator (text : String)
  | reserved (word : String)
  /-- An operator that redirects a descriptor. -/
  | redirect (descriptor : Nat) (operator : String)
  | word (pieces : Word)

/-- The words that open, part and close compound commands. -/
def reservedWords : List String :=
  ["!", "\x7b", "\x7d", "case", "do", "done", "elif", "else", "esac", "fi", "for", "if", "in",
    "then", "until", "while"]

/-- The text of a word without quotes and expansions. -/
def plainText : Word → Option String
  | [.literal text false] => some text
  | _ => none

namespace Lexeme

/-- A word that is reserved, as such. -/
def keyed : Lexeme → Lexeme
  | word pieces =>
    match plainText pieces with
    | some text => if reservedWords.contains text then reserved text else word pieces
    | none => word pieces
  | lexeme => lexeme

/-- Whether a list of commands within another command ends here. -/
def closes : Lexeme → Bool
  | stop => true
  | operator text => text = ")" || text = ";;"
  | reserved text =>
    ["do", "done", "elif", "else", "esac", "fi", "then", "\x7d"].contains text
  | _ => false

/-- How a message names a lexeme. -/
def shown : Lexeme → String
  | stop => "end of file"
  | lineEnd => "newline"
  | operator text => s!"\"{text}\""
  | reserved text => s!"\"{text}\""
  | redirect .. => "redirection"
  | word _ => "word"

end Lexeme

/-- The operators; one that begins with another stands before it. -/
def operators : List String := ["&&", "&", "||", "|", ";;", ";", "(", ")"]

def redirectionOperators : List String := ["<<-", "<<", "<&", "<>", "<", ">>", ">&", ">|", ">"]

/-- The descriptor that an operator redirects when no number stands before it. -/
def defaultDescriptor (operator : String) : Nat :=
  if operator.toList.head? = some '<' then 0 else 1

/-- The first of some operators that a text begins with. -/
def leading? (operators : List String) (cs : List Char) : Option String :=
  operators.find? fun operator => operator.toList.isPrefixOf cs

/-- The redirection that a text begins with: the descriptor, the operator and their length. -/
def redirection? (cs : List Char) : Option (Nat × String × Nat) :=
  match leading? redirectionOperators cs with
  | some operator => some (defaultDescriptor operator, operator, operator.length)
  | none =>
    match cs with
    | c :: rest =>
      if c.isDigit then
        (leading? redirectionOperators rest).map fun operator =>
          (c.toNat - '0'.toNat, operator, operator.length + 1)
      else none
    | [] => none

/-! ## Faults -/

inductive GrammarFault where
  | unexpected (found : String) (expected : Option String)
  | openQuote
  | openBrace
  | openArithmetic
  | openBackquote
  | badLoopVariable
  | badFunctionName
  deriving DecidableEq

def GrammarFault.message : GrammarFault → String
  | unexpected found none => s!"{found} unexpected"
  | unexpected found (some expected) => s!"{found} unexpected (expecting {expected})"
  | openQuote => "Unterminated quoted string"
  | openBrace => "Missing '\x7d'"
  | openArithmetic => "Missing '))'"
  | openBackquote => "EOF in backquote substitution"
  | badLoopVariable => "Bad for loop variable"
  | badFunctionName => "Bad function name"

/-- A fault and the line at which it was found. -/
structure Misreading where
  line : Nat
  fault : GrammarFault

/-! ## Sources -/

structure Source where
  rest : List Char
  line : Nat := 1
  /-- How many lines were cut out behind the present one. -/
  cut : Nat := 0
  /-- A lexeme that was read and given back. -/
  returned : Option Lexeme := none
  aliases : List (String × String) := []
  /-- The aliases whose texts were put in, each with the length of what stands behind its text. -/
  replaced : List (String × Nat) := []
  /-- How many lines end this text if it is that of a here-document. -/
  endLines : Option Nat := none

abbrev Reading := StateT Source (Except Misreading)

namespace Reading

def refuse {α : Type} (fault : GrammarFault) : Reading α := do throw ⟨(← get).line, fault⟩

/-- Refuses a text that ends too early. A here-document has no quotes that could be open, and its
end is found behind the lines that end it. -/
def refuseEnd {α : Type} (fault : GrammarFault) : Reading α := do
  match (← get).endLines with
  | none => refuse fault
  | some lines =>
    modify fun s => { s with line := s.line + lines }
    refuse (if fault = .openQuote then .openBrace else fault)

/-- Refuses a lexeme in whose place another may have been expected. -/
def unexpected {α : Type} (found : Lexeme) (expected : Option Lexeme) : Reading α :=
  refuse (.unexpected found.shown (expected.map Lexeme.shown))

/-- Takes the first characters. -/
def advance (count : Nat) : Reading Unit :=
  modify fun s =>
    let rest := s.rest.drop count
    match (s.rest.take count).count '\n' with
    | 0 => { s with rest }
    | lines => { s with rest, line := s.line + lines + s.cut, cut := 0 }

/-- How many joined line ends stand at the start of a text. -/
def joins : List Char → Nat
  | '\\' :: '\n' :: rest => joins rest + 1
  | _ => 0

/-- The next character behind joined line ends. -/
def peek : Reading (Option Char) := do
  advance (2 * joins (← get).rest)
  return (← get).rest.head?

/-- Takes the characters that satisfy a test. -/
def takeRun (p : Char → Bool) : Reading String := do
  let run := (← get).rest.takeWhile p
  advance run.length
  return String.ofList run

/-- Skips blanks and a comment. -/
def skipBlanks : Nat → Reading Unit
  | 0 => pure ()
  | fuel + 1 => do
    match ← peek with
    | some ' ' | some '\t' => do
      advance 1
      skipBlanks fuel
    | some '#' => discard (takeRun (· ≠ '\n'))
    | _ => pure ()

/-- Puts the text of an alias in the place of a word that was just read, if it `starts` a command or
stands behind an alias that ends in a blank; `before` characters were left when it was read. False
if the word is no alias, or stands in the text of the same alias. -/
def replaceAlias (starts : Bool) (before : Nat) (found : Lexeme) : Reading Bool := do
  let s ← get
  match found with
  | .word [.literal text false] =>
    let endsInBlank (name : String) : Bool :=
      ((s.aliases.lookup name).bind fun value => value.toList.getLast?).any fun c => c = ' ' || c = '\t'
    let follows := s.replaced.any fun (name, length) =>
      s.rest.length < length && length ≤ before && endsInBlank name
    let isInside := s.replaced.any fun (name, length) => name = text && length ≤ s.rest.length
    match s.aliases.lookup text with
    | some value =>
      if (starts || follows) && !isInside then
        set { s with
          rest := value.toList ++ s.rest
          replaced := (text, s.rest.length) :: s.replaced }
        return true
      else return false
    | none => return false
  | _ => return false

def giveBack (lexeme : Lexeme) : Reading Unit :=
  modify fun s => { s with returned := some lexeme }

/-- The lexeme that was given back, if there is one. -/
def takeBack : Reading (Option Lexeme) :=
  modifyGet fun s => (s.returned, { s with returned := none })

/-- Reads from another text. -/
def within {α : Type} (source : Source) (reading : Reading α) : Reading α := do
  match reading.run source with
  | .ok (a, _) => return a
  | .error misreading => throw misreading

/-! ## Here-documents -/

/-- Takes a word in which nothing is expanded: its text without quotes, and whether it had any. -/
def bareWord : Nat → Reading (String × Bool)
  | 0 => pure ("", false)
  | fuel + 1 => do
    let quotedUpTo (stop : Char) : Reading (String × Bool) := do
      advance 1
      let text ← takeRun (· ≠ stop)
      advance 1
      let (more, _) ← bareWord fuel
      return (text ++ more, true)
    match ← peek with
    | none => return ("", false)
    | some '\'' => quotedUpTo '\''
    | some '"' => quotedUpTo '"'
    | some '\\' => do
      advance 1
      let text := String.ofList ((← get).rest.take 1)
      advance 1
      let (more, _) ← bareWord fuel
      return (text ++ more, true)
    | some c =>
      if endsWord c then return ("", false)
      else do
        advance 1
        let (more, quoted) ← bareWord fuel
        return (String.ofList [c] ++ more, quoted)

/-- Cuts lines up to one that is the delimiter: what is cut without that line, and the rest; none if
no line is the delimiter. -/
def cutLines (delimiter : List Char) (stripping : Bool) :
    Nat → List Char → List Char × Option (List Char)
  | 0, _ => ([], none)
  | _, [] => ([], none)
  | fuel + 1, cs =>
    let line := cs.takeWhile (· ≠ '\n')
    let after := cs.dropWhile (· ≠ '\n')
    let line := if stripping then line.dropWhile (· = '\t') else line
    if line = delimiter then ([], some (after.drop 1))
    else
      let (more, rest) := cutLines delimiter stripping fuel (after.drop 1)
      (line ++ after.take 1 ++ more, rest)

/-- A text up to the first line end outside of quotes, and what follows that. -/
def splitCommandLine (quote : Option Char) : List Char → List Char × List Char
  | [] => ([], [])
  | '\\' :: c :: rest =>
    if quote = some '\'' then
      if c = '\'' then let (line, rest) := splitCommandLine none rest; ('\\' :: c :: line, rest)
      else let (line, rest) := splitCommandLine quote rest; ('\\' :: c :: line, rest)
    else let (line, rest) := splitCommandLine quote rest; ('\\' :: c :: line, rest)
  | c :: rest =>
    if c = '\n' && quote.isNone then ([], rest)
    else
      let quote :=
        if quote = some c then none
        else if quote.isNone && "'\"\x60".toList.contains c then some c
        else quote
      let (line, rest) := splitCommandLine quote rest
      (c :: line, rest)

/-- Cuts the text of a here-document out of the lines behind the present one, to be read as a source
of its own. -/
def cutDocument (delimiter : String) (stripping : Bool) : Reading Source :=
  modifyGet fun s =>
    let (here, after) := splitCommandLine none s.rest
    let (text, rest) := cutLines delimiter.toList stripping (after.length + 1) after
    let document : Source :=
      { rest := text
        line := s.line + here.count '\n' + s.cut + 1
        endLines := some (if rest.isSome then 1 else 0) }
    let rest := rest.getD []
    let lines := after.count '\n' - rest.count '\n'
    if here.length = s.rest.length then (document, s)
    else (document, { s with rest := here ++ '\n' :: rest, cut := s.cut + lines })

end Reading

end Montage.Script
