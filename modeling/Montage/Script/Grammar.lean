import Montage.Script.Source

/-!
# The grammar of scripts

A script is read command by command: a command that breaks the grammar is found only when the
commands on the lines before it have run.

* `Script.Reading.list`: a list of commands.
* `Script.next`: the next command of a source.
* `Script.quotedText`: a text whose expansions are read.

All readers take fuel, which the length of the text bounds.
-/

namespace Montage.Script

/-- What ends a text in which only expansions and backslashes are special. -/
inductive Closing where
  | quote
  /-- The brace of an expansion; `inner` tells whether an inner quote is open. -/
  | brace (inner : Bool)
  /-- Two closing parentheses, when no inner one is open. -/
  | parentheses (depth : Nat)
  | textEnd
  deriving DecidableEq

/-- How far a list of commands goes. -/
inductive Extent where
  | line
  /-- Up to a word that closes the command around it. -/
  | nested
  deriving DecidableEq

/-- The parts of a simple command, the last one first. -/
structure Parts where
  assignments : List (String × Word) := []
  words : List Word := []
  redirections : List Redirection := []

/-- A command with redirections, if there are any. They take the place of those of a subshell that
is all that the command holds. -/
def withRedirections (line : Nat) (body : Script) (redirections : List Redirection) : Script :=
  match redirections, body with
  | [], _ => body
  | _, .redirected line (.subshell inner) _ => .redirected line (.subshell inner) redirections
  | _, _ => .redirected line body redirections

def Parts.command (p : Parts) (line : Nat) : Script :=
  .simple line p.assignments.reverse p.words.reverse p.redirections.reverse

/-- A list of commands, given from the last to the first. -/
def ofList : List Script → Script
  | [only] => only
  | parts => .block parts.reverse

/-- A word that assigns: the name and the value behind the equals sign. -/
def assignment? : Word → Option (String × Word)
  | .literal text false :: rest =>
    let name := String.ofList (text.toList.takeWhile (· ≠ '='))
    match text.toList.dropWhile (· ≠ '=') with
    | _ :: value =>
      if isName name then
        some (name, if value.isEmpty then rest else .literal (String.ofList value) false :: rest)
      else none
    | [] => none
  | _ => none

/-- Puts literal text in front of a word. -/
def addLiteral (text : String) (quoted : Bool) : Word → Word
  | .literal more q :: rest =>
    if q = quoted then .literal (text ++ more) quoted :: rest
    else .literal text quoted :: .literal more q :: rest
  | word => .literal text quoted :: word

/-- The characters behind which a backslash in quotes hides the special meaning. -/
def escapedIn (closing : Closing) (c : Char) : Bool :=
  match closing with
  | .textEnd => "\\$\x60".toList.contains c
  | .brace _ => "\\$\x60\"\x7d".toList.contains c
  | _ => "\\$\x60\"".toList.contains c

/-- What is missing when a text ends before it is closed. -/
def Closing.fault? : Closing → Option GrammarFault
  | quote | brace _ => some .openQuote
  | parentheses _ => some .openArithmetic
  | textEnd => none

/-- The text up to the closing backquote, with the backslashes taken off that stand before special
characters, and the rest. -/
def backquotedText (quoted : Bool) : List Char → Option (List Char × List Char)
  | [] => none
  | '\x60' :: rest => some ([], rest)
  | '\\' :: c :: rest => do
    let (text, after) ← backquotedText quoted rest
    let kept :=
      if c = '\n' then [] else if c = '"' && quoted || "\\$\x60".toList.contains c then [c]
      else ['\\', c]
    return (kept ++ text, after)
  | c :: rest => do
    let (text, after) ← backquotedText quoted rest
    return (c :: text, after)

/-- The operators of an expansion that replace a value. -/
def replacement? : Char → Option Replacement
  | '-' => some .default
  | '=' => some .assigned
  | '?' => some .required
  | '+' => some .alternative
  | _ => none

namespace Reading

/-- An end that no text reaches: the fuel of a reader is bounded by the length of its text. -/
def exhausted {α : Type} : Reading α := unexpected .stop none

mutual

/-- The pieces of a word outside of quotes. Within braces it goes up to the closing brace, else to
a blank or an operator. -/
def openPieces : Nat → Bool → Reading Word
  | 0, _ => exhausted
  | fuel + 1, inBraces => do
    match ← peek with
    | none => if inBraces then refuseEnd .openBrace else return []
    | some '\'' =>
      advance 1
      let text ← takeRun (· ≠ '\'')
      if (← get).rest.isEmpty then refuseEnd .openQuote
      advance 1
      return addLiteral text true (← openPieces fuel inBraces)
    | some '"' =>
      advance 1
      let quoted ← quotedPieces fuel .quote
      let quoted :=
        match quoted with
        | [.parameter "@" .plain true] => quoted
        | _ => addLiteral "" true quoted
      return quoted ++ (← openPieces fuel inBraces)
    | some '\\' =>
      advance 1
      let text := String.ofList ((← get).rest.take 1)
      advance 1
      return addLiteral (if text.isEmpty then "\\" else text) true (← openPieces fuel inBraces)
    | some '$' =>
      advance 1
      let piece ← dollar fuel false
      return piece :: (← openPieces fuel inBraces)
    | some '\x60' =>
      advance 1
      let piece ← backquoted fuel false
      return piece :: (← openPieces fuel inBraces)
    | some c =>
      if inBraces && c = '\x7d' then
        advance 1
        return []
      else if !inBraces && endsWord c then return []
      else
        advance 1
        let run ← takeRun fun d =>
          !"'\"\\$\x60".toList.contains d && !(if inBraces then d = '\x7d' else endsWord d)
        return addLiteral (String.ofList [c] ++ run) false (← openPieces fuel inBraces)

/-- The pieces of a text in which only expansions and backslashes are special. -/
def quotedPieces : Nat → Closing → Reading Word
  | 0, _ => exhausted
  | fuel + 1, closing => do
    let literal (text : String) (closing : Closing) : Reading Word := do
      return addLiteral text true (← quotedPieces fuel closing)
    match ← peek with
    | none =>
      match closing.fault? with
      | some fault => refuseEnd fault
      | none => return []
    | some '\\' =>
      advance 1
      match (← get).rest.head? with
      | none => literal "\\" closing
      | some c =>
        advance 1
        literal (String.ofList (if escapedIn closing c then [c] else ['\\', c])) closing
    | some '$' =>
      advance 1
      let piece ← dollar fuel true
      return piece :: (← quotedPieces fuel closing)
    | some '\x60' =>
      advance 1
      let piece ← backquoted fuel true
      return piece :: (← quotedPieces fuel closing)
    | some c =>
      advance 1
      match closing, c with
      | .quote, '"' | .brace false, '\x7d' => return []
      | .brace inner, '"' => quotedPieces fuel (.brace !inner)
      | .parentheses depth, '(' => literal "(" (.parentheses (depth + 1))
      | .parentheses (depth + 1), ')' => literal ")" (.parentheses depth)
      | .parentheses 0, ')' =>
        if (← peek) = some ')' then
          advance 1
          return []
        else literal ")" (.parentheses 0)
      | _, _ =>
        let run ← takeRun fun d => !"\\$\x60\"\x7d()".toList.contains d
        literal (String.ofList [c] ++ run) closing

/-- What stands behind a dollar sign. One that begins no expansion is literal. -/
def dollar : Nat → Bool → Reading Piece
  | 0, _ => exhausted
  | fuel + 1, quoted => do
    match ← peek with
    | some '(' =>
      advance 1
      if (← peek) = some '(' then
        advance 1
        return .arithmetic (← quotedPieces fuel (.parentheses 0)) quoted
      else
        let script ← list fuel .nested true []
        expect fuel (.operator ")")
        return .output script quoted
    | some '\x7b' =>
      advance 1
      braced fuel quoted
    | some c =>
      if isNameStart c then return .parameter (← takeRun isNameRest) .plain quoted
      else if c.isDigit || isSpecial c then
        advance 1
        return .parameter (String.ofList [c]) .plain quoted
      else return .literal "$" quoted
    | none => return .literal "$" quoted

/-- The script between backquotes, which has lines of its own. -/
def backquoted : Nat → Bool → Reading Piece
  | 0, _ => exhausted
  | fuel + 1, quoted => do
    let rest := (← get).rest
    match backquotedText quoted rest with
    | none =>
      advance rest.length
      refuse .openBackquote
    | some (text, after) =>
      advance (rest.length - after.length)
      return .output (← within { rest := text, aliases := (← get).aliases } (list fuel .nested true [])) quoted

/-- An expansion in braces, behind the opening one. -/
def braced : Nat → Bool → Reading Piece
  | 0, _ => exhausted
  | fuel + 1, quoted => do
    match ← peek with
    | some '#' =>
      advance 1
      match (← get).rest with
      | c :: rest =>
        if isNameRest c then
          let name ← takeRun (if c.isDigit then Char.isDigit else isNameRest)
          discard (bracedWord fuel quoted)
          return .parameter name .length quoted
        else if c ≠ '\x7d' && isSpecial c && rest.head? = some '\x7d' then
          advance 2
          return .parameter (String.ofList [c]) .length quoted
        else return .parameter "#" (← use fuel quoted) quoted
      | [] => return .parameter "#" (← use fuel quoted) quoted
    | some c =>
      if isNameStart c then
        let name ← takeRun isNameRest
        return .parameter name (← use fuel quoted) quoted
      else if c.isDigit then
        let name ← takeRun Char.isDigit
        return .parameter name (← use fuel quoted) quoted
      else if isSpecial c then
        advance 1
        return .parameter (String.ofList [c]) (← use fuel quoted) quoted
      else
        discard (bracedWord fuel quoted)
        return .parameter "" .malformed quoted
    | none => refuseEnd (if quoted then .openQuote else .openBrace)

/-- The word up to the closing brace of an expansion. -/
def bracedWord : Nat → Bool → Reading Word
  | 0, _ => exhausted
  | fuel + 1, quoted => if quoted then quotedPieces fuel (.brace false) else openPieces fuel true

/-- What an expansion in braces makes of a value, up to the closing brace. -/
def use : Nat → Bool → Reading Use
  | 0, _ => exhausted
  | fuel + 1, quoted => do
    let malformed : Reading Use := do
      modify fun s => { s with rest := s.rest.drop 1 }
      discard (bracedWord fuel quoted)
      return .malformed
    match ← peek with
    | some '\x7d' =>
      advance 1
      return .plain
    | some ':' =>
      advance 1
      match (← peek).bind replacement? with
      | some replacement =>
        advance 1
        return .replaced replacement true (← bracedWord fuel quoted)
      | none => malformed
    | some c =>
      match replacement? c with
      | some replacement =>
        advance 1
        return .replaced replacement false (← bracedWord fuel quoted)
      | none =>
        if c = '%' || c = '#' then
          advance 1
          let longest := (← peek) = some c
          if longest then advance 1
          return .trimmed (c = '%') longest (← openPieces fuel true)
        else malformed
    | none => malformed

/-- The next lexeme, in which no word is reserved. -/
def lexeme : Nat → Reading Lexeme
  | 0 => exhausted
  | fuel + 1 => do
    if let some lexeme ← takeBack then return lexeme
    skipBlanks (2 * (← get).rest.length + 1)
    match ← peek with
    | none => return .stop
    | some '\n' =>
      advance 1
      return .lineEnd
    | some _ =>
      let rest := (← get).rest
      if let some (descriptor, operator, length) := redirection? rest then
        advance length
        return .redirect descriptor operator
      else if let some operator := leading? operators rest then
        advance operator.length
        return .operator operator
      else return .word (← openPieces fuel false)

/-- The next lexeme where a command may start: words may be reserved. -/
def keyword : Nat → Bool → Reading Lexeme
  | 0, _ => exhausted
  | fuel + 1, skipsLineEnds => do
    let before := (← get).rest.length
    match ← lexeme fuel with
    | .lineEnd => if skipsLineEnds then keyword fuel true else return .lineEnd
    | other =>
      let found := other.keyed
      if ← replaceAlias true before found then keyword fuel skipsLineEnds else return found

/-- The next lexeme where a case may start: behind line ends, and no word is an alias there. -/
def caseStart : Nat → Reading Lexeme
  | 0 => exhausted
  | fuel + 1 => do
    match ← lexeme fuel with
    | .lineEnd => caseStart fuel
    | other => return other.keyed

/-- Takes a lexeme that has to stand here. -/
def expect : Nat → Lexeme → Reading Unit
  | 0, _ => exhausted
  | fuel + 1, expected => do
    let found ← keyword fuel false
    if found.shown ≠ expected.shown then unexpected found (some expected)

/-- A list of commands; `done` are those already read, the last one first. Unless it may be empty
a list has to begin with a command. -/
def list : Nat → Extent → Bool → List Script → Reading Script
  | 0, _, _, _ => exhausted
  | fuel + 1, extent, mayEnd, done => do
    let found ← keyword fuel (extent = .nested)
    match found with
    | .stop =>
      giveBack .stop
      return ofList done
    | .lineEnd => return ofList done
    | _ =>
      giveBack found
      if extent = .nested && mayEnd && found.closes then return ofList done
      let command ← andOr fuel
      match ← lexeme fuel with
      | .operator "&" => list fuel extent true (.background command :: done)
      | .operator ";" => list fuel extent true (command :: done)
      | .lineEnd =>
        giveBack .lineEnd
        list fuel extent true (command :: done)
      | .stop =>
        giveBack .stop
        return ofList (command :: done)
      | other =>
        if extent = .line then unexpected other none
        giveBack other
        return ofList (command :: done)

/-- Commands joined by `&&` and `||`, which bind from the left. -/
def andOr : Nat → Reading Script
  | 0 => exhausted
  | fuel + 1 => do andOrRest fuel (← pipeline fuel false)

def andOrRest : Nat → Script → Reading Script
  | 0, _ => exhausted
  | fuel + 1, first => do
    match ← lexeme fuel with
    | .operator "&&" => andOrRest fuel (.andThen first (← pipeline fuel true))
    | .operator "||" => andOrRest fuel (.orElse first (← pipeline fuel true))
    | other =>
      giveBack other
      return first

def pipeline : Nat → Bool → Reading Script
  | 0, _ => exhausted
  | fuel + 1, skipsLineEnds => do
    match ← keyword fuel skipsLineEnds with
    | .reserved "!" => return .negate (← pipelineRest fuel [← command fuel false])
    | other =>
      giveBack other
      pipelineRest fuel [← command fuel false]

/-- The rest of a pipeline; `done` are the commands already read, the last one first. -/
def pipelineRest : Nat → List Script → Reading Script
  | 0, _ => exhausted
  | fuel + 1, done => do
    match ← lexeme fuel with
    | .operator "|" => pipelineRest fuel ((← command fuel true) :: done)
    | other =>
      giveBack other
      match done with
      | [only] => return only
      | parts => return .pipeline parts.reverse

/-- One command, simple or compound. -/
def command : Nat → Bool → Reading Script
  | 0, _ => exhausted
  | fuel + 1, skipsLineEnds => do
    let found ← keyword fuel skipsLineEnds
    let line := (← get).line
    let compound (body : Reading Script) (last : Lexeme) : Reading Script := do
      let body ← body
      expect fuel last
      return withRedirections line body (← redirections fuel)
    match found with
    | .reserved "if" => compound (branch fuel) (.reserved "fi")
    | .reserved "while" => compound (loop fuel false) (.reserved "done")
    | .reserved "until" => compound (loop fuel true) (.reserved "done")
    | .reserved "for" => compound (forEach fuel line) (.reserved "done")
    | .reserved "case" => compound (choice fuel line) (.reserved "esac")
    | .reserved "\x7b" => compound (list fuel .nested false []) (.reserved "\x7d")
    | .operator "(" =>
      compound (do return .subshell (← list fuel .nested false [])) (.operator ")")
    | .word _ | .redirect .. =>
      giveBack found
      simple fuel line {}
    | _ => unexpected found none

/-- The redirections behind a compound command. -/
def redirections : Nat → Reading (List Redirection)
  | 0 => exhausted
  | fuel + 1 => do
    match ← keyword fuel false with
    | .redirect descriptor operator =>
      let target ← target fuel operator
      return .to descriptor target :: (← redirections fuel)
    | other =>
      giveBack other
      return []

/-- The target of a redirection, behind its operator. -/
def target : Nat → String → Reading Target
  | 0, _ => exhausted
  | fuel + 1, operator => do
    if operator = "<<" || operator = "<<-" then
      skipBlanks ((← get).rest.length + 1)
      match (← peek).filter fun c => !endsWord c with
      | none => unexpected (← lexeme fuel) none
      | some _ =>
        let (delimiter, quoted) ← bareWord ((← get).rest.length + 1)
        let document ← cutDocument delimiter (operator = "<<-")
        if quoted then return .document [.literal (String.ofList document.rest) true]
        else return .document (← within document (quotedPieces fuel .textEnd))
    else
      match ← lexeme fuel with
      | .word pieces =>
        match operator with
        | ">>" => return .file .appending pieces
        | ">|" => return .file .overwriting pieces
        | "<" => return .file .reading pieces
        | "<>" => return .file .both pieces
        | ">&" | "<&" =>
          match (plainText pieces).map String.toList with
          | some ['-'] => return .closed
          | some [c] =>
            if c.isDigit then return .descriptor (c.toNat - '0'.toNat) else return .named pieces
          | _ => return .named pieces
        | _ => return .file .writing pieces
      | other => unexpected other none

/-- A simple command or a function, behind the parts already read. -/
def simple : Nat → Nat → Parts → Reading Script
  | 0, _, _ => exhausted
  | fuel + 1, line, p => do
    let before := (← get).rest.length
    match ← lexeme fuel with
    | .word pieces =>
      if ← replaceAlias p.words.isEmpty before (.word pieces) then simple fuel line p
      else
        match p.words, assignment? pieces with
        | [], some pair => simple fuel line { p with assignments := pair :: p.assignments }
        | _, _ => simple fuel line { p with words := pieces :: p.words }
    | .redirect descriptor operator =>
      let target ← target fuel operator
      simple fuel line { p with redirections := .to descriptor target :: p.redirections }
    | .operator "(" =>
      match p with
      | ⟨[], [pieces], []⟩ => define fuel pieces
      | _ =>
        giveBack (.operator "(")
        return p.command line
    | other =>
      giveBack other
      return p.command line

/-- A function, behind its name and the opening parenthesis. -/
def define : Nat → Word → Reading Script
  | 0, _ => exhausted
  | fuel + 1, pieces => do
    expect fuel (.operator ")")
    match plainText pieces with
    | some name =>
      if isName name && !specialBuiltins.contains name then
        return .define name (← command fuel true)
      else refuse .badFunctionName
    | none => refuse .badFunctionName

/-- The parts of a branch behind `if` or `elif`. -/
def branch : Nat → Reading Script
  | 0 => exhausted
  | fuel + 1 => do
    let condition ← list fuel .nested false []
    expect fuel (.reserved "then")
    let yes ← list fuel .nested false []
    match ← keyword fuel false with
    | .reserved "elif" => return .branch condition yes (← branch fuel)
    | .reserved "else" => return .branch condition yes (← list fuel .nested false [])
    | other =>
      giveBack other
      return .branch condition yes (.block [])

/-- The condition and the body of a loop. -/
def loop : Nat → Bool → Reading Script
  | 0, _ => exhausted
  | fuel + 1, untilSuccess => do
    let condition ← list fuel .nested false []
    expect fuel (.reserved "do")
    return .loop untilSuccess condition (← list fuel .nested false [])

/-- A loop over items, behind `for`. Without items it runs over the arguments. -/
def forEach : Nat → Nat → Reading Script
  | 0, _ => exhausted
  | fuel + 1, line => do
    let .word pieces ← lexeme fuel | refuse .badLoopVariable
    let some name := (plainText pieces).filter isName | refuse .badLoopVariable
    let items ← match ← keyword fuel true with
      | .reserved "in" => items fuel
      | .operator ";" => pure [[.parameter "@" .plain true]]
      | other =>
        giveBack other
        pure [[.parameter "@" .plain true]]
    let found ← keyword fuel true
    if found.shown ≠ (Lexeme.reserved "do").shown then unexpected found (some (.reserved "do"))
    return .forEach line name items (← list fuel .nested false [])

/-- The items of a loop, up to the separator behind them. -/
def items : Nat → Reading (List Word)
  | 0 => exhausted
  | fuel + 1 => do
    match ← lexeme fuel with
    | .word pieces => return pieces :: (← items fuel)
    | .lineEnd | .operator ";" => return []
    | other => unexpected other none

/-- A choice, behind `case`, up to its last word. -/
def choice : Nat → Nat → Reading Script
  | 0, _ => exhausted
  | fuel + 1, line => do
    match ← lexeme fuel with
    | .word subject =>
      let found ← keyword fuel true
      if found.shown ≠ (Lexeme.reserved "in").shown then unexpected found (some (.reserved "in"))
      return .choice line subject (← cases fuel)
    | other => unexpected other (some (.word []))

/-- The cases of a choice. The word that ends them is given back. -/
def cases : Nat → Reading (List (List Word × Script))
  | 0 => exhausted
  | fuel + 1 => do
    match ← caseStart fuel with
    | .reserved "esac" =>
      giveBack (.reserved "esac")
      return []
    | first =>
      let first ← match first with
        | .operator "(" => lexeme fuel
        | other => pure other
      let patterns ← patterns fuel first
      let body ← list fuel .nested true []
      match ← keyword fuel true with
      | .reserved "esac" =>
        giveBack (.reserved "esac")
        return [(patterns, body)]
      | .operator ";;" => return (patterns, body) :: (← cases fuel)
      | other => unexpected other (some (.operator ";;"))

/-- The patterns of a case, of which the first lexeme was read, up to the parenthesis. -/
def patterns : Nat → Lexeme → Reading (List Word)
  | 0, _ => exhausted
  | fuel + 1, first => do
    let pattern ← match first with
      | .word pieces => pure pieces
      | .reserved text => pure [.literal text false]
      | _ => pure []
    match ← lexeme fuel with
    | .operator "|" => return pattern :: (← patterns fuel (← lexeme fuel))
    | .operator ")" => return [pattern]
    | other => unexpected other (some (.operator ")"))

end

end Reading

/-- A text as the word that it is between double quotes. -/
def quotedText (text : String) : Except Misreading Word :=
  let rest := text.toList
  let fuel := 12 * rest.length + 40
  ((Reading.quotedPieces fuel .textEnd).run { rest }).map Prod.fst

/-- The next command of a source, which goes to the end of a line; none at the end of the text. -/
def next (source : Source) : Except Misreading (Option Script × Source) :=
  let aliasLength := (source.aliases.map fun e => e.2.length + 1).foldl (· + ·) 0
  let fuel := 12 * source.rest.length * (aliasLength + 1) + 40
  let reading : Reading (Option Script) := do
    match ← Reading.lexeme fuel with
    | .stop => return none
    | .lineEnd => return some (.block [])
    | other =>
      Reading.giveBack other
      return some (← Reading.list fuel .line false [])
  reading.run source

end Montage.Script
