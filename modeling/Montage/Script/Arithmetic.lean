import Montage.Number.Digits
import Montage.Script.Source
import Montage.Text

/-!
# Arithmetic

The expressions of `$((...))`: integers of 64 bits, which wrap around, with the operators of C
except for increments and the comma. An expression is evaluated while it is read.

* `Arithmetic.number?`: an integer in decimal, octal or hexadecimal notation.
* `Arithmetic.evaluate`: the value of an expression and what it assigns.
-/

namespace Montage.Arithmetic

/-! ## Integers -/

def greatest : Int := 9223372036854775807

def least : Int := -9223372036854775808

/-- Whether an integer fits in 64 bits with a sign. -/
def fits (n : Int) : Bool := decide (least ≤ n ∧ n ≤ greatest)

/-- The nearest integer that fits in 64 bits. -/
def clamp (n : Int) : Int := max least (min n greatest)

/-- The value of a digit in a notation up to hexadecimal. -/
def digit? (base : Nat) (c : Char) : Option Nat :=
  let value :=
    if c.isDigit then c.toNat - '0'.toNat
    else if 'a' ≤ c && c ≤ 'f' then c.toNat - 'a'.toNat + 10
    else if 'A' ≤ c && c ≤ 'F' then c.toNat - 'A'.toNat + 10
    else 16
  if value < base then some value else none

def isDigit (base : Nat) (c : Char) : Bool := (digit? base c).isSome

def ofDigits (base : Nat) (cs : List Char) : Nat :=
  cs.foldl (fun n c => base * n + (digit? base c).getD 0) 0

/-- A natural number at the start of a text that begins with a digit, and the rest. The notation is
octal behind a zero and hexadecimal behind `0x`. -/
def natural (cs : List Char) : Nat × List Char :=
  let read (base : Nat) (cs : List Char) : Nat × List Char :=
    (ofDigits base (cs.takeWhile (isDigit base)), cs.dropWhile (isDigit base))
  match cs with
  | '0' :: x :: c :: rest =>
    if (x = 'x' || x = 'X') && isDigit 16 c then read 16 (c :: rest) else read 8 cs
  | '0' :: _ => read 8 cs
  | _ => read 10 cs

/-- The integer at the start of a text, behind blanks and a sign, and the rest; none if there is no
digit. -/
def leadingInteger? (decimal : Bool) (cs : List Char) : Option (Int × List Char) :=
  let cs := cs.dropWhile Text.isBlank
  let (negative, cs) :=
    match cs with
    | '-' :: rest => (true, rest)
    | '+' :: rest => (false, rest)
    | _ => (false, cs)
  if cs.head?.any Char.isDigit then
    let (n, rest) :=
      if decimal then (Decimal.ofDigits (cs.takeWhile Char.isDigit), cs.dropWhile Char.isDigit)
      else natural cs
    some (if negative then -(n : Int) else n, rest)
  else none

/-- The integer that a text consists of, apart from blanks around it. -/
def number? (decimal : Bool) (text : String) : Option Int :=
  match leadingInteger? decimal text.toList with
  | some (n, rest) => if fits n && rest.all Text.isBlank then some n else none
  | none => if !decimal && text.toList.all Text.isBlank then some 0 else none

/-! ## Tokens -/

inductive Token where
  | number (value : Int64)
  | name (text : String)
  | operator (text : String)
  /-- A character that no expression contains. -/
  | stray
  | stop
  deriving DecidableEq

/-- The operators; one that begins with another stands before it. -/
def operators : List String :=
  ["<<=", ">>=", "==", "!=", "<=", ">=", "<<", ">>", "&&", "||", "+=", "-=", "*=", "/=", "%=", "&=",
    "|=", "^=", "=", "<", ">", "+", "-", "*", "/", "%", "&", "|", "^", "!", "~", "?", ":", "(", ")"]

/-- The tokens of an expression; `fuel` is more than its length. -/
def scan : Nat → List Char → List Token
  | 0, _ => [.stray]
  | _, [] => [.stop]
  | fuel + 1, c :: rest =>
    if c = ' ' || c = '\t' || c = '\n' then scan fuel rest
    else if c.isDigit then
      let (n, rest) := natural (c :: rest)
      .number (Int64.ofInt (clamp n)) :: scan fuel rest
    else if Script.isNameStart c then
      .name (String.ofList ((c :: rest).takeWhile Script.isNameRest))
        :: scan fuel (rest.dropWhile Script.isNameRest)
    else
      match Script.leading? operators (c :: rest) with
      | some operator => .operator operator :: scan fuel (rest.drop (operator.length - 1))
      | none => [.stray]

/-! ## Evaluation -/

inductive Fault where
  | expecting (what : String)
  | divisionByZero
  /-- The value of a variable is no integer. -/
  | illegalNumber (text : String)
  deriving DecidableEq

def Fault.message (expression : String) : Fault → String
  | expecting what => s!"arithmetic expression: expecting {what}: \"{expression}\""
  | divisionByZero => s!"arithmetic expression: division by zero: \"{expression}\""
  | illegalNumber text => s!"Illegal number: {text}"

/-- An expression that is being evaluated: the tokens that are left and the assignments made, the
last one first. -/
structure Progress where
  tokens : List Token
  assigned : List (String × Int64) := []

/-- An evaluation may look up the values of variables. -/
abbrev Evaluation := ReaderT (String → String) (StateT Progress (Except Fault))

namespace Evaluation

def peek : Evaluation Token := do return (← get).tokens.headD .stop

def advance : Evaluation Unit := modify fun s => { s with tokens := s.tokens.tail }

def refuse {α : Type} (fault : Fault) : Evaluation α := throw fault

/-- Takes an operator if it is next. -/
def takes (operator : String) : Evaluation Bool := do
  if (← peek) = .operator operator then
    advance
    return true
  else return false

/-- The value of a variable; one without a value is zero. -/
def value (name : String) : Evaluation Int64 := do
  match (← get).assigned.lookup name with
  | some n => return n
  | none =>
    let text := (← read) name
    match number? false text with
    | some n => return Int64.ofInt n
    | none => refuse (.illegalNumber text)

def assign (name : String) (n : Int64) : Evaluation Int64 := do
  modify fun s => { s with assigned := (name, n) :: s.assigned }
  return n

def ofBool (b : Bool) : Int64 := if b then 1 else 0

/-- The binary operators that bind more tightly the lower their number is. -/
def tightness : List (String × Nat) :=
  [("*", 0), ("/", 0), ("%", 0), ("+", 1), ("-", 1), ("<<", 2), (">>", 2), ("<", 3), ("<=", 3),
    (">", 3), (">=", 3), ("==", 4), ("!=", 4), ("&", 5), ("^", 6), ("|", 7)]

/-- The value of a binary operator. Shifts take their amount modulo 64. -/
def combine (operator : String) (a b : Int64) : Evaluation Int64 :=
  match operator with
  | "*" => pure (a * b)
  | "/" => if b = 0 then refuse .divisionByZero else pure (a / b)
  | "%" => if b = 0 then refuse .divisionByZero else pure (a % b)
  | "+" => pure (a + b)
  | "-" => pure (a - b)
  | "<<" => pure (a <<< b)
  | ">>" => pure (a >>> b)
  | "<" => pure (ofBool (decide (a < b)))
  | "<=" => pure (ofBool (decide (a ≤ b)))
  | ">" => pure (ofBool (decide (b < a)))
  | ">=" => pure (ofBool (decide (b ≤ a)))
  | "==" => pure (ofBool (a == b))
  | "!=" => pure (ofBool (a != b))
  | "&" => pure (a &&& b)
  | "^" => pure (a ^^^ b)
  | _ => pure (a ||| b)

/-- The operators that assign, each with the one that it applies first. -/
def assignments : List (String × Option String) :=
  [("=", none), ("+=", some "+"), ("-=", some "-"), ("*=", some "*"), ("/=", some "/"),
    ("%=", some "%"), ("<<=", some "<<"), (">>=", some ">>"), ("&=", some "&"), ("^=", some "^"),
    ("|=", some "|")]

/-- The assignment at the start of some tokens: the name, and the operator applied first. -/
def assignment? : List Token → Option (String × Option String)
  | .name name :: .operator operator :: _ => (assignments.lookup operator).map (name, ·)
  | _ => none

mutual

/-- An assignment or a conditional expression. Where `skipped` an expression is only read. -/
def expression : Nat → Bool → Evaluation Int64
  | 0, _ => refuse (.expecting "primary")
  | fuel + 1, skipped => do
    match assignment? (← get).tokens with
    | none => conditional fuel skipped
    | some (name, operator) =>
      advance
      advance
      let n ← expression fuel skipped
      if skipped then return n
      match operator with
      | none => assign name n
      | some operator => assign name (← combine operator (← value name) n)

def conditional : Nat → Bool → Evaluation Int64
  | 0, _ => refuse (.expecting "primary")
  | fuel + 1, skipped => do
    let condition ← disjunction fuel skipped
    if ← takes "?" then
      let yes ← expression fuel (skipped || condition = 0)
      unless ← takes ":" do refuse (.expecting "':'")
      let no ← conditional fuel (skipped || condition ≠ 0)
      return if condition = 0 then no else yes
    else return condition

def disjunction : Nat → Bool → Evaluation Int64
  | 0, _ => refuse (.expecting "primary")
  | fuel + 1, skipped => do
    let first ← conjunction fuel skipped
    if ← takes "||" then
      let second ← disjunction fuel (skipped || first ≠ 0)
      return ofBool (first ≠ 0 || second ≠ 0)
    else return first

def conjunction : Nat → Bool → Evaluation Int64
  | 0, _ => refuse (.expecting "primary")
  | fuel + 1, skipped => do
    let first ← primary fuel skipped
    let first ← operation fuel skipped 8 first
    if ← takes "&&" then
      let second ← conjunction fuel (skipped || first = 0)
      return ofBool (first ≠ 0 && second ≠ 0)
    else return first

/-- What follows the left operand of binary operators that bind more tightly than a limit. -/
def operation : Nat → Bool → Nat → Int64 → Evaluation Int64
  | 0, _, _, _ => refuse (.expecting "primary")
  | fuel + 1, skipped, limit, left => do
    let .operator operator ← peek | return left
    match tightness.lookup operator with
    | none => return left
    | some own =>
      if limit ≤ own then return left
      else
        advance
        let right ← primary fuel skipped
        let right ← operation fuel skipped own right
        let result ← if skipped then pure right else combine operator left right
        operation fuel skipped limit result

def primary : Nat → Bool → Evaluation Int64
  | 0, _ => refuse (.expecting "primary")
  | fuel + 1, skipped => do
    let token ← peek
    advance
    match token with
    | .number n => return n
    | .name name => if skipped then return 0 else value name
    | .operator "(" =>
      let n ← expression fuel skipped
      unless ← takes ")" do refuse (.expecting "')'")
      return n
    | .operator "+" => primary fuel skipped
    | .operator "-" => return -(← primary fuel skipped)
    | .operator "!" => return ofBool ((← primary fuel skipped) = 0)
    | .operator "~" => return ~~~(← primary fuel skipped)
    | _ => refuse (.expecting "primary")

end

/-- The value of a whole expression. -/
def whole (fuel : Nat) : Evaluation Int64 := do
  let n ← expression fuel false
  if (← peek) ≠ .stop then refuse (.expecting "EOF")
  return n

end Evaluation

/-- The value of an expression and what it assigns, in the order of the assignments. -/
def evaluate (valueOf : String → String) (text : String) :
    Except Fault (Int × List (String × Int)) := do
  let tokens := scan (text.length + 1) text.toList
  let (n, progress) ← (Evaluation.whole (10 * tokens.length + 10) valueOf).run { tokens }
  return (n.toInt, progress.assigned.reverse.map fun (name, n) => (name, n.toInt))

end Montage.Arithmetic
