import Montage.Script.Arithmetic
import Montage.Host.Basic
import Montage.Text.Octet

/-!
# Conditions

The conditions of `test`: conditions on texts, integers and files, joined by `-a`, `-o`, `!` and
parentheses.

* `Condition.evaluate`: whether a condition holds, or why it cannot be read.
-/

namespace Montage.Condition

def unaryOperators : List String :=
  ["-r", "-w", "-x", "-e", "-f", "-d", "-c", "-b", "-p", "-u", "-g", "-k", "-s", "-t", "-z", "-n",
    "-h", "-O", "-G", "-L", "-S"]

def binaryOperators : List String :=
  ["=", "!=", "<", ">", "-eq", "-ne", "-ge", "-gt", "-le", "-lt", "-nt", "-ot", "-ef"]

/-! ## Single conditions -/

/-- The integer that an operand is. -/
def integer (operand : String) : Except String Int :=
  match Arithmetic.number? true operand with
  | some n => .ok n
  | none => .error s!"Illegal number: {operand}"

/-- A condition on one operand, for a user who may read and write all files. -/
def unary (h : Host) (operator operand : String) : Except String Bool := do
  let path := Octet.toText operand
  let entry := (h.find path).toOption.map Prod.snd
  match operator with
  | "-z" => return operand.isEmpty
  | "-n" => return !operand.isEmpty
  | "-t" => return (← integer operand) < 0
  | "-f" => return entry.any fun
      | .file .. => true
      | .folder _ => false
  | "-d" => return entry.any fun
      | .file .. => false
      | .folder _ => true
  | "-x" => return h.mayExecute path
  | "-s" => return entry.any fun
      | .file content _ => !content.isEmpty
      | .folder _ => true
  | "-e" | "-r" | "-w" | "-O" | "-G" => return entry.isSome
  | _ => return false

/-- A condition on two operands. All files are of one age. -/
def binary (h : Host) (left operator right : String) : Except String Bool := do
  let compare (holds : Int → Int → Bool) : Except String Bool := do
    return holds (← integer left) (← integer right)
  match operator with
  | "=" => return left == right
  | "!=" => return left != right
  | "<" => return decide (left < right)
  | ">" => return decide (right < left)
  | "-eq" => compare fun a b => decide (a = b)
  | "-ne" => compare fun a b => decide (a ≠ b)
  | "-lt" => compare fun a b => decide (a < b)
  | "-le" => compare fun a b => decide (a ≤ b)
  | "-gt" => compare fun a b => decide (b < a)
  | "-ge" => compare fun a b => decide (b ≤ a)
  | "-ef" =>
    let location (operand : String) : Option Location :=
      (h.find (Octet.toText operand)).toOption.map Prod.fst
    return (location left).isSome && location left == location right
  | _ => return false

/-! ## Joined conditions -/

/-- What an argument means where it stands. -/
inductive Token where
  | operand
  | unary
  | binary
  | negation
  | conjunction
  | disjunction
  | opening
  | closing
  | stop
  deriving DecidableEq

/-- What the first of some arguments means. An operator that is followed by none, or by a binary
operator with an operand, is an operand. -/
def token : List String → Token
  | [] => .stop
  | "!" :: _ => .negation
  | "-a" :: _ => .conjunction
  | "-o" :: _ => .disjunction
  | "(" :: rest => if rest.isEmpty then .operand else .opening
  | ")" :: _ => .closing
  | first :: rest =>
    if binaryOperators.contains first then .binary
    else if unaryOperators.contains first then
      match rest with
      | [] => .operand
      | [_] => .unary
      | second :: _ => if binaryOperators.contains second then .operand else .unary
    else .operand

mutual

/-- Conditions joined by `-o`, from a place where the first token was read: the value and the rest
from the last argument on. -/
def disjunction (h : Host) : Nat → Token → List String → Except String (Bool × List String)
  | 0, _, arguments => .ok (false, arguments)
  | fuel + 1, first, arguments => do
    let (left, rest) ← conjunction h fuel first arguments
    if token rest.tail = .disjunction then
      let next := rest.drop 2
      let (right, rest) ← disjunction h fuel (token next) next
      return (left || right, rest)
    else return (left, rest)

def conjunction (h : Host) : Nat → Token → List String → Except String (Bool × List String)
  | 0, _, arguments => .ok (false, arguments)
  | fuel + 1, first, arguments => do
    let (left, rest) ← negation h fuel first arguments
    if token rest.tail = .conjunction then
      let next := rest.drop 2
      let (right, rest) ← conjunction h fuel (token next) next
      return (left && right, rest)
    else return (left, rest)

def negation (h : Host) : Nat → Token → List String → Except String (Bool × List String)
  | 0, _, arguments => .ok (false, arguments)
  | fuel + 1, first, arguments => do
    if first = .negation then
      let next := token arguments.tail
      let (holds, rest) ← negation h fuel next (if next = .stop then arguments else arguments.tail)
      return (!holds, rest)
    else primary h fuel first arguments

def primary (h : Host) : Nat → Token → List String → Except String (Bool × List String)
  | 0, _, arguments => .ok (false, arguments)
  | fuel + 1, first, arguments => do
    match first with
    | .stop => return (false, arguments)
    | .opening =>
      let next := arguments.tail
      if token next = .closing then return (false, next)
      let (holds, rest) ← disjunction h fuel (token next) next
      if token rest.tail = .closing then return (holds, rest.tail)
      else throw "closing paren expected"
    | .unary =>
      match arguments with
      | operator :: operand :: rest =>
        return (← unary h operator operand, operand :: rest)
      | operator :: [] => throw s!"{operator}: argument expected"
      | [] => return (false, [])
    | _ =>
      match token arguments.tail, arguments with
      | .binary, left :: operator :: right :: rest =>
        return (← binary h left operator right, right :: rest)
      | .binary, _ :: operator :: [] => throw s!"{operator}: argument expected"
      | _, operand :: _ => return (!operand.isEmpty, arguments)
      | _, [] => return (false, [])

end

/-- A condition whose first argument means what is given. -/
def fromToken (h : Host) (first : Token) (arguments : List String) : Except String Bool := do
  let (holds, rest) ← disjunction h (5 * arguments.length + 5) first arguments
  match rest with
  | last :: _ :: _ => throw ((if last.isEmpty then "" else last ++ ": ") ++ "unexpected operator")
  | _ => return holds

/-- Whether a condition holds. Three or four arguments are read by their number: there one negation
in front counts as much as two. -/
def evaluate (h : Host) (negated : Bool) : List String → Except String Bool
  | [] => .ok negated
  | arguments@(first :: rest) =>
    let fromToken (first : Token) (arguments : List String) : Except String Bool :=
      (fromToken h first arguments).map (· != negated)
    let inParentheses := first = "(" && arguments.getLast? = some ")"
    let isBinary :=
      match arguments with
      | [_, operator, _] => binaryOperators.contains operator
      | _ => false
    let isShort := arguments.length = 3 || arguments.length = 4
    if isBinary then fromToken .operand arguments
    else if isShort && inParentheses then
      let inner := rest.dropLast
      fromToken (token inner) inner
    else if isShort && first = "!" then evaluate h true rest
    else fromToken (token arguments) arguments

end Montage.Condition
