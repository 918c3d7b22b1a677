/-!
# Scripts

The programs of a host are scripts in the language of the system's shell. A script is text in
octets; here are the trees that it is read as.

* `Piece`, `Word`: a word before expansion, piece by piece.
* `Redirection`: what a command does with its open files.
* `Script`: a command, simple or compound.
-/

namespace Montage

/-- How a redirection opens a file. -/
inductive Opening where
  | reading
  | writing
  /-- As for writing, even if files are protected from that. -/
  | overwriting
  | appending
  | both
  deriving DecidableEq

/-- What takes the place of a value in an expansion such as `${name:-word}`. -/
inductive Replacement where
  /-- The word, if there is no value. -/
  | default
  /-- The word, which is also assigned, if there is no value. -/
  | assigned
  /-- The word is the message of an error if there is no value. -/
  | required
  /-- The word, if there is a value. -/
  | alternative
  deriving DecidableEq

mutual

/-- A piece of a word. What stands in quotes is neither split into fields nor read as a pattern. -/
inductive Piece where
  | literal (text : String) (quoted : Bool)
  | parameter (name : String) (use : Use) (quoted : Bool)
  /-- The value of an arithmetic expression. -/
  | arithmetic (expression : List Piece) (quoted : Bool)
  /-- What a script writes. -/
  | output (script : Script) (quoted : Bool)

/-- What is made of the value of a parameter. -/
inductive Use where
  | plain
  | length
  /-- With `orEmpty` an empty value counts as none. -/
  | replaced (replacement : Replacement) (orEmpty : Bool) (word : List Piece)
  /-- The value without the shortest or longest end, or start, that matches a pattern. -/
  | trimmed (atEnd longest : Bool) (pattern : List Piece)
  | malformed

/-- Where a redirected descriptor leads. -/
inductive Target where
  | file (opening : Opening) (path : List Piece)
  | descriptor (number : Nat)
  | closed
  /-- A descriptor that a word names. -/
  | named (number : List Piece)
  | document (text : List Piece)

inductive Redirection where
  | to (descriptor : Nat) (target : Target)

inductive Script where
  | simple (line : Nat) (assignments : List (String × List Piece)) (words : List (List Piece))
      (redirections : List Redirection)
  | block (parts : List Script)
  | andThen (first second : Script)
  | orElse (first second : Script)
  | negate (body : Script)
  | pipeline (parts : List Script)
  | background (body : Script)
  | subshell (body : Script)
  | branch (condition yes no : Script)
  /-- Runs the body as long as the condition succeeds or, with `untilSuccess`, fails. -/
  | loop (untilSuccess : Bool) (condition body : Script)
  | forEach (line : Nat) (name : String) (items : List (List Piece)) (body : Script)
  /-- Runs the first body of which a pattern matches. -/
  | choice (line : Nat) (subject : List Piece) (cases : List (List (List Piece) × Script))
  | redirected (line : Nat) (body : Script) (redirections : List Redirection)
  | define (name : String) (body : Script)

end

abbrev Word := List Piece

namespace Script

/-- The built-in commands whose failure ends a script. No function can have their names. -/
def specialBuiltins : List String :=
  [".", ":", "break", "continue", "eval", "exec", "exit", "export", "local", "readonly", "return",
    "set", "shift", "times", "trap", "unset"]

end Script

end Montage
