import Montage.Text

/-!
# Octets

Scripts work on bytes. A byte is kept as the character with its number, so that a text of octets
is a text in which every character is below 256.

* `Octet.ofText`: the bytes of a text in UTF-8.
* `Octet.toText`: the text that bytes spell in UTF-8.
-/

namespace Montage.Octet

/-- The bytes of a text, each as the character with its number. -/
def ofText (text : String) : String :=
  String.ofList (text.toList.flatMap fun c =>
    (String.utf8EncodeChar c).map fun byte => Char.ofNat byte.toNat)

/-- What stands for bytes that spell no character. -/
def replacement : Char := '\uFFFD'

/-- The payload of continuation bytes added to that of the bytes before them; none if one of them
is no continuation byte. -/
def payload? (start : Nat) (cs : List Char) : Option Nat :=
  cs.foldlM (fun n c => if c.toNat / 64 = 2 then some (64 * n + c.toNat % 64) else none) start

/-- The character that a first byte spells together with `count` continuation bytes. Its number has
to be at least `least`, or fewer bytes would do. -/
def joined? (start least count : Nat) (rest : List Char) : Option (Char × Nat) := do
  let number ← payload? start (rest.take count)
  if rest.length < count || number < least then none
  else if number.isValidChar then some (Char.ofNat number, count) else none

/-- The character at the start of a text of octets and how many bytes follow its first. -/
def first? (c : Char) (rest : List Char) : Option (Char × Nat) :=
  let n := c.toNat
  if n < 0x80 then some (c, 0)
  else if n / 32 = 6 then joined? (n % 32) 0x80 1 rest
  else if n / 16 = 14 then joined? (n % 16) 0x800 2 rest
  else if n / 8 = 30 then joined? (n % 8) 0x10000 3 rest
  else none

/-- The characters that octets spell, after `skipped` octets that belong to the last one. -/
def decode : Nat → List Char → List Char
  | _, [] => []
  | skipped + 1, _ :: rest => decode skipped rest
  | 0, c :: rest =>
    match first? c rest with
    | some (d, following) => d :: decode following rest
    | none => replacement :: decode 0 rest

/-- The text that octets spell. -/
def toText (octets : String) : String := String.ofList (decode 0 octets.toList)

end Montage.Octet
