import Wiring.Decimal.Layout
import Wiring.Json.Basic

/-!
# Writing JSON

Two written forms of a value: `compact`, without blanks, and `pretty`, with a line for each item
and two spaces a level. Members are written in the order they have.
-/

namespace Wiring

namespace Json

/-- Doubles are written in place from `1e-5` up to `1e16`. -/
def layout : Layout := ⟨-5, 16⟩

/-- The lowercase hexadecimal digit of a number below sixteen. -/
def hexDigit (n : Nat) : Char := Nat.digitChar n

/-- A character inside quotes: quotes, backslashes and controls are escaped, all else is raw. -/
def escapeChar (c : Char) : List Char :=
  if c = '"' then ['\\', '"']
  else if c = '\\' then ['\\', '\\']
  else if c = '\x08' then ['\\', 'b']
  else if c = '\x0c' then ['\\', 'f']
  else if c = '\n' then ['\\', 'n']
  else if c = '\r' then ['\\', 'r']
  else if c = '\t' then ['\\', 't']
  else if c.toNat < 0x20 then
    ['\\', 'u', '0', '0', hexDigit (c.toNat / 16), hexDigit (c.toNat % 16)]
  else [c]

def quote (s : String) : List Char := '"' :: s.toList.flatMap escapeChar ++ ['"']

/-- The decimal form of an integer. -/
def intChars (n : Int) : List Char :=
  if n < 0 then '-' :: Layout.digits n.natAbs else Layout.digits n.natAbs

mutual

/-- The form without blanks. -/
def compactChars : Json → List Char
  | .null => "null".toList
  | .bool b => if b then "true".toList else "false".toList
  | .int n => intChars n
  | .float x => layout.chars x
  | .str s => quote s
  | .arr [] => ['[', ']']
  | .arr (j :: js) => '[' :: compactChars j ++ compactItems js ++ [']']
  | .obj [] => ['\x7b', '\x7d']
  | .obj ((k, j) :: ms) =>
      '\x7b' :: quote k ++ ':' :: compactChars j ++ compactMembers ms ++ ['\x7d']

/-- Further items, each after a comma. -/
def compactItems : List Json → List Char
  | [] => []
  | j :: js => ',' :: compactChars j ++ compactItems js

/-- Further members, each after a comma. -/
def compactMembers : List (String × Json) → List Char
  | [] => []
  | (k, j) :: ms => ',' :: quote k ++ ':' :: compactChars j ++ compactMembers ms

end

def newline (level : Nat) : List Char := '\n' :: List.replicate (2 * level) ' '

mutual

/-- The form with a line for each item, from a given level. -/
def prettyChars (level : Nat) : Json → List Char
  | .null => "null".toList
  | .bool b => if b then "true".toList else "false".toList
  | .int n => intChars n
  | .float x => layout.chars x
  | .str s => quote s
  | .arr [] => ['[', ']']
  | .arr (j :: js) =>
      '[' :: newline (level + 1) ++ prettyChars (level + 1) j ++ prettyItems (level + 1) js ++
        newline level ++ [']']
  | .obj [] => ['\x7b', '\x7d']
  | .obj ((k, j) :: ms) =>
      '\x7b' :: newline (level + 1) ++ quote k ++ [':', ' '] ++ prettyChars (level + 1) j ++
        prettyMembers (level + 1) ms ++ newline level ++ ['\x7d']

/-- Further items, each after a comma on its own line. -/
def prettyItems (level : Nat) : List Json → List Char
  | [] => []
  | j :: js => ',' :: newline level ++ prettyChars level j ++ prettyItems level js

/-- Further members, each after a comma on its own line. -/
def prettyMembers (level : Nat) : List (String × Json) → List Char
  | [] => []
  | (k, j) :: ms =>
      ',' :: newline level ++ quote k ++ [':', ' '] ++ prettyChars level j ++
        prettyMembers level ms

end

/-- The text without blanks. -/
def compact (j : Json) : String := .ofList j.compactChars

/-- The text with a line for each item. -/
def pretty (j : Json) : String := .ofList (j.prettyChars 0)

end Json

end Wiring
