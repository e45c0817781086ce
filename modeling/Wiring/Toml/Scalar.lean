import Wiring.Calendar
import Wiring.Toml.Value

/-!
# TOML scalars

Keys, strings and the values that stand without quotes. Every reader takes a text to what it has
read and the rest of the text.
-/

namespace Wiring.Toml

/-- What is read from a text, and the rest. -/
abbrev Read (α : Type) := Option (α × List Char)

/-- Whether a character is a blank within a line. -/
def isBlank (c : Char) : Bool := c = ' ' || c = '\t'

/-- Whether a character may stand in a comment or string: a tab, or no control. -/
def isPlain (c : Char) : Bool := c = '\t' || (0x20 ≤ c.toNat && c.toNat ≠ 0x7f)

/-- Whether a character may stand in a key without quotes. -/
def isKeyChar (c : Char) : Bool := c.isAlphanum || c = '_' || c = '-'

def hexValue? (c : Char) : Option Nat :=
  if c.isDigit then some (c.toNat - '0'.toNat)
  else if 'a' ≤ c ∧ c ≤ 'f' then some (c.toNat - 'a'.toNat + 10)
  else if 'A' ≤ c ∧ c ≤ 'F' then some (c.toNat - 'A'.toNat + 10)
  else none

/-- The number that `n` hexadecimal digits stand for, after what was read before. -/
def hexNumber : Nat → Nat → List Char → Read Nat
  | 0, acc, cs => some (acc, cs)
  | _ + 1, _, [] => none
  | n + 1, acc, c :: cs =>
    match hexValue? c with
    | some d => hexNumber n (16 * acc + d) cs
    | none => none

def isCodePoint (n : Nat) : Bool := n < 0xd800 || (0xe000 ≤ n && n < 0x110000)

/-- The character whose code point `n` hexadecimal digits stand for. -/
def escapeCode (n : Nat) (cs : List Char) : Read Char :=
  (hexNumber n 0 cs).bind fun (v, cs) => if isCodePoint v then some (.ofNat v, cs) else none

/-- The character that an escape after a backslash stands for. -/
def escape : List Char → Read Char
  | 'b' :: cs => some ('\x08', cs)
  | 't' :: cs => some ('\t', cs)
  | 'n' :: cs => some ('\n', cs)
  | 'f' :: cs => some ('\x0c', cs)
  | 'r' :: cs => some ('\r', cs)
  | 'e' :: cs => some ('\x1b', cs)
  | '"' :: cs => some ('"', cs)
  | '\\' :: cs => some ('\\', cs)
  | 'x' :: cs => escapeCode 2 cs
  | 'u' :: cs => escapeCode 4 cs
  | 'U' :: cs => escapeCode 8 cs
  | _ => none

/-! ## Strings -/

/-- Puts a character in front of what is read. -/
def Read.cons (c : Char) (r : Read (List Char)) : Read (List Char) :=
  r.map fun (cs, rest) => (c :: cs, rest)

/-- A string in single quotes, after the opening quote. -/
def literal : List Char → Read (List Char)
  | [] => none
  | '\'' :: cs => some ([], cs)
  | c :: cs => if isPlain c then (literal cs).cons c else none

/-- A string in double quotes, after the opening quote. The number bounds the length of the text. -/
def basic : Nat → List Char → Read (List Char)
  | 0, _ => none
  | _, [] => none
  | _, '"' :: cs => some ([], cs)
  | n + 1, '\\' :: cs =>
    match escape cs with
    | some (c, cs) => (basic n cs).cons c
    | none => none
  | n + 1, c :: cs => if isPlain c then (basic n cs).cons c else none

/-- The rest of a text after a line end, if it starts with one. -/
def lineEnd? : List Char → Option (List Char)
  | '\n' :: cs => some cs
  | '\r' :: '\n' :: cs => some cs
  | _ => none

/-- The rest of a text after a line end, or the text. -/
def dropLineEnd (cs : List Char) : List Char := (lineEnd? cs).getD cs

/-- The end of a string over lines, where up to two quotes may precede the closing three. -/
def closing? (q : Char) (cs : List Char) : Read (List Char) :=
  let n := (cs.takeWhile (· = q)).length
  if n < 3 then none else some (List.replicate (min n 5 - 3) q, cs.drop (min n 5))

/-- A string over lines in single quotes, after the opening quotes. The number bounds the length of
the text. -/
def literalLines : Nat → List Char → Read (List Char)
  | 0, _ => none
  | _, [] => none
  | n + 1, c :: cs =>
    match closing? '\'' (c :: cs) with
    | some r => some r
    | none =>
      match lineEnd? (c :: cs) with
      | some rest =>
        (literalLines n rest).map fun (s, tail) =>
          ((c :: cs).take (cs.length + 1 - rest.length) ++ s, tail)
      | none => if isPlain c then (literalLines n cs).cons c else none

/-- The rest of a text after blanks and line ends. -/
def dropSpace : Nat → List Char → List Char
  | 0, cs => cs
  | n + 1, cs =>
    let cs := cs.dropWhile isBlank
    match lineEnd? cs with
    | some rest => dropSpace n rest
    | none => cs

/-- A string over lines in double quotes, after the opening quotes. A backslash at the end of a line
takes away all blanks and line ends up to the next text. The number bounds the length of the
text. -/
def basicLines : Nat → List Char → Read (List Char)
  | 0, _ => none
  | _, [] => none
  | n + 1, '\\' :: cs =>
    match lineEnd? (cs.dropWhile isBlank) with
    | some rest => basicLines n (dropSpace n rest)
    | none =>
      match escape cs with
      | some (c, cs) => (basicLines n cs).cons c
      | none => none
  | n + 1, c :: cs =>
    match closing? '"' (c :: cs) with
    | some r => some r
    | none =>
      match lineEnd? (c :: cs) with
      | some rest =>
        (basicLines n rest).map fun (s, tail) =>
          ((c :: cs).take (cs.length + 1 - rest.length) ++ s, tail)
      | none => if isPlain c then (basicLines n cs).cons c else none

/-- A string in any kind of quotes. -/
def string (cs : List Char) : Read String :=
  let n := cs.length + 1
  let r :=
    match cs with
    | '"' :: '"' :: '"' :: cs => basicLines n (dropLineEnd cs)
    | '\'' :: '\'' :: '\'' :: cs => literalLines n (dropLineEnd cs)
    | '"' :: cs => basic n cs
    | '\'' :: cs => literal cs
    | _ => none
  r.map fun (s, rest) => (.ofList s, rest)

/-! ## Keys -/

/-- A key of one step. -/
def simpleKey (cs : List Char) : Read String :=
  match cs with
  | '"' :: rest => (basic (rest.length + 1) rest).map fun (s, rest) => (.ofList s, rest)
  | '\'' :: rest => (literal rest).map fun (s, rest) => (.ofList s, rest)
  | _ =>
    match cs.takeWhile isKeyChar with
    | [] => none
    | s => some (.ofList s, cs.dropWhile isKeyChar)

/-- How many steps a key may have, and how deep values may be nested. -/
def depthLimit : Nat := 80

/-- A key of at most `n` steps with dots between them, and the rest after blanks. -/
def keySteps : Nat → List Char → Read (List String)
  | 0, _ => none
  | n + 1, cs =>
    match simpleKey (cs.dropWhile isBlank) with
    | none => none
    | some (k, cs) =>
      match cs.dropWhile isBlank with
      | '.' :: cs => (keySteps n cs).map fun (ks, rest) => (k :: ks, rest)
      | cs => some ([k], cs)

/-- A key: the steps before the last, and the last. -/
def key (cs : List Char) : Read (List String × String) :=
  (keySteps depthLimit cs).bind fun (ks, rest) =>
    ks.getLast?.map fun k => ((ks.dropLast, k), rest)

/-! ## Numbers and dates -/

/-- Whether a text consists of digits, with single underscores between digits. -/
def isDigits (digit : Char → Bool) : List Char → Bool
  | [] => false
  | [c] => digit c
  | c :: '_' :: cs => digit c && isDigits digit cs
  | c :: cs => digit c && isDigits digit cs

/-- A text without its sign. -/
def unsigned : List Char → List Char
  | '+' :: cs => cs
  | '-' :: cs => cs
  | cs => cs

/-- Whether a text is a decimal number without a sign and without a needless zero in front. -/
def isDecimal (cs : List Char) : Bool :=
  isDigits Char.isDigit cs && (cs.head? ≠ some '0' || cs.length = 1)

/-- The digits of a text as a number in a base. -/
def digitsValue (base : Nat) (cs : List Char) : Nat :=
  cs.foldl (fun n c => (hexValue? c).elim n (base * n + ·)) 0

/-- Whether a text is an integer of at most 128 bits. -/
def isInteger (cs : List Char) : Bool :=
  match cs with
  | '0' :: 'x' :: cs =>
    isDigits (fun c => (hexValue? c).isSome) cs && digitsValue 16 cs < Nat.pow 2 128
  | '0' :: 'o' :: cs =>
    isDigits (fun c => '0' ≤ c ∧ c ≤ '7') cs && digitsValue 8 cs < Nat.pow 2 128
  | '0' :: 'b' :: cs =>
    isDigits (fun c => c = '0' ∨ c = '1') cs && digitsValue 2 cs < Nat.pow 2 128
  | _ =>
    let digits := unsigned cs
    isDecimal digits &&
      digitsValue 10 digits ≤
        (if cs.head? = some '-' then Nat.pow 2 127 else Nat.pow 2 128 - 1)

/-- The parts of a number without a sign: the digits before the point, the fraction with its point
and the exponent with its mark. -/
def numberParts (cs : List Char) : List Char × List Char × List Char :=
  let inMantissa (c : Char) : Bool := c ≠ 'e' && c ≠ 'E'
  let mantissa := cs.takeWhile inMantissa
  (mantissa.takeWhile (· ≠ '.'), mantissa.dropWhile (· ≠ '.'), cs.dropWhile inMantissa)

/-- Whether a text is a number with a fraction, an exponent or both. -/
def isFractional (cs : List Char) : Bool :=
  let (whole, fraction, exponent) := numberParts (unsigned cs)
  isDecimal whole && (!fraction.isEmpty || !exponent.isEmpty) &&
    (fraction.isEmpty || isDigits Char.isDigit (fraction.drop 1)) &&
    (exponent.isEmpty || isDigits Char.isDigit (unsigned (exponent.drop 1)))

/-- The least number that rounds to no finite double. -/
def doubleBound : Nat := Nat.pow 2 1024 - Nat.pow 2 970

/-- Whether such a number is within the range of doubles. -/
def isInRange (cs : List Char) : Bool :=
  let (whole, fraction, exponent) := numberParts (unsigned cs)
  let digits := (whole ++ fraction).filter Char.isDigit
  let n := digitsValue 10 digits
  let size := digitsValue 10 ((exponent.drop 1).filter Char.isDigit)
  let places := (fraction.filter Char.isDigit).length
  let scale := (if (exponent.drop 1).head? = some '-' then -Int.ofNat size else size) - places
  if n = 0 then true
  else if scale < 0 then n < doubleBound * Nat.pow 10 (min scale.natAbs digits.length)
  else scale < 400 && n * Nat.pow 10 scale.natAbs < doubleBound

/-- Whether a text is a number that is not finite. -/
def isSpecialNumber (cs : List Char) : Bool :=
  unsigned cs = ['i', 'n', 'f'] || unsigned cs = ['n', 'a', 'n']

/-- Whether a text is a number. -/
def isNumber (cs : List Char) : Bool :=
  isInteger cs || isSpecialNumber cs || (isFractional cs && isInRange cs)

/-- The number that two digits stand for. -/
def two? : List Char → Read Nat
  | a :: b :: cs => if a.isDigit && b.isDigit then some (digitsValue 10 [a, b], cs) else none
  | _ => none

/-- The rest of a text after a date. -/
def date? (cs : List Char) : Option (List Char) := do
  let (century, cs) ← two? cs
  let (year, cs) ← two? cs
  match cs with
  | '-' :: cs =>
    let (month, cs) ← two? cs
    match cs with
    | '-' :: cs =>
      let (day, cs) ← two? cs
      if 1 ≤ day ∧ day ≤ Calendar.daysIn (100 * century + year) month then some cs else none
    | _ => none
  | _ => none

/-- The rest of a text after a time of day. Seconds may be left out, a leap second counts. -/
def time? (cs : List Char) : Option (List Char) := do
  let (hour, cs) ← two? cs
  match cs with
  | ':' :: cs =>
    let (minute, cs) ← two? cs
    if 23 < hour ∨ 59 < minute then none
    else
      match cs with
      | ':' :: cs =>
        let (second, cs) ← two? cs
        if 60 < second then none
        else
          match cs with
          | '.' :: cs =>
            if cs.head?.any Char.isDigit then some (cs.dropWhile Char.isDigit) else none
          | cs => some cs
      | cs => some cs
  | _ => none

/-- Whether a text is an offset from universal time, or empty. -/
def isOffset : List Char → Bool
  | [] => true
  | ['Z'] => true
  | ['z'] => true
  | sign :: cs =>
    (sign = '+' || sign = '-') &&
      match two? cs with
      | some (hour, ':' :: cs) =>
        match two? cs with
        | some (minute, []) => hour ≤ 23 && minute ≤ 59
        | _ => false
      | _ => false

/-- Whether a text is a date, a time of day, or both with an offset perhaps. -/
def isDatetime (cs : List Char) : Bool :=
  match date? cs with
  | some [] => true
  | some (sep :: rest) =>
    (sep = 'T' || sep = 't' || sep = ' ') &&
      match time? rest with
      | some rest => isOffset rest
      | none => false
  | none => time? cs = some []

/-- Whether a character may stand in a value without quotes. -/
def isBareChar (c : Char) : Bool :=
  c.isAlphanum || c = '_' || c = '-' || c = '+' || c = '.' || c = ':'

/-- A value without quotes. A blank may stand between a date and a time. -/
def bare (cs : List Char) : Read Value :=
  let text := cs.takeWhile isBareChar
  let rest := cs.dropWhile isBareChar
  if text = "true".toList then some (.boolean true, rest)
  else if text = "false".toList then some (.boolean false, rest)
  else
    let late := (rest.drop 1).takeWhile isBareChar
    if rest.head? = some ' ' ∧ date? text = some [] ∧ late.head?.any Char.isDigit then
      if isDatetime (text ++ ' ' :: late) then
        some (.datetime, (rest.drop 1).dropWhile isBareChar)
      else none
    else if isDatetime text then some (.datetime, rest)
    else if isNumber text then some (.number, rest)
    else none

end Wiring.Toml
