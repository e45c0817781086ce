import Wiring.Toml.Scalar

/-!
# TOML documents

A document is read line by line into statements, each of which puts a value into the document or
opens a header. `Document.read?` gives the entries of the whole, or nothing if a line is malformed
or says something a second time.
-/

namespace Wiring.Toml

/-- The text from the end of the line on, if only blanks and a comment precede it. -/
def lineRest? (cs : List Char) : Option (List Char) :=
  match cs.dropWhile isBlank with
  | '#' :: cs => some (cs.dropWhile isPlain)
  | [] => some []
  | cs => if (lineEnd? cs).isSome then some cs else none

/-- The text after blanks, line ends and comments. The number bounds the length of the text. -/
def dropFiller : Nat → List Char → List Char
  | 0, cs => cs
  | n + 1, cs =>
    let cs := cs.dropWhile isBlank
    match cs with
    | '#' :: _ => dropFiller n (cs.dropWhile isPlain)
    | cs =>
      match lineEnd? cs with
      | some rest => dropFiller n rest
      | none => cs

/-- The text after anything that may stand between the items of an array or table. -/
def afterFiller (cs : List Char) : List Char := dropFiller (cs.length + 1) cs

/-! ## Values -/

/-- The items of an array and its closing bracket. The number bounds the length of the text. -/
def items (value : List Char → Read Value) : Nat → List Char → Read (List Value)
  | 0, _ => none
  | n + 1, cs =>
    match afterFiller cs with
    | ']' :: cs => some ([], cs)
    | cs =>
      match value cs with
      | none => none
      | some (v, cs) =>
        match afterFiller cs with
        | ',' :: cs => (items value n cs).map fun (vs, rest) => (v :: vs, rest)
        | ']' :: cs => some ([v], cs)
        | _ => none

/-- A key, an equals sign and a value. -/
def assignment (value : List Char → Read Value) (cs : List Char) :
    Read ((List String × String) × Value) :=
  match key cs with
  | some (k, '=' :: cs) => (value (cs.dropWhile isBlank)).map fun (v, rest) => ((k, v), rest)
  | _ => none

/-- The entries of a table in braces and its closing brace. The number bounds the length of the
text. -/
def inlineEntries (value : List Char → Read Value) : Nat → Entries → List Char → Read Entries
  | 0, _, _ => none
  | n + 1, es, cs =>
    match afterFiller cs with
    | '\x7d' :: cs => some (es, cs)
    | cs =>
      match assignment value cs with
      | none => none
      | some (((path, k), v), cs) =>
        match es.assign path k v with
        | none => none
        | some es =>
          match afterFiller cs with
          | ',' :: cs => inlineEntries value n es cs
          | '\x7d' :: cs => some (es, cs)
          | _ => none

/-- A string, or a value without quotes. -/
def scalar (cs : List Char) : Read Value :=
  match cs with
  | '"' :: _ | '\'' :: _ => (string cs).map fun (s, rest) => (.string s, rest)
  | cs => bare cs

/-- A value with at most so many arrays and tables in each other. -/
def value : Nat → List Char → Read Value
  | 0, cs => scalar cs
  | depth + 1, cs =>
    match cs with
    | '[' :: cs =>
      (items (value depth) (cs.length + 1) cs).map fun (vs, rest) => (.array vs, rest)
    | '\x7b' :: cs =>
      (inlineEntries (value depth) (cs.length + 1) [] cs).map fun (es, rest) =>
        (.table .inline es, rest)
    | cs => scalar cs

/-! ## Statements -/

/-- A line of a document. -/
inductive Statement where
  | assign (path : List String) (key : String) (v : Value)
  | header (path : List String) (key : String)
  | item (path : List String) (key : String)

/-- A line that is not blank. -/
def statement (cs : List Char) : Read Statement :=
  match cs with
  | '[' :: '[' :: cs =>
    match key cs with
    | some ((path, k), ']' :: ']' :: rest) => some (.item path k, rest)
    | _ => none
  | '[' :: cs =>
    match key cs with
    | some ((path, k), ']' :: rest) => some (.header path k, rest)
    | _ => none
  | cs =>
    (assignment (value depthLimit) cs).map fun (((path, k), v), rest) => (.assign path k v, rest)

/-- The statements of a text. The number bounds the length of the text. -/
def statements : Nat → List Char → Option (List Statement)
  | 0, _ => none
  | n + 1, cs =>
    match afterFiller cs with
    | [] => some []
    | cs =>
      match statement cs with
      | none => none
      | some (s, rest) => do
        let rest ← lineRest? rest
        return s :: (← statements n rest)

/-- A document while its statements are gone through. -/
structure Document where
  entries : Entries := []
  /-- The steps of the header that was opened last. -/
  header : List String := []

namespace Document

def apply (d : Document) : Statement → Option Document
  | .assign path k v =>
    (d.entries.assignBelow d.header path k v).map fun es => { d with entries := es }
  | .header path k => (d.entries.openTable path k).map fun es => ⟨es, path ++ [k]⟩
  | .item path k => (d.entries.openItem path k).map fun es => ⟨es, path ++ [k]⟩

/-- The text without a byte order mark in front. -/
def dropMark : List Char → List Char
  | '\ufeff' :: cs => cs
  | cs => cs

/-- The entries of a document. -/
def read? (text : String) : Option Entries := do
  let cs := dropMark text.toList
  let ss ← statements (cs.length + 1) cs
  return (← ss.foldlM apply {}).entries

end Document

end Wiring.Toml
