import Wiring.Run.Config

/-!
# Command lines

What the words of a command line ask for. Words are taken from left to right; the first that asks
for help or for the version ends the line, and so does the first that cannot be there.
-/

namespace Wiring

structure PlanOptions where
  root : String := "."
  inputs : List String := []
  outDir : Option String := none
  overrides : Overrides := {}

/-- How rules are listed. -/
inductive ListFormat where
  | text
  | json
  deriving DecidableEq

/-- What a command line asks for. -/
inductive Command where
  | plan (options : PlanOptions)
  | explain (key : String)
  | listRules (format : ListFormat)
  | version
  | help

namespace Command

/-- A word of a command line. -/
inductive Word where
  /-- Two hyphens alone. -/
  | escape
  /-- A name after two hyphens, with what follows an equals sign. -/
  | long (name : List Char) (value : Option String)
  /-- Letters after one hyphen. -/
  | short (first : Char) (more : List Char)
  | plain (s : String)

/-- The kind of a word. A hyphen alone is plain. -/
def Word.of (s : String) : Word :=
  match s.toList with
  | ['-', '-'] => .escape
  | '-' :: '-' :: cs =>
    .long (cs.takeWhile (· ≠ '='))
      (if cs.contains '=' then some (.ofList ((cs.dropWhile (· ≠ '=')).drop 1)) else none)
  | '-' :: c :: cs => .short c cs
  | _ => .plain s

/-- The value of an option and the words after it: what follows the equals sign, or the next word if
that is plain. -/
def optionValue (value : Option String) (words : List String) : Option (String × List String) :=
  match value, words with
  | some v, ws => some (v, ws)
  | none, w :: ws =>
    match Word.of w with
    | .plain v => some (v, ws)
    | _ => none
  | none, [] => none

/-- What a command does with the words of its line: options with a value, switches and further words,
each of which may be refused. -/
structure Grammar (α : Type) where
  option : List Char → Option (α → String → Option α)
  switch : List Char → Option (α → Option α)
  word : α → String → Option α

/-- What a line comes to: a request for help, or a reading of its words. -/
inductive Parsed (α : Type) where
  | help
  | value (a : α)

/-- Reads the words of a command, at most `n` of them. Nothing is read if a word is refused. -/
def Grammar.read {α : Type} (g : Grammar α) : Nat → α → List String → Option (Parsed α)
  | _, a, [] => some (.value a)
  | 0, _, _ => none
  | n + 1, a, w :: ws =>
    match Word.of w with
    | .escape => (ws.foldlM g.word a).map .value
    | .short 'h' _ => some .help
    | .short _ _ => none
    | .plain s =>
      match g.word a s with
      | some a => g.read n a ws
      | none => none
    | .long name value =>
      if name = "help".toList then if value.isNone then some .help else none
      else
        match g.option name with
        | some set =>
          match optionValue value ws with
          | none => none
          | some (v, ws) =>
            match set a v with
            | some a => g.read n a ws
            | none => none
        | none =>
          match g.switch name, value with
          | some set, none =>
            match set a with
            | some a => g.read n a ws
            | none => none
          | _, _ => none

/-! ## Commands -/

/-- A place for a value that may be given once. -/
def once {α β : Type} (current : Option β) (set : β → α) (v : Option β) : Option α :=
  if current.isSome then none else v.map set

/-- What is given of the options of a plan. -/
structure PlanWords where
  root : Option String := none
  inputs : List String := []
  outDir : Option String := none
  mode : Option Mode := none
  optionalFieldValues : Option Unit := none
  legacyDialectAccess : Option Unit := none
  failFast : Option Unit := none

def planGrammar : Grammar PlanWords where
  option name :=
    match String.ofList name with
    | "root" => some fun p v => once p.root (fun x => { p with root := some x }) (some v)
    | "input" => some fun p v => some { p with inputs := p.inputs ++ [v] }
    | "out-dir" => some fun p v => once p.outDir (fun x => { p with outDir := some x }) (some v)
    | "mode" =>
      some fun p v => once p.mode (fun x => { p with mode := some x }) (Mode.ofName? v)
    | _ => none
  switch name :=
    match String.ofList name with
    | "optional-field-values" => some fun p =>
      once p.optionalFieldValues (fun x => { p with optionalFieldValues := some x }) (some ())
    | "legacy-dialect-access" => some fun p =>
      once p.legacyDialectAccess (fun x => { p with legacyDialectAccess := some x }) (some ())
    | "fail-fast" => some fun p =>
      once p.failFast (fun x => { p with failFast := some x }) (some ())
    | _ => none
  word _ _ := none

/-- The options that are given, with the others as they are by default. -/
def PlanWords.options (p : PlanWords) : PlanOptions where
  root := p.root.getD "."
  inputs := p.inputs
  outDir := p.outDir
  overrides :=
    ⟨p.mode, p.optionalFieldValues.isSome, p.legacyDialectAccess.isSome, p.failFast.isSome⟩

/-- The words of an explanation: a key. -/
def explainGrammar : Grammar (Option String) where
  option _ := none
  switch _ := none
  word key w := if key.isSome then none else some (some w)

/-- The format of a name. -/
def formatOf? : String → Option ListFormat
  | "text" => some .text
  | "json" => some .json
  | _ => none

/-- The words of a list of rules: a format. -/
def listGrammar : Grammar (Option ListFormat) where
  option name :=
    if name = "format".toList then some fun f v => once f some (formatOf? v) else none
  switch _ := none
  word _ _ := none

/-- The names of all commands. -/
def names : List String := ["plan", "explain", "list-rules"]

/-- A reading of a command's words as a command. -/
def ofParsed? {α : Type} (command : α → Option Command) : Option (Parsed α) → Option Command
  | none => none
  | some .help => some .help
  | some (.value a) => command a

/-- The command of some words, unless they make none. -/
def ofWords? : List String → Option Command
  | [] => none
  | w :: ws =>
    match Word.of w with
    | .short 'h' _ => some .help
    | .short 'V' _ => some .version
    | .long name none =>
      if name = "help".toList then some .help
      else if name = "version".toList then some .version
      else none
    | .plain "plan" =>
      ofParsed? (fun p => some (.plan p.options)) (planGrammar.read ws.length {} ws)
    | .plain "explain" =>
      ofParsed? (fun key => key.map .explain) (explainGrammar.read ws.length none ws)
    | .plain "list-rules" =>
      ofParsed? (fun f => some (.listRules (f.getD .text))) (listGrammar.read ws.length none ws)
    | .plain "help" =>
      match ws with
      | [] => some .help
      | [name] => if (names ++ ["help"]).contains name then some .help else none
      | _ => none
    | _ => none

end Command

end Wiring
