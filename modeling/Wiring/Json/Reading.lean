import Wiring.Json.Numeral
import Wiring.Json.Printer
import Wiring.Json.Tree
import Wiring.Text.Quoted

/-!
# Reading JSON trees

A `Reader α` takes the tree of a text to an `α` or to the first thing in the text that is wrong,
whether that is a fault of the text or a value of the wrong kind. A value that is kept is read
strictly: its numbers must be in range, its surrogates paired and its containers nested less than
`Limits.depth` deep. A value that is passed over need only be well formed.
-/

namespace Wiring.Json

/-- What stands where something else is wanted. -/
inductive Found where
  | null
  | bool (b : Bool)
  | int (n : Int)
  | float (x : Float)
  | str (s : String)
  | sequence
  | map

/-- What a reader wants. -/
inductive Wanted where
  | string
  | boolean
  | map
  | sequence
  | word32
  | word64
  | unit
  | variant
  | record (name : String)
  | tagged (name : String)
  /-- A record or a case with so many elements. -/
  | elements (what : String) (count : Nat)
  /-- A sequence of so many elements. -/
  | count (n : Nat)
  deriving DecidableEq

/-- Why a well-formed value is not what a reader wants. -/
inductive Mismatch where
  | missingField (key : String)
  | duplicateField (key : String)
  | unknownVariant (name : String) (known : List String)
  | wrongType (found : Found) (wanted : Wanted)
  | wrongValue (n : Int) (wanted : Wanted)
  | wrongLength (n : Nat) (wanted : Wanted)

/-- Why a text cannot be read. -/
inductive ReadError where
  | fault (f : Fault)
  | mismatch (m : Mismatch)

/-- How a message names what it found. -/
def Found.text : Found → String
  | .null => "null"
  | .bool b => s!"boolean `{b}`"
  | .int n => s!"integer `{n}`"
  | .float x => "floating point `" ++ .ofList (layout.chars x) ++ "`"
  | .str s => "string " ++ Text.quoted s
  | .sequence => "sequence"
  | .map => "map"

def elementsText (n : Nat) : String := if n = 1 then "1 element" else s!"{n} elements"

/-- How a message names what is wanted. -/
def Wanted.text : Wanted → String
  | .string => "a string"
  | .boolean => "a boolean"
  | .map => "a map"
  | .sequence => "a sequence"
  | .word32 => "u32"
  | .word64 => "u64"
  | .unit => "unit"
  | .variant => "variant identifier"
  | .record name => "struct " ++ name
  | .tagged name => "internally tagged enum " ++ name
  | .elements what n => what ++ " with " ++ elementsText n
  | .count n => elementsText n ++ " in sequence"

/-- A name in backquotes. -/
def ticked (s : String) : String := "`" ++ s ++ "`"

/-- The wording of a mismatch. -/
def Mismatch.message : Mismatch → String
  | .missingField key => "missing field " ++ ticked key
  | .duplicateField key => "duplicate field " ++ ticked key
  | .unknownVariant name known =>
    "unknown variant " ++ ticked name ++
      match known with
      | [] => ", there are no variants"
      | [a] => ", expected " ++ ticked a
      | [a, b] => ", expected " ++ ticked a ++ " or " ++ ticked b
      | _ => ", expected one of " ++ ", ".intercalate (known.map ticked)
  | .wrongType found wanted => "invalid type: " ++ found.text ++ ", expected " ++ wanted.text
  | .wrongValue n wanted => s!"invalid value: integer `{n}`, expected " ++ wanted.text
  | .wrongLength n wanted => s!"invalid length {n}, expected " ++ wanted.text

/-- What a reader may still do: open `depth - 1` containers within each other. A `buffered` value
has been read before as a whole. -/
structure Limits where
  depth : Nat := 128
  buffered : Bool := false

/-- Reads a value of a tree. -/
abbrev Reader (α : Type) := Limits → Tree → Except ReadError α

/-- An error at a character that cannot stand in its place. -/
def malformed : ReadError := .fault .malformed

/-- The limits within one more container. -/
def Limits.enter (l : Limits) : Except ReadError Limits :=
  if l.depth ≤ 1 then .error malformed else .ok { l with depth := l.depth - 1 }

/-- Whether a container is closed. -/
def closed : Option Fault → Except ReadError Unit
  | none => .ok ()
  | some f => .error (.fault f)

/-! ## Scalars -/

/-- Whether `n` is the first unit of a surrogate pair. -/
def isHighSurrogate (n : Nat) : Bool := 0xd800 ≤ n && n ≤ 0xdbff

/-- Whether `n` is the second unit of a surrogate pair. -/
def isLowSurrogate (n : Nat) : Bool := 0xdc00 ≤ n && n ≤ 0xdfff

/-- The characters of a string that ends with `fault` or is whole. A surrogate must be part of a
pair. -/
def joinParts (fault : Option Fault) : List StringPart → Except ReadError (List Char)
  | [] => (closed fault).map fun _ => []
  | .char c :: ps => (joinParts fault ps).map (c :: ·)
  | [.unit n] =>
    if isHighSurrogate n then .error (.fault (fault.getD .malformed))
    else if isLowSurrogate n then .error malformed
    else (closed fault).map fun _ => [.ofNat n]
  | .unit n :: .char c :: ps =>
    if isHighSurrogate n ∨ isLowSurrogate n then .error malformed
    else (joinParts fault ps).map (.ofNat n :: c :: ·)
  | .unit n :: .unit m :: ps =>
    if isHighSurrogate n then
      if isLowSurrogate m then
        (joinParts fault ps).map (.ofNat (0x10000 + (n - 0xd800) * 0x400 + (m - 0xdc00)) :: ·)
      else .error malformed
    else if isLowSurrogate n then .error malformed
    else (joinParts fault (.unit m :: ps)).map (.ofNat n :: ·)

/-- The value of a scalar. -/
def Scalar.read : Scalar → Except ReadError Json
  | .null => .ok .null
  | .bool b => .ok (.bool b)
  | .numeral n =>
    match n.value with
    | some j => .ok j
    | none => .error malformed
  | .brokenNumeral atEnd => .error (.fault (if atEnd then .unfinished else .malformed))
  | .string parts fault => (joinParts fault parts).map fun cs => .str (.ofList cs)
  | .brokenWord f => .error (.fault f)
  | .broken f => .error (.fault f)

/-- Passes over a scalar, of which only the form counts. -/
def Scalar.skip : Scalar → Except ReadError Unit
  | .brokenNumeral _ => .error malformed
  | .string _ fault => closed fault
  | .brokenWord f => .error (.fault f)
  | .broken f => .error (.fault f)
  | _ => .ok ()

/-- The text of a key. -/
def Tree.readKey : Tree → Except ReadError String
  | .scalar (.string parts fault) => (joinParts fault parts).map .ofList
  | .scalar (.broken f) => .error (.fault f)
  | _ => .error malformed

/-- Passes over a key. -/
def Tree.skipKey : Tree → Except ReadError Unit
  | .scalar (.string _ fault) => closed fault
  | .scalar (.broken f) => .error (.fault f)
  | _ => .error malformed

mutual

/-- Passes over a value of any depth. -/
def Tree.skip : Tree → Except ReadError Unit
  | .scalar s => s.skip
  | .array items fault => do
    Tree.skipItems items
    closed fault
  | .object members fault => do
    Tree.skipMembers members
    closed fault

def Tree.skipItems : List Tree → Except ReadError Unit
  | [] => .ok ()
  | t :: ts => do
    Tree.skip t
    Tree.skipItems ts

def Tree.skipMembers : List (Tree × Tree) → Except ReadError Unit
  | [] => .ok ()
  | (k, t) :: ms => do
    k.skipKey
    Tree.skip t
    Tree.skipMembers ms

end

mutual

/-- Reads any value. -/
def Tree.read (l : Limits) : Tree → Except ReadError Json
  | .scalar s => s.read
  | .array items fault => do
    let js ← Tree.readItems (← l.enter) items
    closed fault
    return .arr js
  | .object members fault => do
    let ms ← Tree.readMembers (← l.enter) members
    closed fault
    return .obj ms

def Tree.readItems (l : Limits) : List Tree → Except ReadError (List Json)
  | [] => .ok []
  | t :: ts => do
    let j ← Tree.read l t
    return j :: (← Tree.readItems l ts)

def Tree.readMembers (l : Limits) : List (Tree × Tree) → Except ReadError (List (String × Json))
  | [] => .ok []
  | (k, t) :: ms => do
    let k ← k.readKey
    let j ← Tree.read l t
    return (k, j) :: (← Tree.readMembers l ms)

end

/-- The error for a value of the wrong kind. A scalar must still be readable; a container shows by
its opening mark. -/
def Tree.unwanted (wanted : Wanted) : Tree → ReadError
  | .scalar s =>
    match s.read with
    | .error e => e
    | .ok .null => .mismatch (.wrongType .null wanted)
    | .ok (.bool b) => .mismatch (.wrongType (.bool b) wanted)
    | .ok (.int n) => .mismatch (.wrongType (.int n) wanted)
    | .ok (.float x) => .mismatch (.wrongType (.float x) wanted)
    | .ok (.str s) => .mismatch (.wrongType (.str s) wanted)
    | .ok (.arr _) => .mismatch (.wrongType .sequence wanted)
    | .ok (.obj _) => .mismatch (.wrongType .map wanted)
  | .array _ _ => .mismatch (.wrongType .sequence wanted)
  | .object _ _ => .mismatch (.wrongType .map wanted)

/-! ## Readers -/

def readText {α : Type} (r : Reader α) (text : String) : Except ReadError α := do
  let d := Document.ofText text
  let a ← r {} d.root
  if d.trailing then .error malformed else return a

namespace Reader

/-- Any value, in canonical form. -/
def value : Reader CanonicalJson := fun l t => (t.read l).map .of

def string : Reader String
  | _, .scalar (.string parts fault) => (joinParts fault parts).map .ofList
  | _, t => .error (t.unwanted .string)

def boolean : Reader Bool
  | _, .scalar (.bool b) => .ok b
  | _, t => .error (t.unwanted .boolean)

/-- The null value. -/
def unit : Reader Unit
  | _, .scalar .null => .ok ()
  | _, t => .error (t.unwanted .unit)

/-- A natural number below `bound`. -/
def natural (bound : Nat) (wanted : Wanted) : Reader Nat
  | _, .scalar (.numeral n) =>
    match n.value with
    | some (.int n) =>
      if 0 ≤ n ∧ n < bound then .ok n.toNat else .error (.mismatch (.wrongValue n wanted))
    | _ => .error ((Tree.scalar (.numeral n)).unwanted wanted)
  | _, t => .error (t.unwanted wanted)

/-- A natural number that fits 32 bits. -/
def word32 : Reader Nat := natural word32Count .word32

/-- A natural number that fits 64 bits. -/
def word64 : Reader Nat := natural word64Count .word64

/-- Reads one item after another. -/
def items {α : Type} (r : Reader α) (l : Limits) : List Tree → Except ReadError (List α)
  | [] => .ok []
  | t :: ts => do
    let a ← r l t
    return a :: (← items r l ts)

def list {α : Type} (r : Reader α) : Reader (List α)
  | l, .array ts fault => do
    let as ← items r (← l.enter) ts
    closed fault
    return as
  | _, t => .error (t.unwanted .sequence)

/-- Reads one entry after another into a map; a later entry replaces an earlier one. -/
def entries {α : Type} (r : Reader α) (l : Limits) (m : StringMap α) :
    List (Tree × Tree) → Except ReadError (StringMap α)
  | [] => .ok m
  | (k, t) :: ms => do
    let k ← k.readKey
    let a ← r l t
    entries r l (m.insert k a) ms

def map {α : Type} (r : Reader α) : Reader (StringMap α)
  | l, .object ms fault => do
    let m ← entries r (← l.enter) .empty ms
    closed fault
    return m
  | _, t => .error (t.unwanted .map)

/-- A value or null. -/
def optional {α : Type} (r : Reader α) : Reader (Option α)
  | _, .scalar .null => .ok none
  | l, t => (r l t).map some

end Reader

end Wiring.Json
