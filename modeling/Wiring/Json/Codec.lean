import Wiring.Json.Reading

/-!
# Codecs

A `Codec α` is a JSON form of `α`: a writer and a reader. Records and tagged cases are described
once, by their fields, and both directions follow from that description: a record is written as an
object in the order of its fields, and read from an object with its members in any order or from an
array of its fields in order.
-/

namespace Wiring.Json

/-- A JSON form of a type. -/
structure Codec (α : Type) where
  write : α → Json
  read : Reader α

namespace Codec

variable {α β σ : Type}

def readText (c : Codec α) (text : String) : Except ReadError α := Json.readText c.read text

/-- Any value in canonical form. -/
def value : Codec CanonicalJson := ⟨(·.json), .value⟩

def string : Codec String := ⟨.str, .string⟩

def boolean : Codec Bool := ⟨.bool, .boolean⟩

/-- A number of 32 bits. -/
def word32 : Codec Nat := ⟨fun n => .int n, .word32⟩

/-- A number of 64 bits. -/
def word64 : Codec Nat := ⟨fun n => .int n, .word64⟩

/-- A list, as an array. -/
def list (c : Codec α) : Codec (List α) := ⟨fun xs => .arr (xs.map c.write), .list c.read⟩

/-- A map, as an object. -/
def map (c : Codec α) : Codec (StringMap α) :=
  ⟨fun m => .obj (m.entries.map fun e => (e.1, c.write e.2)), .map c.read⟩

/-- A set of strings, as an array. -/
def stringSet : Codec StringSet :=
  ⟨fun s => .arr (s.elems.map .str), fun l t => (Reader.list .string l t).map .ofList⟩

/-- A value or null. -/
def optional (c : Codec α) : Codec (Option α) :=
  ⟨fun o => (o.map c.write).getD .null, .optional c.read⟩

end Codec

/-! ## Records -/

/-- A field of a record that is built up from a blank one. -/
structure RecordField (σ : Type) where
  key : String
  /-- Whether the field must be present. -/
  mandatory : Bool
  /-- The field's value, unless it is left out. -/
  write : σ → Option Json
  /-- Puts the value of a tree into the field. -/
  read : Reader (σ → σ)

namespace RecordField

variable {α σ : Type}

/-- A field that is always present. -/
def required (key : String) (c : Codec α) (get : σ → α) (set : α → σ → σ) : RecordField σ :=
  ⟨key, true, fun s => some (c.write (get s)), fun l t => (c.read l t).map set⟩

/-- A field that is always written and may be missing. -/
def defaulted (key : String) (c : Codec α) (get : σ → α) (set : α → σ → σ) : RecordField σ :=
  ⟨key, false, fun s => some (c.write (get s)), fun l t => (c.read l t).map set⟩

/-- A field that is left out when it is blank and may be missing. -/
def unlessBlank (key : String) (c : Codec α) (blank : α → Bool) (get : σ → α) (set : α → σ → σ) :
    RecordField σ :=
  ⟨key, false, fun s => if blank (get s) then none else some (c.write (get s)),
    fun l t => (c.read l t).map set⟩

/-- A field that is left out when it has no value, and may be missing or null. -/
def optional (key : String) (c : Codec α) (get : σ → Option α) (set : Option α → σ → σ) :
    RecordField σ :=
  unlessBlank key c.optional Option.isNone get set

def members (fields : List (RecordField σ)) (s : σ) : List (String × Json) :=
  fields.filterMap fun f => (f.write s).map fun j => (f.key, j)

/-- The first required field that was not seen. -/
def firstMissing (fields : List (RecordField σ)) (seen : List String) : Option (RecordField σ) :=
  fields.find? fun f => f.mandatory && !seen.contains f.key

/-- Reads members in their order. Members without a field are passed over; no field may come
twice. -/
def readMembers (fields : List (RecordField σ)) (l : Limits) (seen : List String) (s : σ) :
    List (Tree × Tree) → Except ReadError (List String × σ)
  | [] => .ok (seen, s)
  | (k, t) :: ms => do
    let k ← k.readKey
    match fields.find? fun f => f.key == k with
    | none => do
      t.skip
      readMembers fields l seen s ms
    | some f =>
      if seen.contains k then .error (.mismatch (.duplicateField k))
      else do
        let set ← f.read l t
        readMembers fields l (k :: seen) (set s) ms

/-- Reads the members of an object that is closed or ends with a fault. -/
def readObject (fields : List (RecordField σ)) (blank : σ) (l : Limits) (ms : List (Tree × Tree))
    (fault : Option Fault) : Except ReadError σ := do
  let (seen, s) ← readMembers fields l [] blank ms
  closed fault
  match firstMissing fields seen with
  | some f => .error (.mismatch (.missingField f.key))
  | none => .ok s

/-- Reads fields in order from the items of an array; `done` items came before. Items at the end
may be missing for fields that may. -/
def readItems (fault : Option Fault) (wanted : Wanted) (l : Limits) (done : Nat) (s : σ) :
    List (RecordField σ) → List Tree → Except ReadError σ
  | [], [] => (closed fault).map fun _ => s
  | [], t :: ts =>
    if l.buffered then .error (.mismatch (.wrongLength (done + (t :: ts).length) (.count done)))
    else .error malformed
  | f :: fs, [] => do
    closed fault
    if f.mandatory then .error (.mismatch (.wrongLength done wanted))
    else readItems fault wanted l (done + 1) s fs []
  | f :: fs, t :: ts => do
    let set ← f.read l t
    readItems fault wanted l (done + 1) (set s) fs ts

end RecordField

namespace Codec

variable {α σ : Type}

def record (name : String) (blank : σ) (fields : List (RecordField σ)) : Codec σ where
  write s := .obj (RecordField.members fields s)
  read l t :=
    match t with
    | .object ms fault => do RecordField.readObject fields blank (← l.enter) ms fault
    | .array ts fault => do
      let wanted := .elements ("struct " ++ name) fields.length
      RecordField.readItems fault wanted (← l.enter) 0 blank fields ts
    | t => .error (t.unwanted (.record name))

/-! ## Cases -/

def readName (known : List (String × α)) (s : String) : Except ReadError α :=
  match known.lookup s with
  | some a => .ok a
  | none => .error (.mismatch (.unknownVariant s (known.map (·.1))))

/-- Reads one of several names from a tree. -/
def readVariant (known : List (String × α)) (t : Tree) : Except ReadError α :=
  match t with
  | .scalar (.string parts fault) => do readName known (.ofList (← joinParts fault parts))
  | t => .error (t.unwanted .variant)

/-- A plain case: its name, or an object with that name as its only key and null as its value. -/
def cases (name : α → String) (known : List α) : Codec α where
  write a := .str (name a)
  read l t :=
    let known := known.map fun a => (name a, a)
    match t with
    | .scalar (.string _ _) => readVariant known t
    | .object ((k, v) :: ms) fault => do
      let l ← l.enter
      let a ← readVariant known k
      Reader.unit l v
      if ms.isEmpty then closed fault else .error malformed
      return a
    | .object [] fault => do
      let _ ← l.enter
      .error (.fault (fault.getD .malformed))
    | .array _ _ => .error malformed
    | .scalar (.broken f) => .error (.fault f)
    | .scalar _ => .error malformed

/-- A case with a tag: how its members are written if a value is of this case, and how it is read
from members or from items. -/
structure Variant (α : Type) where
  tag : String
  write : α → Option (List (String × Json))
  readMembers : Limits → List (Tree × Tree) → Except ReadError α
  readItems : Limits → List Tree → Except ReadError α

/-- A case without fields. -/
def Variant.constant (tag : String) (a : α) (is : α → Bool) : Variant α where
  tag
  write x := if is x then some [] else none
  readMembers _ _ := .ok a
  readItems _ ts :=
    if ts.isEmpty then .ok a else .error (.mismatch (.wrongLength ts.length (.count 0)))

/-- A case with the fields of `σ`. -/
def Variant.fields (tag label : String) (blank : σ) (fields : List (RecordField σ)) (wrap : σ → α)
    (unwrap : α → Option σ) : Variant α where
  tag
  write x := (unwrap x).map (RecordField.members fields)
  readMembers l ms := (RecordField.readObject fields blank l ms none).map wrap
  readItems l ts :=
    let wanted := .elements ("struct variant " ++ label) fields.length
    (RecordField.readItems none wanted l 0 blank fields ts).map wrap

def tagKey : String := "type"

/-- Reads an object with a tag: the case of the tag and the other members. The tag may stand
anywhere, but only once; all other values are read as a whole before the case is looked at. -/
def readTagged (known : List (String × Variant α)) (l : Limits) (found : Option (Variant α)) :
    List (Tree × Tree) → Except ReadError (Option (Variant α) × List (Tree × Tree))
  | [] => .ok (found, [])
  | (k, t) :: ms => do
    let key ← k.readKey
    if key = tagKey then
      if found.isSome then .error (.mismatch (.duplicateField tagKey))
      else do
        let v ← readVariant known t
        readTagged known l (some v) ms
    else do
      let _ ← t.read l
      let (found, rest) ← readTagged known l found ms
      return (found, (k, t) :: rest)

/-- A case told by its tag: an object with the tag as a member, or an array with the tag as its
first item. -/
def tagged (name : String) (variants : List (Variant α)) : Codec α where
  write a :=
    .obj ((variants.findSome? fun v =>
      (v.write a).map fun ms => (tagKey, Json.str v.tag) :: ms).getD [])
  read l t :=
    let known := variants.map fun v => (v.tag, v)
    match t with
    | .object ms fault => do
      let l ← l.enter
      let (found, rest) ← readTagged known l none ms
      closed fault
      match found with
      | none => .error (.mismatch (.missingField tagKey))
      | some v => v.readMembers { l with buffered := true } rest
    | .array [] fault => do
      let _ ← l.enter
      closed fault
      .error (.mismatch (.missingField tagKey))
    | .array (t :: ts) fault => do
      let l ← l.enter
      let v ← readVariant known t
      let _ ← Tree.readItems l ts
      closed fault
      v.readItems { l with buffered := true } ts
    | t => .error (t.unwanted (.tagged name))

end Codec

end Wiring.Json
