import Wiring.Json.Token

/-!
# JSON texts as trees

`Document.ofText` reads any text as a tree of what stands in it, in the order in which it stands.
Where the text is not JSON the tree breaks off, and the containers around that place carry the
fault. So a reader that walks the tree meets the text's first fault exactly when it has dealt with
all that comes before it.
-/

namespace Wiring.Json

/-- A written value. A container with a fault is not closed. Keys are trees, for a key that is not
a string is a fault only when the key is read. -/
inductive Tree where
  | scalar (s : Scalar)
  | array (items : List Tree) (fault : Option Fault)
  | object (members : List (Tree × Tree)) (fault : Option Fault)
  deriving Inhabited

/-- A text: its first value, and whether anything follows it. -/
structure Document where
  root : Tree
  trailing : Bool

/-- An open container, with what it holds so far, latest first. -/
inductive Frame where
  | array (items : List Tree)
  /-- An object that awaits a key or its end. -/
  | object (members : List (Tree × Tree))
  /-- An object that awaits the value of a key. -/
  | member (members : List (Tree × Tree)) (key : Tree)

/-- What may stand next. -/
inductive Expected where
  | value
  /-- A value or the end of an array. -/
  | firstItem
  /-- A key or the end of an object. -/
  | firstKey
  | key
  | colon
  /-- A comma or the end of the container. -/
  | separator
  deriving DecidableEq

/-- The tree of a text that breaks off with `t` in the innermost of the open containers. -/
def Tree.within (f : Fault) (t : Tree) : List Frame → Tree
  | [] => t
  | .array items :: fs => within f (.array (t :: items).reverse (some f)) fs
  | .object members :: fs =>
    within f (.object ((t, .scalar (.broken f)) :: members).reverse (some f)) fs
  | .member members key :: fs => within f (.object ((key, t) :: members).reverse (some f)) fs

/-- The tree of a text that breaks off where `expected` should stand. -/
def Tree.brokenAt (f : Fault) (expected : Expected) (fs : List Frame) : Tree :=
  match expected, fs with
  | .firstItem, .array items :: fs => within f (.array items.reverse (some f)) fs
  | .separator, .array items :: fs => within f (.array items.reverse (some f)) fs
  | .firstKey, .object members :: fs => within f (.object members.reverse (some f)) fs
  | .separator, .object members :: fs => within f (.object members.reverse (some f)) fs
  | _, fs => within f (.scalar (.broken f)) fs

/-- Puts a whole value into the innermost open container; `none` if none is open. -/
def settle (t : Tree) : List Frame → Option (List Frame)
  | [] => none
  | .array items :: fs => some (.array (t :: items) :: fs)
  | .object members :: fs => some (.object members :: fs)
  | .member members key :: fs => some (.object ((key, t) :: members) :: fs)

/-- What stands in place of a key: a container shows by its opening mark only. -/
def Tree.ofToken : Token → Tree
  | .scalar s => .scalar s
  | .mark .openArray => .array [] (some .malformed)
  | .mark .openObject => .object [] (some .malformed)
  | .mark _ => .scalar (.broken .malformed)

/-- Reads tokens into the open containers until the outermost value is whole. -/
def Document.ofTokens (expected : Expected) (fs : List Frame) : List Token → Document
  | [] => ⟨.brokenAt .unfinished expected fs, false⟩
  | t :: ts =>
    let finish (v : Tree) (fs : List Frame) : Document :=
      match settle v fs with
      | none => ⟨v, !ts.isEmpty⟩
      | some fs => ofTokens .separator fs ts
    match expected, t, fs with
    | .firstItem, .mark .closeArray, .array items :: fs => finish (.array items.reverse none) fs
    | .separator, .mark .closeArray, .array items :: fs => finish (.array items.reverse none) fs
    | .firstKey, .mark .closeObject, .object members :: fs =>
      finish (.object members.reverse none) fs
    | .separator, .mark .closeObject, .object members :: fs =>
      finish (.object members.reverse none) fs
    | .separator, .mark .comma, .array items :: fs => ofTokens .value (.array items :: fs) ts
    | .separator, .mark .comma, .object members :: fs => ofTokens .key (.object members :: fs) ts
    | .colon, .mark .colon, fs => ofTokens .value fs ts
    | .value, .mark .openArray, fs => ofTokens .firstItem (.array [] :: fs) ts
    | .firstItem, .mark .openArray, fs => ofTokens .firstItem (.array [] :: fs) ts
    | .value, .mark .openObject, fs => ofTokens .firstKey (.object [] :: fs) ts
    | .firstItem, .mark .openObject, fs => ofTokens .firstKey (.object [] :: fs) ts
    | .value, .scalar s, fs =>
      if s.whole then finish (.scalar s) fs else ⟨.within .malformed (.scalar s) fs, false⟩
    | .firstItem, .scalar s, fs =>
      if s.whole then finish (.scalar s) fs else ⟨.within .malformed (.scalar s) fs, false⟩
    | .firstKey, .scalar (.string parts none), .object members :: fs =>
      ofTokens .colon (.member members (.scalar (.string parts none)) :: fs) ts
    | .key, .scalar (.string parts none), .object members :: fs =>
      ofTokens .colon (.member members (.scalar (.string parts none)) :: fs) ts
    | .firstKey, t, fs => ⟨.within .malformed (.ofToken t) fs, false⟩
    | .key, t, fs => ⟨.within .malformed (.ofToken t) fs, false⟩
    | _, _, _ => ⟨.brokenAt .malformed expected fs, false⟩

/-- The tree of a text. -/
def Document.ofText (text : String) : Document := ofTokens .value [] (tokens text.toList)

end Wiring.Json
