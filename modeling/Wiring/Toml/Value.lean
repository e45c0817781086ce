/-!
# TOML values

A table remembers how it came about, since that decides what may still be added to it. `assign` puts
a value under a dotted key, `openTable` and `openItem` make room for the keys below a header.
-/

namespace Wiring.Toml

/-- How a table came about: under a header of its own, as a step to a deeper header, as a step of a
dotted key, or in braces. -/
inductive Origin where
  | header
  | implied
  | dotted
  | inline
  deriving DecidableEq

/-- A TOML value. What a number or a date says is not kept. -/
inductive Value where
  | string (s : String)
  | boolean (b : Bool)
  | number
  | datetime
  | array (items : List Value)
  | table (origin : Origin) (entries : List (String × Value))
  /-- An array whose items are tables under headers, each with its entries. -/
  | tables (items : List (List (String × Value)))
  deriving Inhabited

/-- The entries of a table. -/
abbrev Entries := List (String × Value)

namespace Entries

/-- Replaces the value of a key by a function of it, adding the key at the end if it is missing. -/
def alter (key : String) (f : Option Value → Option Value) : Entries → Option Entries
  | [] => (f none).map fun v => [(key, v)]
  | e :: es =>
    if e.1 = key then (f (some e.2)).map fun v => (key, v) :: es
    else (alter key f es).map (e :: ·)

/-- Changes the entries of the last table of a list. -/
def alterLast (f : Entries → Option Entries) : List Entries → Option (List Entries)
  | [] => none
  | [t] => (f t).map fun t => [t]
  | t :: ts => (alterLast f ts).map (t :: ·)

/-- Changes the table that a path of keys leads to, from a table with an origin. Steps that are
missing are made with the origin `step`. A table in braces cannot be entered, and with a dotted key
no table that has a header of its own. -/
def alterAt (step : Origin) (f : Origin → Entries → Option Entries) :
    List String → Origin → Entries → Option Entries
  | [], origin, es => f origin es
  | k :: ks, _, es =>
    es.alter k fun
      | none => (alterAt step f ks step []).map (.table step)
      | some (.table origin inner) =>
        if origin = .inline ∨ (step = .dotted ∧ origin = .header) then none
        else (alterAt step f ks origin inner).map (.table origin)
      | some (.tables items) =>
        (alterLast (alterAt step f ks .header) items).map .tables
      | some _ => none

/-- Puts a value under a path of keys, the last of them apart. The key must be new, and a dotted key
ends in a table that dotted keys have made. -/
def assign (path : List String) (key : String) (v : Value) (es : Entries) : Option Entries :=
  alterAt .dotted
    (fun origin es =>
      if path ≠ [] ∧ origin ≠ .dotted then none
      else es.alter key fun
        | none => some v
        | some _ => none)
    path .header es

/-- Opens the table of a header, which has none yet. -/
def openTable (path : List String) (key : String) (es : Entries) : Option Entries :=
  alterAt .implied
    (fun _ es => es.alter key fun
      | none => some (.table .header [])
      | some (.table .implied inner) => some (.table .header inner)
      | some _ => none)
    path .header es

/-- Opens a further table of an array under a header. -/
def openItem (path : List String) (key : String) (es : Entries) : Option Entries :=
  alterAt .implied
    (fun _ es => es.alter key fun
      | none => some (.tables [[]])
      | some (.tables items) => some (.tables (items ++ [[]]))
      | some _ => none)
    path .header es

/-- Puts a value under a path of keys below the header that was opened last. -/
def assignBelow (header path : List String) (key : String) (v : Value) (es : Entries) :
    Option Entries :=
  alterAt .implied (fun _ es => assign path key v es) header .header es

end Entries

end Wiring.Toml
