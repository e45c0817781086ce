import Wiring.Path

/-!
# File trees

The files and directories below a working directory. A path is followed part by part: every part but
the last must lead to a directory, a dot stays, and two dots go up. Nothing lies above the tree.
-/

namespace Wiring

/-- A file with its text, or a directory with its entries. -/
inductive FileTree where
  | file (text : String)
  | dir (entries : List (String × FileTree))
  deriving Inhabited

namespace FileTree

def empty : FileTree := .dir []

/-- What a name stands for in a directory. -/
def entry? : FileTree → String → Option FileTree
  | .file _, _ => none
  | .dir entries, name => entries.lookup name

/-- What some names lead to, one after the other. -/
def at? (t : FileTree) : List String → Option FileTree
  | [] => some t
  | n :: ns => (t.entry? n).bind (·.at? ns)

/-- Replaces what a name stands for in a list of entries, or adds it at the end. -/
def setEntry (name : String) (node : FileTree) :
    List (String × FileTree) → List (String × FileTree)
  | [] => [(name, node)]
  | e :: es => if e.1 = name then (name, node) :: es else e :: setEntry name node es

/-- Puts a node where some names lead, if all but the last lead to a directory. -/
def put (node : FileTree) : List String → FileTree → FileTree
  | [], _ => node
  | [n], .dir entries => .dir (setEntry n node entries)
  | n :: ns, .dir entries =>
    match entries.lookup n with
    | some t => .dir (setEntry n (put node ns t) entries)
    | none => .dir entries
  | _, .file text => .file text

/-- Why a path leads nowhere: a part of it does not exist, or it goes through a file or above the
tree. -/
inductive Absence where
  | missing
  | blocked
  deriving DecidableEq

/-- Follows the parts of a path from the place that some names lead to, the last name first. -/
def follow (t : FileTree) (here : List String) : List (List Char) → Except Absence (List String)
  | [] => .ok here
  | part :: parts =>
    match t.at? here.reverse with
    | some (.dir entries) =>
      if part = [] ∨ part = ['.'] then follow t here parts
      else if part = ['.', '.'] then
        match here with
        | [] => .error .blocked
        | _ :: up => follow t up parts
      else
        match entries.lookup (.ofList part) with
        | some _ => follow t (.ofList part :: here) parts
        | none => .error .missing
    | _ => .error .blocked

/-- Follows some parts of a path from the top. -/
def followParts (t : FileTree) (parts : List (List Char)) : Except Absence (List String) :=
  (t.follow [] parts).map List.reverse

/-- The parts of a path that may lead somewhere. -/
def parts? (path : String) : Except Absence (List (List Char)) :=
  if path.isEmpty then .error .missing
  else if Path.isAbsolute path then .error .blocked
  else .ok (Path.split path.toList)

/-- What a path leads to. -/
def resolve (t : FileTree) (path : String) : Except Absence FileTree := do
  let names ← t.followParts (← parts? path)
  match t.at? names with
  | some node => .ok node
  | none => .error .missing

/-- Whether a path leads anywhere. -/
def has (t : FileTree) (path : String) : Bool := (t.resolve path).isOk

def isDir (t : FileTree) (path : String) : Bool :=
  match t.resolve path with
  | .ok (.dir _) => true
  | _ => false

def read? (t : FileTree) (path : String) : Option String :=
  match t.resolve path with
  | .ok (.file text) => some text
  | _ => none

def names (t : FileTree) (path : String) : List String :=
  match t.resolve path with
  | .ok (.dir entries) => entries.map (·.1)
  | _ => []

/-! ## Changes -/

/-- What comes of making a single directory. -/
inductive Made where
  | created (t : FileTree)
  | present
  | absent (a : Absence)

/-- Makes the directory at a path, within one that is there. -/
def makeDir (t : FileTree) (path : String) : Made :=
  match parts? path with
  | .error a => .absent a
  | .ok parts =>
    match parts.reverse.dropWhile List.isEmpty with
    | [] => .absent .missing
    | last :: up =>
      match t.followParts up.reverse with
      | .error a => .absent a
      | .ok names =>
        match t.at? names with
        | some (.dir entries) =>
          if last = ['.'] ∨ last = ['.', '.'] then .present
          else if (entries.lookup (.ofList last)).isSome then .present
          else .created (put empty (names ++ [.ofList last]) t)
        | _ => .absent .blocked

/-- A path and those it lies in, at most `n` of them. -/
def lineageOf : Nat → String → List String
  | 0, _ => []
  | n + 1, path =>
    match Path.parent? path with
    | some up => path :: lineageOf n up
    | none => []

/-- A path and those it lies in, by leaving out one step after another, as far as there is anything
to make. -/
def lineage (path : String) : List String := lineageOf (Path.components path).length path

/-- Makes the first of some directories, each of which lies in the next. -/
def makeFirst (t : FileTree) : List String → FileTree × Bool
  | [] => (t, true)
  | p :: ps =>
    match t.makeDir p with
    | .created t => (t, true)
    | .present => (t, t.isDir p)
    | .absent .blocked => (t, false)
    | .absent .missing =>
      match makeFirst t ps with
      | (t, false) => (t, false)
      | (t, true) =>
        match t.makeDir p with
        | .created t => (t, true)
        | .present => (t, t.isDir p)
        | .absent _ => (t, false)

/-- Makes the directory at a path with all it lies in, and tells whether it is there then. -/
def createDirs (t : FileTree) (path : String) : FileTree × Bool := t.makeFirst (lineage path)

/-- Writes the file at a path in a directory that is there, and tells whether it could. -/
def write (t : FileTree) (path text : String) : FileTree × Bool :=
  match parts? path with
  | .error _ => (t, false)
  | .ok parts =>
    match parts.reverse with
    | [] => (t, false)
    | last :: up =>
      if last = [] ∨ last = ['.'] ∨ last = ['.', '.'] then (t, false)
      else
        match t.followParts up.reverse with
        | .error _ => (t, false)
        | .ok names =>
          match t.at? names with
          | some (.dir entries) =>
            match entries.lookup (.ofList last) with
            | some (.dir _) => (t, false)
            | _ => (put (.file text) (names ++ [.ofList last]) t, true)
          | _ => (t, false)

/-! ## All files -/

mutual

/-- The path and the text of every file, below a path. -/
def filesBelow (above : String) : FileTree → List (String × String)
  | .file text => [(above, text)]
  | .dir entries => filesOf above entries

def filesOf (above : String) : List (String × FileTree) → List (String × String)
  | [] => []
  | (name, node) :: es => filesBelow (Path.join above name) node ++ filesOf above es

end

def files (t : FileTree) : List (String × String) := t.filesBelow ""

end FileTree

end Wiring
