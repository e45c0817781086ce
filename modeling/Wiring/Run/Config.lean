import Wiring.Run.Source
import Wiring.Toml.Document

/-!
# Configuration

Settings as a configuration file gives them, and what a command line adds. A command line's mode
comes first, and its switches only turn something on.
-/

namespace Wiring

namespace Settings

/-- A mode by its name, or as the only key of a table with nothing under it. -/
def modeOf? : Toml.Value → Option Mode
  | .string s => Mode.ofName? s
  | .table _ [(s, .table _ [])] => Mode.ofName? s
  | .table _ [(s, .array [])] => Mode.ofName? s
  | _ => none

def booleanOf? : Toml.Value → Option Bool
  | .boolean b => some b
  | _ => none

def stringsOf? : Toml.Value → Option (List String)
  | .array items =>
    items.mapM fun
      | .string s => some s
      | _ => none
  | _ => none

/-- The keys under which processing is configured, in order. -/
def processingKeys : List String :=
  ["mode", "optional_field_values", "legacy_dialect_access", "fail_fast"]

/-- Puts the value of a key that configures processing into settings. Other keys say nothing. -/
def configure (s : Settings) (key : String) (v : Toml.Value) : Option Settings :=
  match key with
  | "mode" => (modeOf? v).map fun m => { s with mode := some m }
  | "optional_field_values" => (booleanOf? v).map fun b => { s with optionalFieldValues := b }
  | "legacy_dialect_access" => (booleanOf? v).map fun b => { s with legacyDialectAccess := b }
  | "fail_fast" => (booleanOf? v).map fun b => { s with failFast := b }
  | _ => some s

/-- How processing is configured: by key, or by values in the order of the keys. A date says
nothing. -/
def processingOf? (s : Settings) : Toml.Value → Option Settings
  | .table _ entries => entries.foldlM (fun s e => s.configure e.1 e.2) s
  | .array items => (processingKeys.zip items).foldlM (fun s e => s.configure e.1 e.2) s
  | .tables items =>
    (processingKeys.zip items).foldlM (fun s e => s.configure e.1 (.table .header e.2)) s
  | .datetime => some s
  | _ => none

def stereotypesOf? : Toml.Value → Option StereotypeDefinitions
  | .table _ entries =>
    (entries.mapM fun e => (stringsOf? e.2).map fun l => (e.1, l)).map .ofList
  | _ => none

/-- The settings in a configuration file. -/
def ofEntries? (entries : Toml.Entries) : Option Settings :=
  entries.foldlM (fun s e =>
    match e.1 with
    | "processing" => s.processingOf? e.2
    | "stereotypes" => (stereotypesOf? e.2).map fun d => { s with stereotypes := d }
    | _ => some s) {}

/-- The settings in the text of a configuration file. -/
def ofToml? (text : String) : Option Settings := (Toml.Document.read? text).bind ofEntries?

end Settings

/-- What a command line says about settings. -/
structure Overrides where
  mode : Option Mode := none
  optionalFieldValues : Bool := false
  legacyDialectAccess : Bool := false
  failFast : Bool := false

/-- Settings with what a command line says. -/
def Settings.override (s : Settings) (o : Overrides) : Settings :=
  { s with
    mode := o.mode.or s.mode
    optionalFieldValues := o.optionalFieldValues || s.optionalFieldValues
    legacyDialectAccess := o.legacyDialectAccess || s.legacyDialectAccess
    failFast := o.failFast || s.failFast }

/-- Why a configuration cannot be used. -/
inductive ConfigError where
  | invalid
  | unreadable (path : String)
  | malformed (path : String)
  deriving DecidableEq

/-- What was being done when a configuration error arose. -/
def ConfigError.message : ConfigError → String
  | .invalid => "invalid TOML"
  | .unreadable path => "read config file " ++ path
  | .malformed path => "parse config file " ++ path

/-- The settings in the text of a configuration file, or why there are none. -/
def Settings.ofText (text : String) : Except ConfigError Settings :=
  match ofToml? text with
  | some s => .ok s
  | none => .error .invalid

/-- The name of the configuration file in a root directory. -/
def configName : String := "beanwire.toml"

/-- The settings that a root directory is configured with; without a file they are blank. -/
def Disk.loadSettings {m : Type → Type} [Monad m] (d : Disk m) (root : String) :
    ExceptT ConfigError m Settings := do
  let path := Path.join root configName
  if !(← d.has path) then return {}
  match ← d.read path with
  | none => throw (.unreadable path)
  | some text =>
    match Settings.ofToml? text with
    | some s => return s
    | none => throw (.malformed path)

end Wiring
