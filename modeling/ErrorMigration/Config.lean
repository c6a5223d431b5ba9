import ErrorMigration.Files.Access
import ErrorMigration.Settings
import ErrorMigration.Toml.Reader

/-! The configuration file and how it is combined with the values of a command line: those win over
the file, and the file wins over the defaults. -/
namespace ErrorMigration

structure Config where
  scanRoot : Option Path := none
  extension : Option String := none
  reportsDir : Option Path := none
  displayLimit : Option Nat := none
  /-- Extra entries of the code table, by increasing bytes of their keys. -/
  codes : List (String × String) := []
  deriving DecidableEq, Repr

structure Flags where
  scanRoot : Option Path := none
  extension : Option String := none
  reportsDir : Option Path := none
  displayLimit : Option Nat := none
  deriving DecidableEq, Repr

inductive ConfigError where
  | reading (path : Path) (error : AccessError)
  | invalidToml (path : Path)
  | invalidCodes (error : CodeError)
  deriving DecidableEq, Repr

/-- The note on a text that is not TOML, or whose values are of the wrong type. -/
def ConfigError.invalidTomlNote : String := "invalid TOML"

def ConfigError.chain : ConfigError → List String
  | .reading path error =>
    ["load errfix.toml config", s!"read config file {path.spelling}", error.message]
  | .invalidToml path =>
    ["load errfix.toml config", s!"parse config file {path.spelling}", invalidTomlNote]
  | .invalidCodes error => ["invalid [codes] table", error.message]

def ConfigError.message (e : ConfigError) : String := ": ".intercalate e.chain

namespace Config

open Toml (Value Entries)

/-- The key under which a date-time holds its text when it stands where a table is expected. -/
def dateTimeKey : String := "$__toml_private_datetime"

/-- A table, or what passes for one. -/
def table? : Value → Option Entries
  | .table _ entries => some entries
  | .dateTime text => some [(dateTimeKey, .string text)]
  | _ => none

/-- The values of a section with the given keys. It is a table, in which other keys do not count as
long as their values can be read, or an array with the values in the order of the keys, of which no
more items are looked at than there are keys. -/
def section? (keys : List String) : Value → Option (String → Option Value)
  | .array items => some fun key => (keys.zip items).lookup key
  | .tables items => some fun key => (keys.zip items).lookup key
  | value => do
    let entries ← table? value
    if entries.readableBut keys then pure fun key => entries.lookup key else none

/-- The section under a key of the document; a missing one is empty. -/
def sectionOf? (document : Entries) (name : String) (keys : List String) : Option (String → Option Value) :=
  match document.lookup name with
  | none => some fun _ => none
  | some value => section? keys value

def string? : Value → Option String
  | .string s => some s
  | _ => none

def path? (value : Value) : Option Path := (string? value).map Path.mk

def counter? : Value → Option Nat
  | .integer n => if 0 ≤ n && n < Text.wordLimit then some n.toNat else none
  | _ => none

/-- A value that may be missing, but has to be of the right type. -/
def optional? {α : Type} (decode : Value → Option α) : Option Value → Option (Option α)
  | none => some none
  | some value => (decode value).map some

def sortByKey (entries : List (String × String)) : List (String × String) :=
  entries.mergeSort fun a b => !Text.precedes b.1 a.1

def codes? (document : Entries) : Option (List (String × String)) :=
  match document.lookup "codes" with
  | none => some []
  | some value => do
    let entries ← table? value
    let pairs ← entries.mapM fun entry => (string? entry.2).map fun canonical => (entry.1, canonical)
    pure (sortByKey pairs)

def sections : List String := ["scan", "backups", "report", "codes"]

/-- A document is a configuration if its sections have values of the right types. All else in it does
not count, but has to be readable. -/
def ofDocument? (document : Entries) : Option Config := do
  guard (document.readableBut sections)
  let scan ← sectionOf? document "scan" ["root", "extension"]
  let backups ← sectionOf? document "backups" ["reports_dir"]
  let report ← sectionOf? document "report" ["display_limit"]
  pure
    { scanRoot := ← optional? path? (scan "root")
      extension := ← optional? string? (scan "extension")
      reportsDir := ← optional? path? (backups "reports_dir")
      displayLimit := ← optional? counter? (report "display_limit")
      codes := ← codes? document }

def ofText? (text : String) : Option Config := (Toml.parse? text).bind ofDocument?

def pathIn (repoRoot : Path) : Path := repoRoot.joinName "errfix.toml"

/-- The configuration of a repository; without a file it is empty. -/
def load (t : Tree) (repoRoot : Path) : Except ConfigError Config :=
  let path := pathIn repoRoot
  if t.isPresent path then
    match t.readText path with
    | .error error => .error (.reading path error)
    | .ok text =>
      match ofText? text with
      | some config => .ok config
      | none => .error (.invalidToml path)
  else .ok {}

def merge (config : Config) (flags : Flags) (repoRoot : Path) : Except ConfigError Settings :=
  let defaults : Settings := {}
  match CodeTable.builtin.override config.codes with
  | .error error => .error (.invalidCodes error)
  | .ok codes =>
    .ok
      { repoRoot
        scanRoot := (flags.scanRoot <|> config.scanRoot).getD defaults.scanRoot
        extension := (flags.extension <|> config.extension).getD defaults.extension
        codes
        reportsDir := (flags.reportsDir <|> config.reportsDir).getD defaults.reportsDir
        displayLimit := (flags.displayLimit <|> config.displayLimit).getD defaults.displayLimit }

def settings (t : Tree) (flags : Flags) (repoRoot : Path) : Except ConfigError Settings := do
  (← load t repoRoot).merge flags repoRoot

end Config

end ErrorMigration
