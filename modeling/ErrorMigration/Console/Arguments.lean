import ErrorMigration.Config
import ErrorMigration.Text.Digits
import ErrorMigration.Text.Search

/-! The command line: a command and its options. The value of an option stands in the same word
behind an equals sign, or is the next word; it is checked when the next option or the end is met. -/
namespace ErrorMigration.Console

inductive Verb where
  | migrate
  | scan
  | codes
  deriving DecidableEq, Repr

def Verb.all : List Verb := [.migrate, .scan, .codes]

def Verb.name : Verb → String
  | .migrate => "migrate"
  | .scan => "scan"
  | .codes => "codes"

def helpName : String := "help"

def commandNames : List String := Verb.all.map Verb.name ++ [helpName]

inductive Usage where
  | help
  | version
  | missingCommand
  | unknownCommand
  | unknownArgument
  /-- No value, or not one of those that an option takes. -/
  | invalidValue
  /-- A value that cannot be read. -/
  | unreadableValue
  /-- An option that is given twice. -/
  | repeated
  /-- A value for an option that takes none. -/
  | unneededValue
  deriving DecidableEq, Repr

/-- Help and version are no mistakes. -/
def Usage.exitCode : Usage → Nat
  | .help => 0
  | .version => 0
  | _ => 2

inductive Format where
  | text
  | json
  deriving DecidableEq, Repr

def Format.ofName? (name : String) : Option Format :=
  if name = "text" then some .text else if name = "json" then some .json else none

inductive Setting where
  | repoRoot
  | scanRoot
  | extension
  | reportsDir
  | displayLimit
  | outDir
  | format
  deriving DecidableEq, Repr

def Setting.name : Setting → String
  | .repoRoot => "repo-root"
  | .scanRoot => "scan-root"
  | .extension => "extension"
  | .reportsDir => "reports-dir"
  | .displayLimit => "display-limit"
  | .outDir => "out-dir"
  | .format => "format"

namespace Verb

def settings : Verb → List Setting
  | .migrate => [.repoRoot, .scanRoot, .extension, .reportsDir, .displayLimit, .outDir, .format]
  | .scan => [.repoRoot, .scanRoot, .extension, .format]
  | .codes => [.repoRoot, .format]

def setting? (verb : Verb) (name : String) : Option Setting :=
  verb.settings.find? fun setting => setting.name = name

def hasDryRun (verb : Verb) : Bool := verb = .migrate

end Verb

structure Given where
  repoRoot : Option Path := none
  flags : Flags := {}
  dryRun : Bool := false
  outDir : Option Path := none
  format : Option Format := none
  deriving DecidableEq, Repr

/-- Digits with an optional plus sign, for a number of at most 64 bits. -/
def limit? (text : String) : Option Nat :=
  let digits := match text.toList with
    | '+' :: cs => cs
    | cs => cs
  let n := Text.numberOf digits
  if digits.isEmpty || !digits.all Char.isDigit || Text.wordLimit ≤ n then none else some n

namespace Given

/-- A value that may be given once. It is not read when there is one already. -/
def once {α : Type} (old : Option α) (read : Except Usage α) : Except Usage (Option α) :=
  if old.isSome then .error .repeated else read.map some

def assign (given : Given) (setting : Setting) (text : String) : Except Usage Given := do
  match setting with
  | .repoRoot => pure { given with repoRoot := ← once given.repoRoot (.ok ⟨text⟩) }
  | .scanRoot =>
    pure { given with flags.scanRoot := ← once given.flags.scanRoot (.ok ⟨text⟩) }
  | .extension =>
    pure { given with flags.extension := ← once given.flags.extension (.ok text) }
  | .reportsDir =>
    pure { given with flags.reportsDir := ← once given.flags.reportsDir (.ok ⟨text⟩) }
  | .displayLimit =>
    let limit := (limit? text).elim (.error .unreadableValue) .ok
    pure { given with flags.displayLimit := ← once given.flags.displayLimit limit }
  | .outDir => pure { given with outDir := ← once given.outDir (.ok ⟨text⟩) }
  | .format =>
    let format := (Format.ofName? text).elim (.error .invalidValue) .ok
    pure { given with format := ← once given.format format }

def setDryRun (given : Given) : Except Usage Given :=
  if given.dryRun then .error .repeated else .ok { given with dryRun := true }

end Given

inductive Word where
  /-- Two dashes: what follows is no option. -/
  | separator
  /-- A name behind two dashes, and a value behind an equals sign. -/
  | long (name : String) (value : Option String)
  /-- Letters behind one dash. -/
  | short (first : Char)
  | plain (text : String)
  deriving DecidableEq, Repr

def Word.ofText (text : String) : Word :=
  match text.toList with
  | ['-', '-'] => .separator
  | '-' :: '-' :: cs =>
    match Text.cut? '=' cs with
    | some (name, value) => .long (String.ofList name) (some (String.ofList value))
    | none => .long (String.ofList cs) none
  | '-' :: c :: _ => .short c
  | _ => .plain text

/-- An option whose value is not checked yet. The value may still be missing. -/
abbrev Pending := Option (Setting × Option String)

def Given.settle (given : Given) : Pending → Except Usage Given
  | none => .ok given
  | some (_, none) => .error .invalidValue
  | some (setting, some text) => given.assign setting text

/-- Read the words behind a command. An unknown word ends it whatever is pending. -/
def readOptions (verb : Verb) (given : Given) (pending : Pending) : List String → Except Usage Given
  | [] => given.settle pending
  | text :: rest =>
    match Word.ofText text with
    | .separator => if rest.isEmpty then given.settle pending else .error .unknownArgument
    | .plain text =>
      match pending with
      | some (setting, none) => readOptions verb given (some (setting, some text)) rest
      | _ => .error .unknownArgument
    | .short first =>
      if first == 'h' then do
        let _ ← given.settle pending
        .error .help
      else .error .unknownArgument
    | .long name value =>
      if name = "help" then
        if value.isSome then .error .unneededValue
        else do
          let _ ← given.settle pending
          .error .help
      else if name = "dry-run" && verb.hasDryRun then
        if value.isSome then .error .unneededValue
        else do
          let given ← given.settle pending
          readOptions verb (← given.setDryRun) none rest
      else
        match verb.setting? name with
        | none => .error .unknownArgument
        | some setting => do
          let given ← given.settle pending
          match value with
          | none => readOptions verb given (some (setting, none)) rest
          | some text => readOptions verb (← given.assign setting text) none rest

structure Request where
  verb : Verb
  given : Given
  deriving DecidableEq, Repr

/-- The words behind the help command: at most the name of one command. -/
def readHelp : List String → Usage
  | [] => .help
  | [name] => if commandNames.contains name then .help else .unknownCommand
  | _ => .unknownCommand

def Request.read : List String → Except Usage Request
  | [] => .error .missingCommand
  | text :: rest =>
    match Word.ofText text with
    | .separator =>
      match rest with
      | [] => .error .missingCommand
      | name :: _ => .error (if commandNames.contains name then .unknownArgument else .unknownCommand)
    | .short first =>
      .error (if first == 'h' then .help else if first == 'V' then .version else .unknownArgument)
    | .long name value =>
      if name = "help" || name = "version" then
        .error (if value.isSome then .unneededValue else if name = "help" then .help else .version)
      else .error .unknownArgument
    | .plain text =>
      if text = helpName then .error (readHelp rest)
      else
        match Verb.all.find? fun verb => verb.name = text with
        | none => .error .unknownCommand
        | some verb => (readOptions verb {} none rest).map fun given => ⟨verb, given⟩

end ErrorMigration.Console
