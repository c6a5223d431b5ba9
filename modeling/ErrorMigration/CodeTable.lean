import ErrorMigration.Text.Blank
import ErrorMigration.Text.Bytes
import ErrorMigration.Text.Quoted

/-! The table from legacy error codes to canonical ones. It starts from the built-in entries;
overrides are trimmed, checked and merged one after the other, the last one for a code winning. -/
namespace ErrorMigration

/-- Entries in increasing byte order of the legacy code, one for each code. -/
structure CodeTable where
  entries : List (String × String)
  deriving DecidableEq, Repr

inductive CodeError where
  | emptyLegacy
  | invalidCanonical (legacy canonical : String)
  deriving DecidableEq, Repr

def CodeError.message : CodeError → String
  | .emptyLegacy => "empty legacy code"
  | .invalidCanonical legacy canonical =>
    s!"canonical code for {legacy} is not an identifier: {Text.quoted canonical}"

namespace CodeTable

def fallback : String := "UNKNOWN_ERROR"

def insertEntry (legacy canonical : String) : List (String × String) → List (String × String)
  | [] => [(legacy, canonical)]
  | (key, value) :: rest =>
    if legacy = key then (legacy, canonical) :: rest
    else if Text.precedes legacy key then (legacy, canonical) :: (key, value) :: rest
    else (key, value) :: insertEntry legacy canonical rest

def insert (table : CodeTable) (legacy canonical : String) : CodeTable :=
  ⟨insertEntry legacy canonical table.entries⟩

def builtinEntries : List (String × String) :=
  [("EVENTBUS_ERROR", "VALIDATION_ERROR"),
   ("UI_OPERATION_FAILED", "OPERATION_ERROR"),
   ("VALIDATION_FAILED", "VALIDATION_ERROR"),
   ("NETWORK_TIMEOUT", "TIMEOUT_ERROR"),
   ("STORAGE_FAILED", "STORAGE_ERROR"),
   ("CHROME_API_ERROR", "CHROME_ERROR"),
   ("DOM_MANIPULATION_ERROR", "DOM_ERROR"),
   ("FILE_OPERATION_ERROR", "FILE_ERROR"),
   ("PERMISSION_DENIED", "PERMISSION_ERROR"),
   ("PARSE_FAILED", "PARSE_ERROR"),
   ("CONNECTION_FAILED", "CONNECTION_ERROR"),
   ("CONFIG_INVALID", "CONFIG_ERROR"),
   ("RENDER_FAILED", "RENDER_ERROR"),
   ("PERFORMANCE_ISSUE", "PERFORMANCE_ERROR"),
   ("UNKNOWN_ERROR", "UNKNOWN_ERROR"),
   ("READMOO_API_ERROR", "READMOO_ERROR"),
   ("BOOK_PROCESSING_ERROR", "BOOK_ERROR"),
   ("INVALID_DATA_FORMAT", "VALIDATION_ERROR")]

def builtin : CodeTable :=
  builtinEntries.foldl (fun table entry => table.insert entry.1 entry.2) ⟨[]⟩

def get? (table : CodeTable) (legacy : String) : Option String := table.entries.lookup legacy

def resolve (table : CodeTable) (legacy : String) : String :=
  (table.get? legacy).getD fallback

def size (table : CodeTable) : Nat := table.entries.length

def isLetter (c : Char) : Bool := c.isAlpha || c == '_' || c == '$'

/-- A name that may follow a dot in the generated code; ASCII only. -/
def isIdentifier : List Char → Bool
  | [] => false
  | c :: rest => isLetter c && rest.all fun d => isLetter d || d.isDigit

/-- Merge one pair. An empty legacy code is reported before a bad canonical one. -/
def overrideWith (table : CodeTable) (pair : String × String) : Except CodeError CodeTable :=
  let legacy := Text.trimmed pair.1
  let canonical := Text.trimmed pair.2
  if legacy = "" then .error .emptyLegacy
  else if isIdentifier canonical.toList then .ok (table.insert legacy canonical)
  else .error (.invalidCanonical legacy canonical)

def override (table : CodeTable) (pairs : List (String × String)) : Except CodeError CodeTable :=
  pairs.foldlM overrideWith table

end CodeTable

end ErrorMigration
