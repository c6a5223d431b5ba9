import ErrorMigration.CallSite
import ErrorMigration.ImportLine

/-! Migration of one source text: first the import line, then every call. The status compares the
texts before and after. -/
namespace ErrorMigration

inductive Status where
  /-- Changed, and the marker is gone. -/
  | complete
  /-- Changed, and the marker still stands somewhere. -/
  | incomplete
  /-- Not changed. -/
  | skipped
  /-- An error stopped the work on the file. -/
  | failed
  deriving DecidableEq, Repr

namespace Status

def all : List Status := [.complete, .incomplete, .skipped, .failed]

def label : Status → String
  | .complete => "complete"
  | .incomplete => "partial"
  | .skipped => "skipped"
  | .failed => "failed"

def ofLabel? (text : String) : Option Status := all.find? fun status => status.label = text

def classify (before after : List Char) : Status :=
  if before = after then .skipped
  else if containsMarker after then .incomplete
  else .complete

end Status

structure Migrated where
  text : List Char
  importInserted : Bool
  callCount : Nat
  deriving DecidableEq, Repr

def migrateText (codes : CodeTable) (cs : List Char) : Migrated :=
  let withImport := ImportLine.ensure cs
  { text := CallSite.replaceAll codes withImport
    importInserted := ImportLine.isMissing cs
    callCount := CallSite.count withImport }

end ErrorMigration
