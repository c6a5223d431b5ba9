import ErrorMigration.Files.Path
import ErrorMigration.Moment
import ErrorMigration.Source

/-! What a run records: a result for each candidate, counters over the results, and the report
that holds both. -/
namespace ErrorMigration

structure FileResult where
  path : Path
  status : Status
  message : Option String := none
  callCount : Nat := 0
  importInserted : Bool := false
  backupPath : Option Path := none
  digestBefore : Option String := none
  digestAfter : Option String := none
  deriving DecidableEq, Repr

namespace FileResult

def ofFailure (path : Path) (message : String) : FileResult :=
  { path, status := .failed, message := some message }

/-- False only when an error stopped the work. -/
def isSuccess (r : FileResult) : Bool := r.status ≠ .failed

def isComplete (r : FileResult) : Bool := r.status = .complete

def isSkipped (r : FileResult) : Bool := r.status = .skipped

end FileResult

structure FailureDetail where
  path : Path
  message : String
  deriving DecidableEq, Repr

structure Summary where
  total : Nat := 0
  complete : Nat := 0
  incomplete : Nat := 0
  skipped : Nat := 0
  failed : Nat := 0
  failures : List FailureDetail := []
  remaining : List Path := []
  deriving DecidableEq, Repr

namespace Summary

def record (s : Summary) (r : FileResult) : Summary :=
  let s := { s with total := s.total + 1 }
  match r.status with
  | .complete => { s with complete := s.complete + 1 }
  | .incomplete => { s with incomplete := s.incomplete + 1 }
  | .skipped => { s with skipped := s.skipped + 1 }
  | .failed =>
    { s with
      failed := s.failed + 1
      failures := s.failures ++ [⟨r.path, r.message.getD "unknown error"⟩] }

def tally (results : List FileResult) : Summary := results.foldl record {}

def hasFailures (s : Summary) : Bool := 0 < s.failed

end Summary

structure Tool where
  name : String
  version : Option String := none
  deriving DecidableEq, Repr

structure RunInfo where
  startedAt : Moment
  endedAt : Option Moment := none
  dryRun : Bool := false
  backupDir : Option Path := none
  deriving DecidableEq, Repr

structure ScanInfo where
  root : Path
  extension : String
  marker : String
  deriving DecidableEq, Repr

structure Report where
  schema : String
  tool : Tool
  run : RunInfo
  scan : ScanInfo
  results : List FileResult := []
  summary : Summary
  deriving DecidableEq, Repr

def Report.currentSchema : String := "errfix.report.v1"

end ErrorMigration
