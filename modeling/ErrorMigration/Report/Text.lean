import ErrorMigration.Report.Record

/-! What a run shows on the console: a line for each file, and the summary at the end. -/
namespace ErrorMigration

def Status.progressLabel : Status → String
  | .complete => "complete"
  | .incomplete => "partial"
  | .skipped => "no change"
  | .failed => "failed"

/-- One line for a finished file; a failure is shown with its message. -/
def FileResult.progressLine (r : FileResult) : String :=
  match r.status, r.message with
  | .failed, some message => s!"failed: {r.path.spelling} - {message}"
  | status, _ => s!"{status.progressLabel}: {r.path.spelling}"

namespace Summary

def countersText (s : Summary) : String :=
  s!"=== errfix summary ===\nTotal files: {s.total}\nComplete:    {s.complete}\n" ++
    s!"Partial:     {s.incomplete}\nSkipped:     {s.skipped}\nFailed:      {s.failed}\n"

def failuresText (s : Summary) : String :=
  if s.failures.isEmpty then ""
  else "\nFailures:\n" ++ String.join (s.failures.map fun f => s!"  - {f.path.spelling}: {f.message}\n")

/-- The files that still hold the marker: at most `limit` of them, and how many more there are. -/
def remainingText (s : Summary) (marker : String) (limit : Nat) : String :=
  if s.remaining.isEmpty then s!"No {marker} references remain.\n"
  else
    let hidden := s.remaining.length - limit
    s!"Files still referencing {marker} ({s.remaining.length}):\n" ++
      String.join ((s.remaining.take limit).map fun p => s!"  - {p.spelling}\n") ++
      (if 0 < hidden then s!"  ... and {hidden} more\n" else "")

def text (s : Summary) (marker : String) (limit : Nat) (backupDir : Option Path) : String :=
  s.countersText ++ s.failuresText ++ "\n" ++ s.remainingText marker limit ++
    match backupDir with
    | some dir => s!"\nBackups written to: {dir.spelling}\n"
    | none => ""

end Summary

end ErrorMigration
