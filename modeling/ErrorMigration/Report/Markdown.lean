import ErrorMigration.Report.Record
import ErrorMigration.Text.Bytes

/-! The report as a Markdown page. -/
namespace ErrorMigration

/-- The first twelve bytes of a digest; all of it if it has fewer or they end inside a character. -/
def shortDigest (digest : String) : String :=
  (Text.ofBytes? ((Text.bytes digest).take 12)).getD digest

def inlineCode (text : String) : String := "`" ++ text ++ "`"

/-- The item of one file, with the two digests below it when they differ. -/
def FileResult.markdown (r : FileResult) : String :=
  s!"- {inlineCode r.path.spelling} {inlineCode r.status.label}" ++
    (if 0 < r.callCount then s!", {r.callCount} call(s) rewritten" else "") ++
    (if r.importInserted then ", import added" else "") ++
    (match r.message with
      | some message => s!": {message}"
      | none => "") ++ "\n" ++
    match r.digestBefore, r.digestAfter with
    | some before, some after =>
      if before = after then "" else s!"  - sha256 {shortDigest before} → {shortDigest after}\n"
    | _, _ => ""

namespace Report

def modeLabel (r : Report) : String := if r.run.dryRun then "dry run" else "apply"

def headMarkdown (r : Report) : String :=
  s!"# errfix migration\n\n- Mode: {r.modeLabel}\n" ++
    s!"- Scanned: {inlineCode r.scan.root.spelling} (`*.{r.scan.extension}`, marker " ++
    s!"{inlineCode r.scan.marker})\n" ++
    (match r.run.backupDir with
      | some dir => s!"- Backups: {inlineCode dir.spelling}\n"
      | none => "") ++
    s!"- Total: {r.summary.total}\n- Complete: {r.summary.complete}\n" ++
    s!"- Partial: {r.summary.incomplete}\n- Skipped: {r.summary.skipped}\n- Failed: {r.summary.failed}\n\n"

def filesMarkdown (r : Report) : String :=
  "## Files\n\n" ++
    if r.results.isEmpty then "_No candidates found._\n"
    else String.join (r.results.map FileResult.markdown)

def remainingMarkdown (r : Report) : String :=
  "\n## Remaining references\n\n" ++
    if r.summary.remaining.isEmpty then "_None._\n"
    else String.join (r.summary.remaining.map fun p => s!"- {inlineCode p.spelling}\n")

def markdown (r : Report) : String := r.headMarkdown ++ r.filesMarkdown ++ r.remainingMarkdown

end Report

end ErrorMigration
