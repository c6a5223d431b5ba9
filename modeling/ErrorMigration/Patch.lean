import ErrorMigration.Diff.Hunk
import ErrorMigration.Files.Path
import ErrorMigration.Text.Lines

/-! The unified diff of a run: a header and the hunks for each file whose text changed, in the
order of the run. -/
namespace ErrorMigration

structure FileChange where
  path : Path
  before : List Char
  after : List Char
  deriving DecidableEq, Repr

namespace Patch

open Diff

/-- First line, counted from one, and the number of lines unless it is one. An empty range names
the line in front of it. -/
def rangeText (start count : Nat) : String :=
  if count = 1 then toString (start + 1)
  else if count = 0 then s!"{start},0"
  else s!"{start + 1},{count}"

def Mark.char : Mark → Char
  | .context => ' '
  | .removed => '-'
  | .added => '+'

def missingNewline : List Char := "\n\\ No newline at end of file\n".toList

/-- A marked line. A blank context line is written as a bare newline, and a line without a newline
gets one and a note. -/
def lineText (entry : Mark × List Char) : List Char :=
  if entry = (.context, ['\n']) then ['\n']
  else
    let text := Mark.char entry.1 :: entry.2
    if entry.2.getLast? = some '\n' then text else text ++ missingNewline

def hunkText (hunk : Hunk (List Char)) : List Char :=
  let old := rangeText hunk.oldStart hunk.oldCount
  let new := rangeText hunk.newStart hunk.newCount
  s!"@@ -{old} +{new} @@\n".toList ++ hunk.body.flatMap lineText

def headerText (path : Path) : List Char :=
  let p := path.spelling
  s!"diff --git a/{p} b/{p}\n--- a/{p}\n+++ b/{p}\n".toList

/-- The section of one file; a file that did not change has none. -/
def fileSection (change : FileChange) : List Char :=
  if change.before = change.after then []
  else
    headerText change.path ++
      (hunks (Text.lines change.before) (Text.lines change.after)).flatMap hunkText

def render (changes : List FileChange) : List Char := changes.flatMap fileSection

end Patch

end ErrorMigration
