import ErrorMigration.Console.Command
import Std.Time.DateTime.Timestamp

/-! The program on the files of a machine: it reads the tree around the working directory and the
repository, runs the command on it, and writes what the command changed. -/
namespace ErrorMigration.Program

def placeOf (location : String) : Place :=
  ((Text.pieces '/' location.toList).filter fun name => name ≠ []).map fun name =>
    Text.bytes (String.ofList name)

def locationOf? (place : Place) : Option String :=
  (place.mapM Text.ofBytes?).map fun names => "/" ++ "/".intercalate names

/-- An entry of a directory and all that is below it. Links are kept with the place they lead to; one
that leads nowhere is left out. -/
partial def collect (t : Tree) (entry : IO.FS.DirEntry) : IO Tree := do
  let place := placeOf entry.path.toString
  match (← entry.path.symlinkMetadata).type with
  | .dir => (← entry.path.readDir).foldlM collect (t.put place .directory)
  | .file => return t.put place (.file (← IO.FS.readBinFile entry.path).data.toList)
  | .symlink =>
    try
      let target ← IO.FS.realPath entry.path
      return t.put place (.link target.toString)
    catch _ => return t
  | .other => return t

def collectBelow (t : Tree) (location : String) : IO Tree := do
  let dir ← IO.FS.realPath location
  let place := placeOf dir.toString
  let t := (List.range place.length).foldl (fun t n => t.put (place.take (n + 1)) .directory) t
  if ← dir.isDir then (← dir.readDir).foldlM collect t else return t

def snapshot (repository : Path) : IO Tree := do
  let home := (← IO.currentDir).toString
  let t ← collectBelow (Tree.empty (placeOf home)) home
  try collectBelow t repository.spelling catch _ => return t

def writeNode (place : Place) (node : Node) : IO Unit := do
  match locationOf? place, node with
  | some location, .directory => IO.FS.createDirAll location
  | some location, .file content => IO.FS.writeBinFile location ⟨content.toArray⟩
  | _, _ => pure ()

/-- Write what is new or different, directories first. -/
def writeChanges (before after : Tree) : IO Unit := do
  let changed := after.entries.filter fun entry => before.node? entry.1 ≠ some entry.2
  let ordered := changed.mergeSort fun a b => a.1.length ≤ b.1.length
  ordered.forM fun entry => writeNode entry.1 entry.2

def now : IO Moment := do
  let stamp ← Std.Time.Timestamp.now
  let nanos := stamp.toNanosecondsSinceUnixEpoch.val
  return ⟨nanos / 1000000000, (nanos % 1000000000).toNat⟩

def usageText : String :=
  "Usage: errfix <COMMAND> [OPTIONS]\n\nCommands: migrate, scan, codes, help\n"

def repositoryOf (words : List String) : Path :=
  match Console.Request.read words with
  | .ok request => request.given.repository
  | .error _ => ⟨"."⟩

def versionText : String := Console.tool.name ++ " " ++ Console.tool.version.getD ""

def stdoutText : Console.Ending → String
  | .done output => output
  | .failed _ => ""
  | .stopped .version => versionText ++ "\n"
  | .stopped usage => if usage.exitCode = 0 then usageText else ""

def stderrText : Console.Ending → String
  | .done _ => ""
  | .failed error => ": ".intercalate error.chain ++ "\n"
  | .stopped usage => if usage.exitCode = 0 then "" else usageText

def run (words : List String) : IO UInt32 := do
  let before ← snapshot (repositoryOf words)
  let (ending, after) := (Console.execute (Clock.fixedAt (← now)) words).run before
  writeChanges before after
  IO.print (stdoutText ending)
  IO.eprint (stderrText ending)
  return ending.exitCode.toUInt32

end ErrorMigration.Program

def main (words : List String) : IO UInt32 := ErrorMigration.Program.run words
