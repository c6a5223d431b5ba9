import ErrorMigration.CallSite
import ErrorMigration.Files.Tree

/-! Candidates for migration: the files below a directory that have the wanted extension and hold
the marker. Links are not followed, so each file is found once. -/
namespace ErrorMigration

inductive LocateError where
  | notDirectory (root : Path)
  /-- The failure of a locator that is not one of these. -/
  | other (message : String)
  deriving DecidableEq, Repr

def LocateError.message : LocateError → String
  | .notDirectory root =>
    s!"locate candidates under {root.spelling}: scan root {root.spelling} is not a directory"
  | .other message => message

abbrev Locator := Tree → Except LocateError (List Path)

namespace Candidates

def throughDirectories (t : Tree) (place : Place) : List Name → Bool
  | [] => true
  | [_] => true
  | name :: rest => t.node? (place ++ [name]) = some .directory && throughDirectories t (place ++ [name]) rest

/-- The regular files below a directory, by the names on the way down to them. -/
def filesBelow (t : Tree) (root : Place) : List (List Name × List UInt8) :=
  t.entries.filterMap fun entry =>
    match entry.2 with
    | .file content =>
      let rest := entry.1.drop root.length
      if root.isPrefixOf entry.1 && !rest.isEmpty && throughDirectories t root rest then
        some (rest, content)
      else none
    | _ => none

/-- The root joined with names, if all of them are text. -/
def pathBelow? (root : Path) (names : List Name) : Option Path :=
  names.foldlM (fun p name => (Text.ofBytes? name).map p.joinName) root

/-- The wanted extension; dots in front of it do not count. -/
def bareExtension (extension : String) : List Char := extension.toList.dropWhile fun c => c == '.'

def hasExtension (extension : String) (p : Path) : Bool :=
  (p.fileName?.bind fun name => Path.extensionOf? name.toList) = some (bareExtension extension)

def holds (marker : String) (content : List UInt8) : Bool :=
  Text.occursIn (Text.bytes marker) content

/-- All candidates below the directory that `root` leads to, in path order. A file is looked into by
its path, so one whose path is too long is none. -/
def below (root : Path) (extension marker : String) : Locator := fun t =>
  match t.directoryAt? root with
  | none => .error (.notDirectory root)
  | some place =>
    .ok <| Path.sort <| (filesBelow t place).filterMap fun file => do
      let path ← pathBelow? root file.1
      if hasExtension extension path && (Tree.unusable? path).isNone && holds marker file.2 then pure path
      else none

/-- A list given beforehand, in path order and without repeats. -/
def given (paths : List Path) : Locator := fun _ => .ok (Path.dropRepeats (Path.sort paths))

/-- What a locator finds now; nothing if it fails. -/
def remaining (locate : Locator) (t : Tree) : List Path :=
  match locate t with
  | .ok paths => paths
  | .error _ => []

end Candidates

end ErrorMigration
