import ErrorMigration.Files.Path

/-! A file tree as a value: which directories, files and symbolic links stand at which places.
Paths are resolved step by step, and links are followed up to a fixed number. -/
namespace ErrorMigration

/-- A name in a directory; names are bytes and need not be text. -/
abbrev Name := List UInt8

/-- A place in the tree: the names on the way down from the root. -/
abbrev Place := List Name

inductive Node where
  | directory
  | file (content : List UInt8)
  | link (target : String)
  deriving DecidableEq

/-- The entries below the root, each place once. Relative paths start at `home`. -/
structure Tree where
  entries : List (Place × Node)
  home : Place
  nodup : (entries.map Prod.fst).Nodup

inductive Cause where
  | notFound
  | exists
  | notDirectory
  | isDirectory
  | tooManyLinks
  | nameTooLong
  /-- A path with a zero byte in it, which names nothing. -/
  | zeroByte
  /-- The content is not UTF-8. -/
  | notText
  /-- A directory where a file has to be. -/
  | notRegular
  deriving DecidableEq, Repr

def Cause.message : Cause → String
  | .notFound => "No such file or directory (os error 2)"
  | .exists => "File exists (os error 17)"
  | .notDirectory => "Not a directory (os error 20)"
  | .isDirectory => "Is a directory (os error 21)"
  | .tooManyLinks => "Too many levels of symbolic links (os error 40)"
  | .nameTooLong => "File name too long (os error 36)"
  | .zeroByte => "file name contained an unexpected NUL byte"
  | .notText => "stream did not contain valid UTF-8"
  | .notRegular => "the source path is neither a regular file nor a symlink to a regular file"

namespace Tree

/-- What stands at a place; the root is always a directory. -/
def node? (t : Tree) (place : Place) : Option Node :=
  if place = [] then some .directory else t.entries.lookup place

def put (t : Tree) (place : Place) (node : Node) : Tree where
  entries := (place, node) :: t.entries.filter fun entry => entry.1 ≠ place
  home := t.home
  nodup := by
    have kept : ((t.entries.filter fun entry => entry.1 ≠ place).map Prod.fst).Nodup :=
      t.nodup.sublist (List.filter_sublist.map Prod.fst)
    simpa using kept

def empty (home : Place) : Tree :=
  (List.range home.length).foldl (fun t n => t.put (home.take (n + 1)) .directory) ⟨[], home, by simp⟩

def remove (t : Tree) (place : Place) : Tree where
  entries := t.entries.filter fun entry => !place.isPrefixOf entry.1
  home := t.home
  nodup := t.nodup.sublist (List.filter_sublist.map Prod.fst)

inductive Step where
  | stay
  | up
  | down (name : Name)
  /-- A slash at the end: what comes before it has to be a directory. -/
  | slash
  deriving DecidableEq, Repr

def Step.ofSegment : List Char → Step
  | ['.'] => .stay
  | ['.', '.'] => .up
  | text => .down (Text.bytes (String.ofList text))

/-- The steps of a path without what a trailing slash adds. -/
def plainSteps (p : Path) : List Step :=
  (p.segments.filter fun segment => segment ≠ []).map Step.ofSegment

def endsInSlash (p : Path) : Bool := p.spelling.toList.getLast? = some '/'

def steps (p : Path) : List Step := plainSteps p ++ if endsInSlash p then [.slash] else []

def maxNameLength : Nat := 255

def maxPathLength : Nat := 4095

/-- Why a path leads nowhere in any tree. -/
def unusable? (p : Path) : Option Cause :=
  if p.spelling.toList.contains '\x00' then some .zeroByte
  else if p.spelling = "" then some .notFound
  else if maxPathLength < p.spelling.utf8ByteSize then some .nameTooLong
  else none

/-- Where a path leads: to a directory, to a file, or to a free name in a directory. -/
inductive Target where
  | directory (place : Place)
  | file (place : Place) (content : List UInt8)
  | vacant (parent : Place) (name : Name)

/-- What a path is resolved for. A file that is written may be missing, and its name never ends in a
slash. -/
inductive Purpose where
  | use
  | write
  deriving DecidableEq, Repr

/-- Walk from a directory; `follow` goes on where a link leads. -/
def walk (t : Tree) (purpose : Purpose) (follow : Place → List Step → Except Cause Target) :
    Place → List Step → Except Cause Target
  | place, [] => .ok (.directory place)
  | place, .stay :: rest => walk t purpose follow place rest
  | place, .slash :: rest => walk t purpose follow place rest
  | place, .up :: rest => walk t purpose follow place.dropLast rest
  | place, .down name :: rest =>
    if purpose = .write && rest = [.slash] then .error .isDirectory
    else if maxNameLength < name.length then .error .nameTooLong
    else
      match t.node? (place ++ [name]) with
      | none => if rest.isEmpty then .ok (.vacant place name) else .error .notFound
      | some .directory => walk t purpose follow (place ++ [name]) rest
      | some (.file content) =>
        if rest.isEmpty then .ok (.file (place ++ [name]) content) else .error .notDirectory
      | some (.link target) =>
        follow (if Path.isAbsolute ⟨target⟩ then [] else place) (steps ⟨target⟩ ++ rest)

def walkLinks (t : Tree) (purpose : Purpose) : Nat → Place → List Step → Except Cause Target
  | 0 => walk t purpose fun _ _ => .error .tooManyLinks
  | links + 1 => walk t purpose (walkLinks t purpose links)

def maxLinks : Nat := 40

def startOf (t : Tree) (p : Path) : Place := if p.isAbsolute then [] else t.home

def resolveSteps (t : Tree) (purpose : Purpose) (p : Path) (steps : List Step) : Except Cause Target :=
  t.walkLinks purpose maxLinks (t.startOf p) steps

def resolveFor (t : Tree) (purpose : Purpose) (p : Path) : Except Cause Target :=
  match unusable? p with
  | some cause => .error cause
  | none => t.resolveSteps purpose p (steps p)

def resolve (t : Tree) (p : Path) : Except Cause Target := t.resolveFor .use p

def isPresent (t : Tree) (p : Path) : Bool :=
  match t.resolve p with
  | .ok (.directory _) => true
  | .ok (.file _ _) => true
  | _ => false

def directoryAt? (t : Tree) (p : Path) : Option Place :=
  match t.resolve p with
  | .ok (.directory place) => some place
  | _ => none

def isDirectory (t : Tree) (p : Path) : Bool := (t.directoryAt? p).isSome

end Tree

end ErrorMigration
