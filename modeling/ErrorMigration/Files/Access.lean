import ErrorMigration.Files.Tree

/-! Reading, writing, copying and making directories by path. A failed operation says what it was
about to do, to which path, and why it could not. -/
namespace ErrorMigration

inductive AccessError where
  | opening (path : Path) (cause : Cause)
  | reading (path : Path) (cause : Cause)
  | creating (path : Path) (cause : Cause)
  | makingDirectory (path : Path) (cause : Cause)
  | copying (source dest : Path) (cause : Cause)
  deriving DecidableEq, Repr

def AccessError.message : AccessError → String
  | .opening p cause => s!"failed to open file `{p.spelling}`: {cause.message}"
  | .reading p cause => s!"failed to read from file `{p.spelling}`: {cause.message}"
  | .creating p cause => s!"failed to create file `{p.spelling}`: {cause.message}"
  | .makingDirectory p cause => s!"failed to create directory `{p.spelling}`: {cause.message}"
  | .copying source dest cause =>
    s!"failed to copy file from `{source.spelling}` to `{dest.spelling}`: {cause.message}"

/-- Work on a tree that may fail with what was done so far left in place. -/
abbrev FileTask (ε α : Type) := ExceptT ε (StateM Tree) α

namespace Tree

def readText (t : Tree) (p : Path) : Except AccessError String :=
  match t.resolve p with
  | .error cause => .error (.opening p cause)
  | .ok (.vacant _ _) => .error (.opening p .notFound)
  | .ok (.directory _) => .error (.reading p .isDirectory)
  | .ok (.file _ content) =>
    match Text.ofBytes? content with
    | some text => .ok text
    | none => .error (.reading p .notText)

/-- The place that writing to a path fills: a file that is there, or a free name. -/
def placeToWrite (t : Tree) (p : Path) : Except Cause Place :=
  match t.resolveFor .write p with
  | .error cause => .error cause
  | .ok (.directory _) => .error .isDirectory
  | .ok (.file place _) => .ok place
  | .ok (.vacant parent name) => .ok (parent ++ [name])

def write (t : Tree) (p : Path) (content : List UInt8) : Except Cause Tree :=
  (t.placeToWrite p).map fun place => t.put place (.file content)

/-- Make one directory; everything above it has to be there and it must not be. -/
def makeDirectory (t : Tree) (p : Path) : Except Cause Tree :=
  match unusable? p, (plainSteps p).getLast? with
  | some cause, _ => .error cause
  | none, none => .error .exists
  | none, some last =>
    match t.resolveSteps .use p (plainSteps p).dropLast with
    | .error cause => .error cause
    | .ok (.file _ _) => .error .notDirectory
    | .ok (.vacant _ _) => .error .notFound
    | .ok (.directory place) =>
      match last with
      | .down name =>
        if maxNameLength < name.length then .error .nameTooLong
        else if (t.node? (place ++ [name])).isSome then .error .exists
        else .ok (t.put (place ++ [name]) .directory)
      | _ => .error .exists

/-- Make the first of the paths, and those above it that are missing. The others are the paths
above it, nearest first; the empty path ends them. -/
def makeAll (t : Tree) : List Path → Except Cause Unit × Tree
  | [] => (.ok (), t)
  | p :: above =>
    if p.spelling = "" then (.ok (), t)
    else
      match t.makeDirectory p with
      | .ok t => (.ok (), t)
      | .error .notFound =>
        match t.makeAll above with
        | (.error cause, t) => (.error cause, t)
        | (.ok (), t) =>
          match t.makeDirectory p with
          | .ok t => (.ok (), t)
          | .error cause => if t.isDirectory p then (.ok (), t) else (.error cause, t)
      | .error cause => if t.isDirectory p then (.ok (), t) else (.error cause, t)

def copy (t : Tree) (source dest : Path) : Except Cause Tree :=
  match t.resolve source with
  | .error cause => .error cause
  | .ok (.vacant _ _) => .error .notFound
  | .ok (.directory _) => .error .notRegular
  | .ok (.file _ content) => t.write dest content

end Tree

namespace FileTask

/-- Replace the tree, or fail and leave it. -/
def update {ε : Type} (change : Tree → Except ε Tree) : FileTask ε Unit := fun t =>
  match change t with
  | .ok t => (.ok (), t)
  | .error e => (.error e, t)

def inspect {ε α : Type} (look : Tree → Except ε α) : FileTask ε α := fun t => (look t, t)

def writeFile (p : Path) (content : List UInt8) : FileTask AccessError Unit :=
  update fun t => (t.write p content).mapError (.creating p)

/-- Write a file unless something is in the way, such as a full disk. -/
def writeFileUnless (fault : Tree → Option AccessError) (p : Path) (content : List UInt8) :
    FileTask AccessError Unit := fun t =>
  match fault t with
  | some error => (.error error, t)
  | none => writeFile p content t

def copyFile (source dest : Path) : FileTask AccessError Unit :=
  update fun t => (t.copy source dest).mapError (.copying source dest)

/-- Make a directory and all that are missing above it; one that is there is fine. -/
def makeDirectories (p : Path) : FileTask AccessError Unit := fun t =>
  let (result, t) := t.makeAll p.ancestors
  (result.mapError (.makingDirectory p), t)

def orElseError {ε δ α : Type} (task : FileTask ε α) (explain : ε → δ) : FileTask δ α := fun t =>
  let (result, t) := task t
  (result.mapError explain, t)

end FileTask

end ErrorMigration
