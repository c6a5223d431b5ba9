import ErrorMigration.Text.Bytes
import ErrorMigration.Text.Search

/-! Paths keep their spelling, and it is the spelling that is printed and joined. Order and
equality of candidates look at components instead: repeated slashes, a trailing slash and inner
dots do not count. -/
namespace ErrorMigration

structure Path where
  spelling : String
  deriving DecidableEq, Repr

namespace Path

inductive Component where
  | root
  | here
  | up
  | name (text : String)
  deriving DecidableEq, Repr

def Component.rank : Component → Nat
  | .root => 0
  | .here => 1
  | .up => 2
  | .name _ => 3

def Component.nameBytes : Component → List UInt8
  | .name text => Text.bytes text
  | _ => []

/-- Names are compared by their bytes. -/
def Component.precedes (a b : Component) : Bool :=
  a.rank < b.rank || (a.rank == b.rank && decide (a.nameBytes < b.nameBytes))

/-- Component by component; a path comes before those that go on from it. -/
def componentsPrecede : List Component → List Component → Bool
  | [], [] => false
  | [], _ :: _ => true
  | _ :: _, [] => false
  | a :: as, b :: bs => a.precedes b || (a = b && componentsPrecede as bs)

/-- What stands between the slashes, empty segments included. -/
def segments (p : Path) : List (List Char) := Text.pieces '/' p.spelling.toList

def ofSegments (segments : List (List Char)) : Path :=
  if segments = [[]] then ⟨"/"⟩ else ⟨String.ofList (Text.glue '/' segments)⟩

def Component.ofSegment : List Char → Component
  | ['.'] => .here
  | ['.', '.'] => .up
  | text => .name (String.ofList text)

/-- A segment that adds nothing behind the first one. -/
def isInert (segment : List Char) : Bool := segment = [] || segment = ['.']

def components (p : Path) : List Component :=
  match p.segments with
  | [] => []
  | first :: rest =>
    let head := if first ≠ [] then [Component.ofSegment first] else if rest = [] then [] else [.root]
    head ++ (rest.filter fun segment => !isInert segment).map Component.ofSegment

/-- The same components in the same order, whatever the spelling. -/
def Same (a b : Path) : Prop := a.components = b.components

instance (a b : Path) : Decidable (Same a b) := inferInstanceAs (Decidable (_ = _))

def precedes (a b : Path) : Bool := componentsPrecede a.components b.components

/-- Stable sort: paths with the same components keep their order. -/
def sort (paths : List Path) : List Path := paths.mergeSort fun a b => !b.precedes a

/-- Drop a path when its neighbour before it has the same components. -/
def dropRepeats : List Path → List Path
  | [] => []
  | p :: rest => p :: dropAfter p rest
where
  dropAfter (last : Path) : List Path → List Path
    | [] => []
    | p :: rest => if Same last p then dropAfter last rest else p :: dropAfter p rest

def isAbsolute (p : Path) : Bool := p.spelling.toList.head? = some '/'

/-- An absolute right side replaces the left one; nothing is normalised. -/
def join (left right : Path) : Path :=
  if right.isAbsolute then right
  else if left.spelling = "" || left.spelling.toList.getLast? = some '/' then
    ⟨left.spelling ++ right.spelling⟩
  else ⟨left.spelling ++ "/" ++ right.spelling⟩

def joinName (left : Path) (name : String) : Path := left.join ⟨name⟩

def fileName? (p : Path) : Option String :=
  match p.components.getLast? with
  | some (.name text) => some text
  | _ => none

/-- What follows the last dot of a name; a dot in front only starts no extension. -/
def extensionOf? (name : List Char) : Option (List Char) :=
  let backwards := name.reverse
  match backwards.dropWhile fun c => c ≠ '.' with
  | [] => none
  | [_] => none
  | _ :: _ => some (backwards.takeWhile fun c => c ≠ '.').reverse

def trimTail (segments : List (List Char)) : List (List Char) :=
  (segments.reverse.dropWhile isInert).reverse

/-- The path without its last component; the empty path and the root have no parent. -/
def parent? (p : Path) : Option Path :=
  match p.segments with
  | [] => none
  | first :: rest =>
    let kept := trimTail rest
    if kept = [] then if first = [] then none else some ⟨""⟩
    else some (ofSegments (first :: trimTail kept.dropLast))

/-- The path and all paths above it, nearest first, at most `bound` of them. -/
def chainUp : Nat → Path → List Path
  | 0, _ => []
  | bound + 1, p =>
    match p.parent? with
    | none => [p]
    | some above => p :: chainUp bound above

def ancestors (p : Path) : List Path := chainUp (p.segments.length + 1) p

end Path

end ErrorMigration
