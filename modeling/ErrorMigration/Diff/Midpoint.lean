import ErrorMigration.Diff.Script

/-! Where to split a pair of line lists. Two searches run against each other, one from the start
and one from the end, each along the diagonals of the edit grid; the point where they first meet
lies on a shortest edit path. The searches look at lines by their numbers, so these are in arrays. -/
namespace ErrorMigration.Diff

/-- How far a search has come on each diagonal; unseen diagonals are at zero. -/
structure Frontier where
  origin : Int
  reach : Array Int

namespace Frontier

def ofSize (size : Nat) : Frontier := ⟨size + 1, Array.replicate (2 * size + 3) 0⟩

def get (f : Frontier) (diagonal : Int) : Int := f.reach.getD (diagonal + f.origin).toNat 0

def set (f : Frontier) (diagonal x : Int) : Frontier :=
  { f with reach := f.reach.setIfInBounds (diagonal + f.origin).toNat x }

/-- Where a search of depth `d` enters a diagonal: from the neighbour that has come further. -/
def enter (f : Frontier) (d : Nat) (diagonal : Int) : Int :=
  if diagonal = -d || (diagonal ≠ d && f.get (diagonal - 1) < f.get (diagonal + 1)) then
    f.get (diagonal + 1)
  else f.get (diagonal - 1) + 1

end Frontier

/-- The diagonals of a search of depth `d`, from the highest down. -/
def diagonals (d : Nat) : List Int := (List.range (d + 1)).map fun (i : Nat) => (d : Int) - 2 * (i : Int)

variable {α : Type} [BEq α]

/-- Two texts to search: their lines from the end at which the search starts. -/
structure Grid (α : Type) where
  old : Array α
  new : Array α

namespace Grid

def excess (g : Grid α) : Int := g.old.size - g.new.size

/-- How many lines are equal from two line numbers on. -/
def run (g : Grid α) (x y : Nat) : Nat :=
  if _inside : x < g.old.size ∧ y < g.new.size then
    if g.old[x] == g.new[y] then g.run (x + 1) (y + 1) + 1 else 0
  else 0
termination_by g.old.size - x

/-- The number of equal lines from a point on, which may lie outside. -/
def runAt (g : Grid α) (x y : Int) : Nat := if 0 ≤ x && 0 ≤ y then g.run x.toNat y.toNat else 0

end Grid

/-- A step of a search on one diagonal, and the meeting point if it meets the other search. -/
abbrev Advance := Int → Frontier → Frontier × Option (Int × Int)

def advanceAll (advance : Advance) : List Int → Frontier → Frontier × Option (Int × Int)
  | [], f => (f, none)
  | k :: rest, f =>
    match advance k f with
    | (f, some point) => (f, some point)
    | (f, none) => advanceAll advance rest f

/-- From the start. The searches can meet here when the lengths differ by an odd number; the
meeting point is where the last run of equal lines starts. -/
def forward (g : Grid α) (d : Nat) (other : Frontier) : Advance := fun k f =>
  let x := f.enter d k
  let y := x - k
  let reached := x + g.runAt x y
  let f := f.set k reached
  let meets := g.excess % 2 = 1 && (k - g.excess).natAbs < d &&
    reached + other.get (g.excess - k) ≥ g.old.size
  (f, if meets then some (x, y) else none)

/-- From the end, on the lists read backwards. The searches can meet here when the lengths differ
by an even number; the meeting point is where the last run of equal lines ends. -/
def backward (g : Grid α) (d : Nat) (other : Frontier) : Advance := fun k f =>
  let x := f.enter d k
  let y := x - k
  let run := g.runAt x y
  let f := f.set k (x + run)
  let meets := g.excess % 2 ≠ 1 && (k - g.excess).natAbs ≤ d &&
    x + run + other.get (g.excess - k) ≥ g.old.size
  (f, if meets then some (g.old.size - (x + run), g.new.size - (y + run)) else none)

def search (fromStart fromEnd : Grid α) : Nat → Nat → Frontier → Frontier → Option (Int × Int)
  | 0, _, _, _ => none
  | bound + 1, d, front, back =>
    match advanceAll (forward fromStart d back) (diagonals d) front with
    | (_, some point) => some point
    | (front, none) =>
      match advanceAll (backward fromEnd d front) (diagonals d) back with
      | (_, some point) => some point
      | (back, none) => search fromStart fromEnd bound (d + 1) front back

def midpoint? (old new : List α) : Option (Nat × Nat) :=
  let size := old.length + new.length
  let fromStart : Grid α := ⟨old.toArray, new.toArray⟩
  let fromEnd : Grid α := ⟨old.toArray.reverse, new.toArray.reverse⟩
  (search fromStart fromEnd (size + 1) 0 (.ofSize size) (.ofSize size)).map fun point =>
    (point.1.toNat, point.2.toNat)

end ErrorMigration.Diff
