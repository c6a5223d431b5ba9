/-! TOML values and the building of a document from its lines. How a table came to be decides what a
later line may still add to it. A number too large to hold does not spoil its document: it is kept as
a value that cannot be read, and is only missed by those who look at it. -/
namespace ErrorMigration.Toml

inductive TableKind where
  /-- It has a header of its own, or it is the whole document. -/
  | declared
  /-- It stands in the header of a table below it, and may still get its own. -/
  | implied
  /-- It stands in front of a dot in the key of a value. -/
  | dotted
  /-- It is written between braces, and nothing can be added to it. -/
  | inline
  deriving DecidableEq, Repr

inductive Value where
  | string (s : String)
  | integer (n : Int)
  | float
  /-- A number that is well formed as far as its marks go, but of which no value can be told. -/
  | unreadable
  | boolean (b : Bool)
  | dateTime (text : String)
  | array (items : List Value)
  /-- The tables of a repeated header, the newest one last. -/
  | tables (items : List Value)
  | table (kind : TableKind) (entries : List (String × Value))
  deriving Repr

mutual

/-- Whether the value, and every value inside it, can be told. -/
def Value.isReadable : Value → Bool
  | .unreadable => false
  | .array items => itemsReadable items
  | .tables items => itemsReadable items
  | .table _ entries => entriesReadable entries
  | _ => true

def itemsReadable : List Value → Bool
  | [] => true
  | item :: rest => item.isReadable && itemsReadable rest

def entriesReadable : List (String × Value) → Bool
  | [] => true
  | (_, value) :: rest => value.isReadable && entriesReadable rest

end

/-- The keys of a table and their values, in the order of their first mention. -/
abbrev Entries := List (String × Value)

namespace Entries

def set (entries : Entries) (key : String) (value : Value) : Entries :=
  match entries with
  | [] => [(key, value)]
  | entry :: rest => if entry.1 = key then (key, value) :: rest else entry :: set rest key value

def readableBut (keys : List String) (entries : Entries) : Bool :=
  entriesReadable (entries.filter fun entry => !keys.contains entry.1)

/-- Change the table that a path of keys leads to. A missing table on the way is made with the kind
`fresh`, one that is there has to be passable, and of repeated tables the newest is meant. -/
def alter (passable : TableKind → Bool) (fresh : TableKind) (change : TableKind → Entries → Option Entries) :
    List String → TableKind → Entries → Option Entries
  | [], kind, entries => change kind entries
  | key :: path, _, entries =>
    match entries.lookup key with
    | none => do
      let inner ← alter passable fresh change path fresh []
      pure (entries.set key (.table fresh inner))
    | some (.table kind inner) =>
      if passable kind then do
        let inner ← alter passable fresh change path kind inner
        pure (entries.set key (.table kind inner))
      else none
    | some (.tables items) =>
      match items.getLast? with
      | some (.table kind inner) => do
        let inner ← alter passable fresh change path kind inner
        pure (entries.set key (.tables (items.dropLast ++ [.table kind inner])))
      | _ => none
    | some _ => none

def alterHeaded (change : TableKind → Entries → Option Entries) (path : List String) (entries : Entries) :
    Option Entries :=
  alter (fun kind => kind ≠ .inline) .implied change path .declared entries

/-- A header: its table must be new, or only implied so far. -/
def declare (path : List String) (key : String) (entries : Entries) : Option Entries :=
  entries.alterHeaded (fun _ entries =>
    match entries.lookup key with
    | none => some (entries.set key (.table .declared []))
    | some (.table .implied inner) => some (entries.set key (.table .declared inner))
    | some _ => none) path

/-- A repeated header: one more table. -/
def declareMore (path : List String) (key : String) (entries : Entries) : Option Entries :=
  entries.alterHeaded (fun _ entries =>
    match entries.lookup key with
    | none => some (entries.set key (.tables [.table .declared []]))
    | some (.tables items) => some (entries.set key (.tables (items ++ [.table .declared []])))
    | some _ => none) path

/-- A value under a key. A dotted key may only lead through tables that no header has declared, into
one that dotted keys have made. -/
def insert (path : List String) (key : String) (value : Value) (entries : Entries) : Option Entries :=
  alter (fun kind => kind = .implied || kind = .dotted) .dotted (fun kind entries =>
    if decide (kind = .dotted) = path.isEmpty || (entries.lookup key).isSome then none
    else some (entries.set key value)) path .declared entries

end Entries

end ErrorMigration.Toml
