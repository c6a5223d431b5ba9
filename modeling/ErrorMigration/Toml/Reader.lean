import ErrorMigration.Toml.Scalar
import ErrorMigration.Toml.Text

/-! Reading TOML documents of version 1.1: lines with a header or a key and its value, with blanks and
comments between them. -/
namespace ErrorMigration.Toml

/-- How many keys dots may join, and how deep arrays and inline tables may stand in one another. -/
def maxDepth : Nat := 80

def skipSpace (cs : List Char) : List Char := cs.dropWhile isSpace

/-- Skip blanks, line ends and comments; `comment` says that one is open. -/
def skipFiller : Bool → List Char → Option (List Char)
  | _, [] => some []
  | true, c :: rest =>
    if c == '\n' || (c == '\r' && rest.head? = some '\n') then skipFiller false rest
    else if isPlain c then skipFiller true rest
    else none
  | false, c :: rest =>
    if isSpace c || c == '\n' || (c == '\r' && rest.head? = some '\n') then skipFiller false rest
    else if c == '#' then skipFiller true rest
    else some (c :: rest)

def endLine? (cs : List Char) : Option (List Char) :=
  match skipSpace cs with
  | [] => some []
  | c :: rest => if c == '#' || c == '\n' || c == '\r' then skipFiller false (c :: rest) else none

def isBareKeyChar (c : Char) : Bool := c.isAlphanum || c == '_' || c == '-'

/-- One key: a bare word, or a string on one line. -/
def key? (cs : List Char) : Option (String × List Char) :=
  match cs with
  | '"' :: cs => (basic? cs).map fun p => (String.ofList p.1, p.2)
  | '\x27' :: cs => (literal? cs).map fun p => (String.ofList p.1, p.2)
  | cs =>
    let word := cs.takeWhile isBareKeyChar
    if word.isEmpty then none else some (String.ofList word, cs.dropWhile isBareKeyChar)

/-- At most the given number of keys with dots between them: those in front of the last one, and the
last one. -/
def keysUpTo? : Nat → List Char → Option ((List String × String) × List Char)
  | 0, _ => none
  | most + 1, cs => do
    let (key, cs) ← key? (skipSpace cs)
    match skipSpace cs with
    | '.' :: cs => (keysUpTo? most cs).map fun p => ((key :: p.1.1, p.1.2), p.2)
    | cs => pure (([], key), cs)

def keys? (cs : List Char) : Option ((List String × String) × List Char) := keysUpTo? maxDepth cs

mutual

/-- A value at the head of the text; `room` says how many arrays and inline tables may still open
inside one another, and `bound` limits the recursion. -/
def value? : Nat → Nat → List Char → Option (Value × List Char)
  | 0, _, _ => none
  | bound + 1, room, cs =>
    match room, cs with
    | _, [] => none
    | 0, '[' :: _ => none
    | 0, '\x7b' :: _ => none
    | room + 1, '[' :: cs => (items? bound room cs).map fun p => (.array p.1, p.2)
    | room + 1, '\x7b' :: cs => (fields? bound room [] cs).map fun p => (.table .inline p.1, p.2)
    | _, c :: rest =>
      if c == '"' || c == '\x27' then (string? (c :: rest)).map fun p => (.string p.1, p.2)
      else
        let (run, rest) := scalarRun (c :: rest)
        (scalar? run).map fun value => (value, rest)

def items? : Nat → Nat → List Char → Option (List Value × List Char)
  | 0, _, _ => none
  | bound + 1, room, cs => do
    match ← skipFiller false cs with
    | ']' :: cs => pure ([], cs)
    | cs =>
      let (item, cs) ← value? bound room cs
      match ← skipFiller false cs with
      | ',' :: cs => (items? bound room cs).map fun p => (item :: p.1, p.2)
      | ']' :: cs => pure ([item], cs)
      | _ => none

/-- The entries of an inline table up to its closing brace, added to those before them. Lines may end
anywhere in it, except among keys that dots join. -/
def fields? : Nat → Nat → Entries → List Char → Option (Entries × List Char)
  | 0, _, _, _ => none
  | bound + 1, room, entries, cs => do
    match ← skipFiller false cs with
    | '\x7d' :: cs => pure (entries, cs)
    | cs =>
      let ((path, key), cs) ← keys? cs
      let cs ← Text.skip? ['='] (← skipFiller false cs)
      let (value, cs) ← value? bound room (← skipFiller false cs)
      let entries ← entries.insert path key value
      match ← skipFiller false cs with
      | ',' :: cs => fields? bound room entries cs
      | '\x7d' :: cs => pure (entries, cs)
      | _ => none

end

/-- A document that is being read: the path of the table that lines add to, and what was read. -/
structure Draft where
  header : List String := []
  entries : Entries := []

def line? (bound : Nat) (draft : Draft) (cs : List Char) : Option (Draft × List Char) :=
  match cs with
  | '[' :: '[' :: cs => do
    let ((path, key), cs) ← keys? cs
    let cs ← Text.skip? [']', ']'] cs
    pure (⟨path ++ [key], ← draft.entries.declareMore path key⟩, cs)
  | '[' :: cs => do
    let ((path, key), cs) ← keys? cs
    let cs ← Text.skip? [']'] cs
    pure (⟨path ++ [key], ← draft.entries.declare path key⟩, cs)
  | cs => do
    let ((path, key), cs) ← keys? cs
    let cs ← Text.skip? ['='] cs
    let (value, cs) ← value? bound maxDepth (skipSpace cs)
    let entries ← draft.entries.alterHeaded (fun _ entries => entries.insert path key value) draft.header
    pure ({ draft with entries }, cs)

/-- Read lines to the end of the text. Every line has a character, which bounds their number. -/
def lines? (bound : Nat) : Nat → Draft → List Char → Option Draft
  | _, draft, [] => some draft
  | 0, _, _ :: _ => none
  | left + 1, draft, cs => do
    let (draft, cs) ← line? bound draft cs
    lines? bound left draft (← endLine? cs)

/-- A whole document; a byte order mark in front of it does not count. -/
def parse? (text : String) : Option Entries := do
  let cs := match text.toList with
    | '\ufeff' :: cs => cs
    | cs => cs
  let bound := 2 * cs.length + 2
  let draft ← lines? bound cs.length {} (← skipFiller false cs)
  pure draft.entries

end ErrorMigration.Toml
