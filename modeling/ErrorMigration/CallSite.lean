import ErrorMigration.CodeTable
import ErrorMigration.Text.Search

/-! Deprecated calls in a source text. A text is read as a sequence of segments: a call wherever
one starts, the leftmost first, and single characters elsewhere. Finding the calls and replacing
them are two readings of that one sequence. -/
namespace ErrorMigration

def deprecatedMarker : String := "StandardErrorWrapper"

def containsMarker (cs : List Char) : Bool := Text.occursIn deprecatedMarker.toList cs

/-- The three arguments of a call, each as it stands between its delimiters. -/
structure Call where
  code : List Char
  message : List Char
  details : List Char
  deriving DecidableEq, Repr

namespace Call

def isQuote (c : Char) : Bool := c == '\x27' || c == '"' || c == '\x60'

def blanks (cs : List Char) : List Char := cs.dropWhile Text.isBlank

/-- At least one blank. -/
def gap? : List Char → Option (List Char)
  | c :: cs => if Text.isBlank c then some (blanks cs) else none
  | [] => none

/-- A text between two quotes of any style; it holds no quote of any style. -/
def literal? : List Char → Option (List Char × List Char)
  | open_ :: cs =>
    if isQuote open_ then
      match cs.dropWhile fun c => !isQuote c with
      | _ :: rest => some (cs.takeWhile fun c => !isQuote c, rest)
      | [] => none
    else none
  | [] => none

/-- A text between braces; it holds no closing brace. -/
def braced? : List Char → Option (List Char × List Char)
  | open_ :: cs => if open_ == '\x7b' then Text.cut? '\x7d' cs else none
  | [] => none

def comma? (cs : List Char) : Option (List Char) :=
  (Text.skip? [','] (blanks cs)).map blanks

/-- What starts a call: the keyword, the constructor and the opening parenthesis. -/
def head? (cs : List Char) : Option (List Char) := do
  let cs ← Text.skip? "throw".toList cs
  let cs ← gap? cs
  let cs ← Text.skip? "new".toList cs
  let cs ← gap? cs
  let cs ← Text.skip? deprecatedMarker.toList cs
  Text.skip? ['('] cs

def scan? (cs : List Char) : Option (Call × List Char) := do
  let cs ← head? cs
  let (code, cs) ← literal? (blanks cs)
  if code.isEmpty then none
  let cs ← comma? cs
  let (message, cs) ← literal? cs
  let cs ← comma? cs
  let (details, cs) ← braced? cs
  let cs ← Text.skip? [')'] (blanks cs)
  pure (⟨code, message, details⟩, cs)

def trimmed (call : Call) : Call := ⟨Text.trim call.code, Text.trim call.message, Text.trim call.details⟩

/-- The block that stands for a call. Its continuation lines carry a fixed indentation. -/
def replacement (codes : CodeTable) (call : Call) : List Char :=
  "const error = new Error('".toList ++ Text.trim call.message ++
    "')\n      error.code = ErrorCodes.".toList ++
    (codes.resolve (String.ofList (Text.trim call.code))).toList ++
    "\n      error.details = \x7b ".toList ++ Text.trim call.details ++
    " \x7d\n      throw error".toList

end Call

/-- A stretch of source text: one character outside calls, or a whole call. -/
inductive Segment where
  | plain (c : Char)
  | call (source : List Char) (found : Call)
  deriving DecidableEq, Repr

namespace Segment

/-- Segments of what is left after passing over `covered` characters of a call. -/
def scanFrom (covered : Nat) : List Char → List Segment
  | [] => []
  | c :: cs =>
    match covered with
    | covered + 1 => scanFrom covered cs
    | 0 =>
      match Call.scan? (c :: cs) with
      | some (found, rest) =>
        let inner := cs.length - rest.length
        .call (c :: cs.take inner) found :: scanFrom inner cs
      | none => .plain c :: scanFrom 0 cs

def scan (cs : List Char) : List Segment := scanFrom 0 cs

def source : Segment → List Char
  | .plain c => [c]
  | .call source _ => source

def replaced (codes : CodeTable) : Segment → List Char
  | .plain c => [c]
  | .call _ found => found.replacement codes

def isCall : Segment → Bool
  | .plain _ => false
  | .call _ _ => true

end Segment

/-- A call with its place: the byte offsets of its first byte and of the byte after its last. -/
structure CallSite where
  start : Nat
  stop : Nat
  call : Call
  deriving DecidableEq, Repr

namespace CallSite

def ofSegments (offset : Nat) : List Segment → List CallSite
  | [] => []
  | .plain c :: rest => ofSegments (offset + c.utf8Size) rest
  | .call source call :: rest =>
    let stop := offset + Text.byteLength source
    ⟨offset, stop, call⟩ :: ofSegments stop rest

def find (cs : List Char) : List CallSite := ofSegments 0 (Segment.scan cs)

def replaceAll (codes : CodeTable) (cs : List Char) : List Char :=
  (Segment.scan cs).flatMap (Segment.replaced codes)

def count (cs : List Char) : Nat := (Segment.scan cs).countP Segment.isCall

end CallSite

end ErrorMigration
