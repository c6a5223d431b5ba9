import ErrorMigration.Json.Value
import ErrorMigration.Text.Digits
import ErrorMigration.Text.Search

/-! Reading JSON texts. The reader takes exactly the JSON grammar: no comments, no trailing commas,
no leading zeros, and nothing but blanks behind the value. -/
namespace ErrorMigration.Json

def isBlank (c : Char) : Bool := c == ' ' || c == '\n' || c == '\r' || c == '\t'

def blanks (cs : List Char) : List Char := cs.dropWhile isBlank

/-- What one element of a string literal stands for: a character, or half a surrogate pair. -/
inductive Unit where
  | char (c : Char)
  | half (code : Nat)
  deriving DecidableEq, Repr

def Unit.ofCode (code : Nat) : Unit :=
  if 0xD800 ≤ code && code ≤ 0xDFFF then .half code else .char (Char.ofNat code)

def escapeChar? (c : Char) : Option Char :=
  if c == '"' || c == '\\' || c == '/' then some c
  else if c == 'b' then some '\x08'
  else if c == 'f' then some '\x0c'
  else if c == 'n' then some '\n'
  else if c == 'r' then some '\r'
  else if c == 't' then some '\t'
  else none

/-- The units of a string literal behind its opening quote, and what follows the closing one. -/
def units? : List Char → Option (List Unit × List Char)
  | [] => none
  | '"' :: rest => some ([], rest)
  | '\\' :: 'u' :: a :: b :: c :: d :: rest => do
    let code ← Text.numberIn? 16 [a, b, c, d]
    let (units, rest) ← units? rest
    pure (.ofCode code :: units, rest)
  | '\\' :: c :: rest => do
    let c ← escapeChar? c
    let (units, rest) ← units? rest
    pure (.char c :: units, rest)
  | c :: rest =>
    if c.toNat < 0x20 || c == '\\' then none
    else (units? rest).map fun p => (.char c :: p.1, p.2)

/-- The text of units; halves have to stand in pairs, the high one first. -/
def textOf? : List Unit → Option (List Char)
  | [] => some []
  | .char c :: rest => (textOf? rest).map (c :: ·)
  | .half high :: .half low :: rest =>
    if high < 0xDC00 && 0xDC00 ≤ low then
      (textOf? rest).map (Char.ofNat (0x10000 + (high - 0xD800) * 0x400 + (low - 0xDC00)) :: ·)
    else none
  | .half _ :: _ => none

def digits? (cs : List Char) : Option (List Char × List Char) :=
  let digits := cs.takeWhile Char.isDigit
  if digits.isEmpty then none else some (digits, cs.dropWhile Char.isDigit)

/-- Digits without a leading zero. -/
def whole? (cs : List Char) : Option (List Char × List Char) :=
  match cs with
  | '0' :: rest => some (['0'], rest)
  | cs => digits? cs

def fraction? : List Char → Option (List Char × List Char)
  | '.' :: cs => (digits? cs).map fun p => ('.' :: p.1, p.2)
  | cs => some ([], cs)

def exponent? : List Char → Option (List Char × List Char)
  | c :: cs =>
    if c == 'e' || c == 'E' then
      match cs with
      | '+' :: cs => (digits? cs).map fun p => (c :: '+' :: p.1, p.2)
      | '-' :: cs => (digits? cs).map fun p => (c :: '-' :: p.1, p.2)
      | cs => (digits? cs).map fun p => (c :: p.1, p.2)
    else some ([], c :: cs)
  | [] => some ([], [])

/-- A number at the head of the text. A digit cannot follow it. -/
def number? (cs : List Char) : Option (Json × List Char) := do
  let (sign, cs) := match cs with
    | '-' :: cs => (['-'], cs)
    | cs => ([], cs)
  let (whole, cs) ← whole? cs
  let (fraction, cs) ← fraction? cs
  let (exponent, cs) ← exponent? cs
  if (cs.head?.map Char.isDigit).getD false then none
  else if sign.isEmpty && fraction.isEmpty && exponent.isEmpty then pure (.natural (Text.numberOf whole), cs)
  else pure (.numeral (sign ++ whole ++ fraction ++ exponent), cs)

def stringValue (units : List Unit) : Json :=
  match textOf? units with
  | some text => .string (String.ofList text)
  | none => .broken

def scalar? (cs : List Char) : Option (Json × List Char) :=
  match cs with
  | '"' :: cs => (units? cs).map fun p => (stringValue p.1, p.2)
  | 'n' :: cs => (Text.skip? "ull".toList cs).map fun cs => (.null, cs)
  | 't' :: cs => (Text.skip? "rue".toList cs).map fun cs => (.boolean true, cs)
  | 'f' :: cs => (Text.skip? "alse".toList cs).map fun cs => (.boolean false, cs)
  | cs => number? cs

/-- A field name and its colon; there is no name when its units are no text. -/
def name? (cs : List Char) : Option (Option String × List Char) := do
  let cs ← Text.skip? ['"'] (blanks cs)
  let (units, cs) ← units? cs
  let cs ← Text.skip? [':'] (blanks cs)
  pure ((textOf? units).map String.ofList, cs)

def objectValue (fields : List (Option String × Json)) : Json :=
  match fields.mapM fun field => field.1.map fun name => (name, field.2) with
  | some fields => .object fields
  | none => .broken

mutual

/-- A value at the head of the text; `bound` limits the depth of the recursion. -/
def value? : Nat → List Char → Option (Json × List Char)
  | 0, _ => none
  | bound + 1, cs =>
    match blanks cs with
    | '[' :: cs =>
      match blanks cs with
      | ']' :: cs => some (.array [], cs)
      | cs => (items? bound cs).map fun p => (.array p.1, p.2)
    | '\x7b' :: cs =>
      match blanks cs with
      | '\x7d' :: cs => some (.object [], cs)
      | cs => (fields? bound cs).map fun p => (objectValue p.1, p.2)
    | cs => scalar? cs

def items? : Nat → List Char → Option (List Json × List Char)
  | 0, _ => none
  | bound + 1, cs => do
    let (item, cs) ← value? bound cs
    match blanks cs with
    | ',' :: cs => (items? bound cs).map fun p => (item :: p.1, p.2)
    | ']' :: cs => pure ([item], cs)
    | _ => none

def fields? : Nat → List Char → Option (List (Option String × Json) × List Char)
  | 0, _ => none
  | bound + 1, cs => do
    let (name, cs) ← name? cs
    let (value, cs) ← value? bound cs
    match blanks cs with
    | ',' :: cs => (fields? bound cs).map fun p => ((name, value) :: p.1, p.2)
    | '\x7d' :: cs => pure ([(name, value)], cs)
    | _ => none

end

def parse? (text : String) : Option Json := do
  let cs := text.toList
  let (value, rest) ← value? (2 * cs.length + 2) cs
  if (blanks rest).isEmpty then pure value else none

end ErrorMigration.Json
