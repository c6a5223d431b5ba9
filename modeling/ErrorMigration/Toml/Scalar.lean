import ErrorMigration.Moment
import ErrorMigration.Text.Bytes
import ErrorMigration.Text.Digits
import ErrorMigration.Text.Search
import ErrorMigration.Toml.Value

/-! TOML numbers, dates and truth values. Each of them is a run of characters up to a blank, a comma, a
bracket or the end of the line, which has to be one of them as a whole. Dates and truth values are
checked when they are met. Of a number only the form is: one that is out of range, or an integer with
other characters behind an underscore, becomes a value that cannot be read. -/
namespace ErrorMigration.Toml

/-- A number without its underscores. Each of them stands between two digits, or behind a single
character at the head, which may be a sign. -/
def ungroup? (isDigit : Char → Bool) (cs : List Char) : Option (List Char) :=
  let groups := Text.pieces '_' cs
  if groups.tail.all (fun group => group.head?.any isDigit) &&
      groups.dropLast.all (fun group => group.length = 1 || group.getLast?.any isDigit) then
    some groups.flatten
  else none

/-- A sign and what follows it; the flag says whether it is a minus. -/
def signed : List Char → Bool × List Char
  | '-' :: cs => (true, cs)
  | '+' :: cs => (false, cs)
  | cs => (false, cs)

def hasLeadingZero (cs : List Char) : Bool := cs.head? = some '0' && cs.length ≠ 1

/-- The integers that a reader of values tells apart. -/
def fits (n : Int) : Bool := -(Nat.pow 2 127 : Nat) ≤ n && n < (Nat.pow 2 128 : Nat)

def integerOf (base : Nat) (negative : Bool) (digits : List Char) : Value :=
  match Text.numberIn? base digits with
  | some n =>
    let n : Int := if negative then -n else n
    if !digits.isEmpty && fits n then .integer n else .unreadable
  | none => .unreadable

def integerIn? (base : Nat) (cs : List Char) : Option Value :=
  if cs.all fun c => Text.isDigitOf base c || c == '_' then
    (ungroup? (Text.isDigitOf base) cs).map (integerOf base false)
  else none

/-- A hexadecimal, octal or binary integer, which has no sign. -/
def basedInteger? : List Char → Option Value
  | '0' :: 'x' :: cs => integerIn? 16 cs
  | '0' :: 'o' :: cs => integerIn? 8 cs
  | '0' :: 'b' :: cs => integerIn? 2 cs
  | _ => none

def isExponentMark (c : Char) : Bool := c == 'e' || c == 'E'

def isFloatMark (c : Char) : Bool := c == '.' || isExponentMark c

/-- A decimal integer with an optional sign. What follows its first underscore is not checked beyond
the marks of a fraction or an exponent, and the digits around underscores may be hexadecimal ones. -/
def decimalInteger? (cs : List Char) : Option Value := do
  let body := (signed cs).2
  let rest := body.dropWhile Char.isDigit
  if body.isEmpty || hasLeadingZero body || rest.any isFloatMark then none
  else if rest.isEmpty || rest.head? = some '_' then
    let (negative, digits) := signed (← ungroup? (Text.isDigitOf 16) cs)
    pure (integerOf 10 negative digits)
  else none

/-- From here on a number of double precision would round to infinity. -/
def floatLimit : Nat := Nat.pow 2 1024 - Nat.pow 2 970

/-- Whether `mantissa * 10 ^ exponent` is below the limit. The number of digits settles all but the
close cases. -/
def isFinite (mantissa : List Char) (exponent : Int) : Bool :=
  let digits := mantissa.dropWhile fun c => c == '0'
  let size := digits.length + exponent
  let n := Text.numberOf digits
  if digits.isEmpty || size < 309 then true
  else if 309 < size then false
  else if 0 ≤ exponent then n * Nat.pow 10 exponent.toNat < floatLimit
  else n < floatLimit * Nat.pow 10 exponent.natAbs

def digits? (cs : List Char) : Option Nat :=
  if !cs.isEmpty && cs.all Char.isDigit then some (Text.numberOf cs) else none

def exponent? (cs : List Char) : Option Int := do
  let (negative, cs) := signed cs
  let n : Int := ← digits? cs
  pure (if negative then -n else n)

def floatParts? (cs : List Char) : Option (List Char × List Char × Int) := do
  let mantissa := cs.takeWhile fun c => !isExponentMark c
  let exponent ← match cs.dropWhile fun c => !isExponentMark c with
    | [] => some none
    | _ :: cs => (exponent? cs).map some
  match Text.cut? '.' mantissa with
  | some (whole, fraction) =>
    let _ ← digits? whole
    let _ ← digits? fraction
    pure (whole, fraction, exponent.getD 0)
  | none =>
    let _ ← digits? mantissa
    pure (mantissa, [], ← exponent)

/-- A number with a fraction, an exponent or both, or one of the two that are no numbers. -/
def float? (cs : List Char) : Option Value := do
  let body := (signed cs).2
  if body = "inf".toList || body = "nan".toList then pure .float
  else
    let (whole, fraction, exponent) ← floatParts? (signed (← ungroup? Char.isDigit cs)).2
    if body.head? = some '0' && whole.length ≠ 1 then none
    else if isFinite (whole ++ fraction) (exponent - fraction.length) then pure .float
    else pure .unreadable

def fixedNumber? (width : Nat) (cs : List Char) : Option (Nat × List Char) :=
  let digits := cs.take width
  if digits.length = width && digits.all Char.isDigit then some (Text.numberOf digits, cs.drop width)
  else none

def date? (cs : List Char) : Option (List Char × List Char) := do
  let (year, cs) ← fixedNumber? 4 cs
  let (month, cs) ← fixedNumber? 2 (← Text.skip? ['-'] cs)
  let (day, cs) ← fixedNumber? 2 (← Text.skip? ['-'] cs)
  if Day.isValid ⟨year, month, day⟩ then
    pure (Text.zeroPadded 4 year ++ '-' :: Text.zeroPadded 2 month ++ '-' :: Text.zeroPadded 2 day, cs)
  else none

/-- The digits of a fraction of a second that are kept: nine, less the zeros at their end. -/
def fractionText (digits : List Char) : List Char :=
  match ((digits.take 9).reverse.dropWhile fun c => c == '0').reverse with
  | [] => []
  | kept => '.' :: kept

/-- The seconds with an optional fraction; without them the minute has just begun. -/
def seconds? (cs : List Char) : Option (List Char × List Char) :=
  match cs with
  | ':' :: cs => do
    let (second, cs) ← fixedNumber? 2 cs
    if 60 < second then none
    else
      match cs with
      | '.' :: cs =>
        let digits := cs.takeWhile Char.isDigit
        if digits.isEmpty then none
        else pure (Text.zeroPadded 2 second ++ fractionText digits, cs.dropWhile Char.isDigit)
      | cs => pure (Text.zeroPadded 2 second, cs)
  | cs => some (Text.zeroPadded 2 0, cs)

def time? (cs : List Char) : Option (List Char × List Char) := do
  let (hour, cs) ← fixedNumber? 2 cs
  let (minute, cs) ← fixedNumber? 2 (← Text.skip? [':'] cs)
  let (seconds, cs) ← seconds? cs
  if 23 < hour || 59 < minute then none
  else pure (Text.zeroPadded 2 hour ++ ':' :: Text.zeroPadded 2 minute ++ ':' :: seconds, cs)

def offset? (cs : List Char) : Option (List Char) :=
  match cs with
  | [] => some []
  | ['Z'] => some ['Z']
  | ['z'] => some ['Z']
  | sign :: cs => do
    let (hour, cs) ← fixedNumber? 2 cs
    let (minute, cs) ← fixedNumber? 2 (← Text.skip? [':'] cs)
    if (sign == '+' || sign == '-') && hour ≤ 23 && minute ≤ 59 && cs.isEmpty then
      let sign := if hour = 0 && minute = 0 then '+' else sign
      pure (sign :: Text.zeroPadded 2 hour ++ ':' :: Text.zeroPadded 2 minute)
    else none

def dateTime? (cs : List Char) : Option Value :=
  match date? cs with
  | some (date, []) => some (.dateTime (String.ofList date))
  | some (date, mark :: rest) =>
    if mark == 'T' || mark == 't' || mark == ' ' then do
      let (time, rest) ← time? rest
      let offset ← offset? rest
      pure (.dateTime (String.ofList (date ++ 'T' :: time ++ offset)))
    else none
  | none =>
    match time? cs with
    | some (time, []) => some (.dateTime (String.ofList time))
    | _ => none

def boolean? (cs : List Char) : Option Value :=
  if cs = "true".toList then some (.boolean true)
  else if cs = "false".toList then some (.boolean false)
  else none

def scalar? (cs : List Char) : Option Value :=
  boolean? cs <|> dateTime? cs <|> basedInteger? cs <|> float? cs <|> decimalInteger? cs

def endsScalar (c : Char) : Bool := " \t\r\n#,=[]\x7b\x7d".toList.contains c

def isScalarChar (c : Char) : Bool := !endsScalar c

/-- The run at the head of the text. A blank between date and time belongs to it. -/
def scalarRun (cs : List Char) : List Char × List Char :=
  let run := cs.takeWhile isScalarChar
  match cs.dropWhile isScalarChar with
  | ' ' :: c :: rest =>
    if c.isDigit && (match date? run with | some (_, []) => true | _ => false) then
      (run ++ ' ' :: (c :: rest).takeWhile isScalarChar, (c :: rest).dropWhile isScalarChar)
    else (run, ' ' :: c :: rest)
  | rest => (run, rest)

end ErrorMigration.Toml
