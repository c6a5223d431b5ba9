import ErrorMigration.Text.Digits

/-! TOML strings: between double quotes with escapes, or between single quotes as they stand, each on
one line or on several. -/
namespace ErrorMigration.Toml

def isSpace (c : Char) : Bool := c == ' ' || c == '\t'

/-- A character that may stand in strings and comments; of the controls only the tab may. -/
def isPlain (c : Char) : Bool := c == '\t' || (0x20 ≤ c.toNat && c.toNat ≠ 0x7F)

def escapeChar? (c : Char) : Option Char :=
  if c == '"' || c == '\\' then some c
  else if c == 'b' then some '\x08'
  else if c == 'e' then some '\x1b'
  else if c == 't' then some '\t'
  else if c == 'n' then some '\n'
  else if c == 'f' then some '\x0c'
  else if c == 'r' then some '\r'
  else none

def codePoint? (digits : List Char) : Option Char := do
  let n ← Text.numberIn? 16 digits
  if n.isValidChar then pure (Char.ofNat n) else none

def push (c : Char) (read : Option (List Char × List Char)) : Option (List Char × List Char) :=
  read.map fun p => (c :: p.1, p.2)

def basic? : List Char → Option (List Char × List Char)
  | [] => none
  | '"' :: rest => some ([], rest)
  | '\\' :: 'x' :: a :: b :: rest => (codePoint? [a, b]).bind fun x => push x (basic? rest)
  | '\\' :: 'u' :: a :: b :: c :: d :: rest => (codePoint? [a, b, c, d]).bind fun x => push x (basic? rest)
  | '\\' :: 'U' :: a :: b :: c :: d :: e :: f :: g :: h :: rest =>
    (codePoint? [a, b, c, d, e, f, g, h]).bind fun x => push x (basic? rest)
  | '\\' :: c :: rest => (escapeChar? c).bind fun x => push x (basic? rest)
  | c :: rest => if isPlain c && c ≠ '\\' then push c (basic? rest) else none

def literal? : List Char → Option (List Char × List Char)
  | [] => none
  | '\x27' :: rest => some ([], rest)
  | c :: rest => if isPlain c then push c (literal? rest) else none

/-- The quotes in front of the three that close a string, which are read after them: two at most. -/
def closing (quote : Char) (rest : List Char) : List Char × List Char :=
  let extra := (rest.take 2).takeWhile fun c => c == quote
  (extra, rest.drop extra.length)

def endsLine (cs : List Char) : Bool :=
  match cs.dropWhile isSpace with
  | '\n' :: _ => true
  | '\r' :: '\n' :: _ => true
  | _ => false

/-- The text of a string on several lines with escapes. A backslash at the end of a line takes away
the line end and all blanks and line ends behind it; `joining` says that this is going on. -/
def multiBasic? : Bool → List Char → Option (List Char × List Char)
  | _, [] => none
  | _, '"' :: '"' :: '"' :: rest => some (closing '"' rest)
  | _, '\\' :: 'x' :: a :: b :: rest =>
    (codePoint? [a, b]).bind fun x => push x (multiBasic? false rest)
  | _, '\\' :: 'u' :: a :: b :: c :: d :: rest =>
    (codePoint? [a, b, c, d]).bind fun x => push x (multiBasic? false rest)
  | _, '\\' :: 'U' :: a :: b :: c :: d :: e :: f :: g :: h :: rest =>
    (codePoint? [a, b, c, d, e, f, g, h]).bind fun x => push x (multiBasic? false rest)
  | _, '\\' :: c :: rest =>
    if endsLine (c :: rest) then multiBasic? true rest
    else (escapeChar? c).bind fun x => push x (multiBasic? false rest)
  | joining, c :: rest =>
    if joining && (isSpace c || c == '\n') then multiBasic? true rest
    else if c == '\r' && rest.head? = some '\n' then
      if joining then multiBasic? true rest else push c (multiBasic? false rest)
    else if c == '\n' || isPlain c && c ≠ '\\' then push c (multiBasic? false rest)
    else none

def multiLiteral? : List Char → Option (List Char × List Char)
  | [] => none
  | '\x27' :: '\x27' :: '\x27' :: rest => some (closing '\x27' rest)
  | c :: rest =>
    if c == '\n' || isPlain c || (c == '\r' && rest.head? = some '\n') then push c (multiLiteral? rest)
    else none

/-- A line end right behind the opening quotes does not count. -/
def dropLineEnd : List Char → List Char
  | '\n' :: cs => cs
  | '\r' :: '\n' :: cs => cs
  | cs => cs

def string? (cs : List Char) : Option (String × List Char) :=
  let read := match cs with
    | '"' :: '"' :: '"' :: cs => multiBasic? false (dropLineEnd cs)
    | '"' :: cs => basic? cs
    | '\x27' :: '\x27' :: '\x27' :: cs => multiLiteral? (dropLineEnd cs)
    | '\x27' :: cs => literal? cs
    | _ => none
  read.map fun p => (String.ofList p.1, p.2)

end ErrorMigration.Toml
