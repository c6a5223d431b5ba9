import ErrorMigration.Json.Value
import ErrorMigration.Text.Bytes

/-! Two written forms of a JSON value: compact without any blank, and pretty with one item to a
line and two blanks for each level. -/
namespace ErrorMigration.Json

/-- Quotes, backslashes and controls are escaped; everything else stands as it is. -/
def escaped (c : Char) : List Char :=
  if c == '"' then ['\\', '"']
  else if c == '\\' then ['\\', '\\']
  else if c == '\x08' then ['\\', 'b']
  else if c == '\x0c' then ['\\', 'f']
  else if c == '\n' then ['\\', 'n']
  else if c == '\r' then ['\\', 'r']
  else if c == '\t' then ['\\', 't']
  else if c.toNat < 0x20 then
    ['\\', 'u', '0', '0', Text.hexDigit (c.toNat / 16), Text.hexDigit c.toNat]
  else [c]

def stringText (s : String) : List Char := '"' :: s.toList.flatMap escaped ++ ['"']

def naturalText (n : Nat) : List Char := Nat.toDigits 10 n

def scalarText : Json → List Char
  | .null => "null".toList
  | .boolean b => (if b then "true" else "false").toList
  | .natural n => naturalText n
  | .numeral lexeme => lexeme
  | .string s => stringText s
  | .broken => "\"\\ud800\"".toList
  | _ => []

mutual

def compact : Json → List Char
  | .array items => '[' :: compactItems items ++ [']']
  | .object fields => '\x7b' :: compactFields fields ++ ['\x7d']
  | scalar => scalarText scalar

def compactItems : List Json → List Char
  | [] => []
  | [item] => compact item
  | item :: rest => compact item ++ ',' :: compactItems rest

def compactFields : List (String × Json) → List Char
  | [] => []
  | [(name, value)] => stringText name ++ ':' :: compact value
  | (name, value) :: rest => stringText name ++ ':' :: compact value ++ ',' :: compactFields rest

end

def newline (level : Nat) : List Char := '\n' :: List.replicate (2 * level) ' '

mutual

def prettyAt (level : Nat) : Json → List Char
  | .array [] => ['[', ']']
  | .array (item :: rest) => '[' :: prettyItems (level + 1) (item :: rest) ++ newline level ++ [']']
  | .object [] => ['\x7b', '\x7d']
  | .object (field :: rest) =>
    '\x7b' :: prettyFields (level + 1) (field :: rest) ++ newline level ++ ['\x7d']
  | scalar => scalarText scalar

def prettyItems (level : Nat) : List Json → List Char
  | [] => []
  | [item] => newline level ++ prettyAt level item
  | item :: rest => newline level ++ prettyAt level item ++ ',' :: prettyItems level rest

def prettyFields (level : Nat) : List (String × Json) → List Char
  | [] => []
  | [(name, value)] => newline level ++ stringText name ++ ':' :: ' ' :: prettyAt level value
  | (name, value) :: rest =>
    newline level ++ stringText name ++ ':' :: ' ' :: prettyAt level value ++
      ',' :: prettyFields level rest

end

def pretty (j : Json) : List Char := prettyAt 0 j

end ErrorMigration.Json
