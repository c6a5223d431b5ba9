import ErrorMigration.Text.Graphic

/-! The quoted form in which messages show a text: between double quotes, with every character
that would not show escaped. -/
namespace ErrorMigration.Text

/-- A backslash escape for the usual controls and the two marks that need one; the code point in
braces for any other character that does not show. -/
def quotedChar (c : Char) : List Char :=
  if c == '\x00' then ['\\', '0']
  else if c == '\t' then ['\\', 't']
  else if c == '\r' then ['\\', 'r']
  else if c == '\n' then ['\\', 'n']
  else if c == '"' then ['\\', '"']
  else if c == '\\' then ['\\', '\\']
  else if isGraphic c then [c]
  else ['\\', 'u', '\x7b'] ++ Nat.toDigits 16 c.toNat ++ ['\x7d']

def quoted (s : String) : String :=
  String.ofList ('"' :: s.toList.flatMap quotedChar ++ ['"'])

end ErrorMigration.Text
