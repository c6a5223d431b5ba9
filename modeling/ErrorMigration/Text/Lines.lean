/-! Lines of a text, each with the newline that ends it. The last line may have none, and the
empty text has no lines, so the lines always concatenate to the text. -/
namespace ErrorMigration.Text

def lines : List Char → List (List Char)
  | [] => []
  | c :: cs =>
    if c == '\n' then [c] :: lines cs
    else match lines cs with
      | [] => [[c]]
      | line :: rest => (c :: line) :: rest

end ErrorMigration.Text
