/-! JSON values. Fields of an object keep their order, and a number keeps its value only when it is
written as a plain natural number, the one kind of number that reports hold. -/
namespace ErrorMigration

inductive Json where
  | null
  | boolean (b : Bool)
  | natural (n : Nat)
  /-- A number written in any other way. -/
  | numeral (lexeme : List Char)
  | string (s : String)
  /-- A string, or an object with a field name, that holds an escaped half of a surrogate pair: it is
  JSON, but no text. -/
  | broken
  | array (items : List Json)
  | object (fields : List (String × Json))
  deriving Repr

end ErrorMigration
