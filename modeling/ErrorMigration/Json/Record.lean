import ErrorMigration.Json.Value
import ErrorMigration.Text.Digits

/-! Records in JSON. A record is an object with known fields, in any order and among unknown ones,
or an array with the values of its fields in order. A known field may not stand twice. -/
namespace ErrorMigration.Json

abbrev Decoder (α : Type) := Json → Option α

abbrev Fields := String → Option Json

/-- The fields of a record with the given names, which are in the order of its array form. -/
def fieldsOf? (names : List String) : Json → Option Fields
  | .object fields =>
    if names.all fun name => (fields.filter fun field => field.1 = name).length ≤ 1 then
      some fun name => fields.lookup name
    else none
  | .array items =>
    if items.length ≤ names.length then some fun name => (names.zip items).lookup name else none
  | _ => none

namespace Fields

def required {α : Type} (fields : Fields) (name : String) (decode : Decoder α) : Option α :=
  (fields name).bind decode

def withDefault {α : Type} (fields : Fields) (name : String) (decode : Decoder α) (value : α) : Option α :=
  match fields name with
  | none => some value
  | some j => decode j

/-- A field that may be left out or be null. -/
def optional {α : Type} (fields : Fields) (name : String) (decode : Decoder α) : Option (Option α) :=
  match fields name with
  | none => some none
  | some .null => some none
  | some j => (decode j).map some

end Fields

def string? : Decoder String
  | .string s => some s
  | _ => none

def boolean? : Decoder Bool
  | .boolean b => some b
  | _ => none

def counter? : Decoder Nat
  | .natural n => if n < Text.wordLimit then some n else none
  | _ => none

def list? {α : Type} (decode : Decoder α) : Decoder (List α)
  | .array items => items.mapM decode
  | _ => none

def optionalField {α : Type} (name : String) (encode : α → Json) (value : Option α) : List (String × Json) :=
  match value with
  | none => []
  | some value => [(name, encode value)]

end ErrorMigration.Json
