/-! The UTF-8 bytes of a text. Keys of sorted tables and names in a path are ordered by them. -/
namespace ErrorMigration.Text

def bytes (s : String) : List UInt8 := s.toUTF8.data.toList

def ofBytes? (bs : List UInt8) : Option String := String.fromUTF8? ⟨bs.toArray⟩

/-- Strictly smaller as a byte string. -/
def precedes (a b : String) : Bool := decide (bytes a < bytes b)

def byteLength : List Char → Nat
  | [] => 0
  | c :: cs => c.utf8Size + byteLength cs

def hexDigit (n : Nat) : Char := Nat.digitChar (n % 16)

def hex (bs : List UInt8) : String :=
  String.ofList (bs.flatMap fun b => [hexDigit (b.toNat / 16), hexDigit b.toNat])

/-- The digits of `n` in base ten, filled with zeros on the left up to `width`. -/
def zeroPadded (width n : Nat) : List Char :=
  let digits := Nat.toDigits 10 n
  List.replicate (width - digits.length) '0' ++ digits

end ErrorMigration.Text
