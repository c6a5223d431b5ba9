import ErrorMigration.Proofs.Text.Encoding
import ErrorMigration.Text.Digits

/-! Numbers and their digits. Decimal digits, with zeros in front or without, stand for the number that they were
written for, and a run of digits is read as far as it goes. Runs of one length are in the order of their numbers when
they are compared byte by byte. -/
namespace ErrorMigration.Text

theorem numberOf_eq (digits : List Char) : numberOf digits = Nat.ofDigitChars 10 digits 0 :=
  Nat.ofDigitChars_eq_foldl.symm

theorem numberOf_toDigits (n : Nat) : numberOf (Nat.toDigits 10 n) = n := by
  rw [numberOf_eq,Nat.ofDigitChars_ten_toDigits]

@[simp] theorem numberOf_zeroPadded (width n : Nat) : numberOf (zeroPadded width n) = n := by
  rw [zeroPadded,numberOf_eq,Nat.ofDigitChars_append,Nat.ofDigitChars_replicate_zero,Nat.mul_zero,
    Nat.ofDigitChars_ten_toDigits]

theorem isDigit_of_mem_toDigits {n : Nat} {c : Char} (member : c ∈ Nat.toDigits 10 n) : c.isDigit = true :=
  Nat.isDigit_of_mem_toDigits (by decide) (by decide) member

theorem isDigit_of_mem_zeroPadded {width n : Nat} {c : Char} (member : c ∈ zeroPadded width n) : c.isDigit = true := by
  rcases List.mem_append.mp member with filled | digit
  · rw [List.eq_of_mem_replicate filled]
    rfl
  · exact isDigit_of_mem_toDigits digit

theorem length_zeroPadded {width n : Nat} (filled : 0 < width) (small : n < 10 ^ width) :
    (zeroPadded width n).length = width := by
  have short := (Nat.length_toDigits_le_iff (by decide) filled).mpr small
  simp only [zeroPadded,List.length_append,List.length_replicate]
  omega

theorem zeroPadded_ne_nil (width n : Nat) : zeroPadded width n ≠ [] := by
  simp [zeroPadded,Nat.toDigits_ne_nil]

/-- Only the number zero has a zero in front of its digits. -/
theorem head?_toDigits_ne_zero {n : Nat} (positive : 0 < n) : (Nat.toDigits 10 n).head? ≠ some '0' := by
  induction n using Nat.strongRecOn with
  | ind n ih =>
    rw [Nat.toDigits_eq_if (by decide)]
    split
    · rename_i small
      interval_cases n <;> decide
    · rename_i large
      rw [List.head?_append_of_ne_nil _ Nat.toDigits_ne_nil]
      exact ih (n / 10) (by omega) (by omega)

theorem numberOf_append (xs ys : List Char) : numberOf (xs ++ ys) = 10 ^ ys.length * numberOf xs + numberOf ys := by
  rw [numberOf_eq,numberOf_eq,numberOf_eq,Nat.ofDigitChars_append,Nat.ofDigitChars_eq_ofDigitChars_zero]

theorem numberOf_cons (c : Char) (cs : List Char) :
    numberOf (c :: cs) = 10 ^ cs.length * (c.toNat - '0'.toNat) + numberOf cs := by
  rw [← List.singleton_append,numberOf_append]
  simp [numberOf]

theorem toNat_of_isDigit {c : Char} (digit : c.isDigit = true) : 48 ≤ c.toNat ∧ c.toNat ≤ 57 :=
  Char.isDigit_iff_toNat.mp digit

/-- A run of digits stands for less than a power of ten. -/
theorem numberOf_lt {digits : List Char} (all : ∀ c ∈ digits, c.isDigit = true) :
    numberOf digits < 10 ^ digits.length := by
  induction digits using List.reverseRecOn with
  | nil => decide
  | append_singleton digits c ih =>
    have less := ih fun d member => all d (List.mem_append_left _ member)
    have digit := toNat_of_isDigit (all c (by simp))
    have zero : '0'.toNat = 48 := rfl
    simp only [numberOf,List.foldl_append,List.foldl_cons,List.foldl_nil,List.length_append,List.length_singleton,
      pow_succ,zero] at less ⊢
    omega

structure IsNumeral (digits : List Char) (width n : Nat) : Prop where
  all : ∀ c ∈ digits, c.isDigit = true
  length : digits.length = width
  value : numberOf digits = n

namespace IsNumeral

variable {xs ys : List Char} {width width' m n : Nat}

theorem zeroPadded (filled : 0 < width) (small : n < 10 ^ width) : IsNumeral (zeroPadded width n) width n where
  all _ := isDigit_of_mem_zeroPadded
  length := length_zeroPadded filled small
  value := numberOf_zeroPadded width n

theorem append (left : IsNumeral xs width m) (right : IsNumeral ys width' n) :
    IsNumeral (xs ++ ys) (width + width') (10 ^ width' * m + n) where
  all := List.forall_mem_append.mpr ⟨left.all,right.all⟩
  length := by rw [List.length_append,left.length,right.length]
  value := by rw [numberOf_append,left.value,right.value,right.length]

/-- Of two numerals of one length the one for the smaller number is the smaller one, byte by byte. -/
theorem map_toUInt8_lt (left : IsNumeral xs width m) (right : IsNumeral ys width n) (less : m < n) :
    xs.map Char.toUInt8 < ys.map Char.toUInt8 := by
  obtain ⟨all,length,rfl⟩ := left
  obtain ⟨all',rfl,rfl⟩ := right
  induction xs generalizing ys with
  | nil =>
    rw [List.eq_nil_of_length_eq_zero length.symm] at less
    exact absurd less (lt_irrefl _)
  | cons c cs ih =>
    obtain ⟨d,ds,rfl⟩ := List.exists_cons_of_length_eq_add_one length.symm
    rw [List.forall_mem_cons] at all all'
    rw [List.length_cons,List.length_cons,Nat.add_right_cancel_iff] at length
    have zero : '0'.toNat = 48 := rfl
    have digit := toNat_of_isDigit all.1
    have digit' := toNat_of_isDigit all'.1
    have rest := numberOf_lt all'.2
    rw [numberOf_cons,numberOf_cons,length,zero] at less
    rw [List.map_cons,List.map_cons,List.cons_lt_cons_iff]
    -- a step of the first digit outweighs all digits behind it
    rcases lt_trichotomy c.toNat d.toNat with smaller | same | larger
    · left
      rw [UInt8.lt_iff_toNat_lt,toUInt8_toNat (by omega),toUInt8_toNat (by omega)]
      exact smaller
    · rw [same] at less
      right
      exact ⟨congrArg Char.toUInt8 (Char.toNat_inj.mp same),ih all.2 all'.2 length (by omega)⟩
    · have step : 10 ^ ds.length * (d.toNat - 48) + 10 ^ ds.length ≤ 10 ^ ds.length * (c.toNat - 48) := by
        rw [← Nat.mul_succ]
        exact Nat.mul_le_mul_left _ (by omega)
      omega

end IsNumeral

/-- Digits are taken up to the first character that is none. -/
theorem takeWhile_digits {digits rest : List Char} (all : ∀ c ∈ digits, c.isDigit = true)
    (stops : ∀ c ∈ rest.head?, c.isDigit = false) : (digits ++ rest).takeWhile Char.isDigit = digits := by
  rw [List.takeWhile_append_of_pos all]
  cases rest with
  | nil => simp
  | cons c rest => simp [stops c rfl]

theorem dropWhile_digits {digits rest : List Char} (all : ∀ c ∈ digits, c.isDigit = true)
    (stops : ∀ c ∈ rest.head?, c.isDigit = false) : (digits ++ rest).dropWhile Char.isDigit = rest := by
  rw [List.dropWhile_append_of_pos all]
  cases rest with
  | nil => simp
  | cons c rest => simp [stops c rfl]

end ErrorMigration.Text
