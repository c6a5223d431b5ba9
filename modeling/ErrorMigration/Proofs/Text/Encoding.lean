import ErrorMigration.Proofs.Text.Search
import ErrorMigration.Text.Bytes

/-! UTF-8 as the file system sees it. A text and its bytes determine each other, one text begins with another
exactly when its bytes do, and an ASCII character is found in a text exactly when its byte is found in the
bytes. -/
namespace ErrorMigration.Text

theorem bytes_eq_flatMap (s : String) : bytes s = s.toList.flatMap String.utf8EncodeChar := by
  have encoded : s.toByteArray = s.toList.utf8Encode := by
    rw [← String.toByteArray_ofList,String.ofList_toList]
  simp [bytes,encoded,List.utf8Encode]

@[simp] theorem bytes_append (s t : String) : bytes (s ++ t) = bytes s ++ bytes t := by
  simp [bytes_eq_flatMap]

@[simp] theorem bytes_empty : bytes "" = [] := by simp [bytes_eq_flatMap]

theorem bytes_injective : Function.Injective bytes := by
  intro s t same
  rw [← String.toByteArray_inj]
  apply ByteArray.ext
  exact Array.toList_inj.mp same

theorem bytes_inj {s t : String} : bytes s = bytes t ↔ s = t := bytes_injective.eq_iff

theorem length_bytes (s : String) : (bytes s).length = s.utf8ByteSize := rfl

theorem bytes_eq_nil {s : String} : bytes s = [] ↔ s = "" := by rw [← bytes_empty,bytes_inj]

theorem ofBytes?_eq_some_iff {bs : List UInt8} {s : String} : ofBytes? bs = some s ↔ bytes s = bs := by
  simp only [ofBytes?,String.fromUTF8?]
  split
  · rename_i valid
    rw [Option.some.injEq,← String.toByteArray_inj]
    constructor
    · intro same
      simp [bytes,← same,String.fromUTF8]
    · rintro rfl
      simp [String.fromUTF8,bytes]
  · rename_i invalid
    simp only [reduceCtorEq,false_iff]
    rintro rfl
    exact invalid (by simpa [bytes] using s.isValidUTF8)

@[simp] theorem ofBytes?_bytes (s : String) : ofBytes? (bytes s) = some s := ofBytes?_eq_some_iff.mpr rfl

/-- All bytes of a character beyond ASCII have their high bit set. -/
theorem high_of_mem_encode {c : Char} {b : UInt8} (long : 128 ≤ c.toNat)
    (member : b ∈ String.utf8EncodeChar c) : 128 ≤ b.toNat := by
  have value : c.val.toNat = c.toNat := rfl
  simp only [String.utf8EncodeChar,value] at member
  split at member
  · omega
  · split at member
    · simp only [List.mem_cons,List.not_mem_nil,or_false] at member
      rcases member with rfl | rfl <;> rw [UInt8.toNat_ofNat'] <;> omega
    · split at member
      all_goals
        simp only [List.mem_cons,List.not_mem_nil,or_false] at member
        rcases member with rfl | rfl | rfl | rfl <;> rw [UInt8.toNat_ofNat'] <;> omega

theorem toUInt8_toNat {c : Char} (ascii : c.toNat < 128) : c.toUInt8.toNat = c.toNat := by
  have value : c.val.toNat = c.toNat := rfl
  simp only [Char.toUInt8,UInt32.toNat_toUInt8,value]
  omega

theorem encode_ascii {c : Char} (ascii : c.toNat < 128) : String.utf8EncodeChar c = [c.toUInt8] := by
  have value : c.val.toNat = c.toNat := rfl
  have short : c.toNat ≤ 127 := by omega
  simp only [String.utf8EncodeChar,value,short,if_true,List.cons.injEq,and_true]
  rw [← UInt8.toNat_inj]
  rw [UInt8.toNat_ofNat',toUInt8_toNat ascii]
  omega

/-- In UTF-8 the byte of an ASCII character stands for that character only. -/
theorem ascii_mem_encode {a c : Char} (ascii : a.toNat < 128) :
    a.toUInt8 ∈ String.utf8EncodeChar c ↔ c = a := by
  have first := toUInt8_toNat ascii
  by_cases short : c.toNat < 128
  · rw [encode_ascii short,List.mem_singleton,← UInt8.toNat_inj,← Char.toNat_inj,first,toUInt8_toNat short]
    exact eq_comm
  · constructor
    · intro member
      have := high_of_mem_encode (by omega) member
      omega
    · rintro rfl; contradiction

theorem ascii_mem_bytes {a : Char} (ascii : a.toNat < 128) (s : String) :
    a.toUInt8 ∈ bytes s ↔ a ∈ s.toList := by
  simp [bytes_eq_flatMap,ascii_mem_encode ascii]

theorem bytes_of_ascii {s : String} (ascii : ∀ c ∈ s.toList, c.toNat < 128) :
    bytes s = s.toList.map Char.toUInt8 := by
  rw [bytes_eq_flatMap]
  generalize s.toList = cs at ascii
  induction cs with
  | nil => rfl
  | cons c cs ih =>
    rw [List.forall_mem_cons] at ascii
    rw [List.flatMap_cons,encode_ascii ascii.1,ih ascii.2]
    rfl

theorem encode_prefix_iff {xs ys : List Char} :
    xs.flatMap String.utf8EncodeChar <+: ys.flatMap String.utf8EncodeChar ↔ xs <+: ys := by
  constructor
  · rintro ⟨rest,equal⟩
    apply List.isPrefix_of_utf8Encode_append_eq_utf8Encode rest.toByteArray
    simp only [List.utf8Encode,← equal]
    apply ByteArray.ext
    simp
  · rintro ⟨rest,rfl⟩
    exact ⟨rest.flatMap String.utf8EncodeChar,by simp⟩

theorem length_bytes_ofList (cs : List Char) : (bytes (String.ofList cs)).length = byteLength cs := by
  rw [bytes_eq_flatMap,String.toList_ofList]
  induction cs with
  | nil => rfl
  | cons c cs ih => rw [List.flatMap_cons,List.length_append,ih,String.length_utf8EncodeChar,byteLength]

theorem byteLength_append (xs ys : List Char) : byteLength (xs ++ ys) = byteLength xs + byteLength ys := by
  induction xs with
  | nil => simp [byteLength]
  | cons x xs ih => simp [byteLength,ih,Nat.add_assoc]

theorem byteLength_pos {xs : List Char} (filled : xs ≠ []) : 0 < byteLength xs := by
  cases xs with
  | nil => contradiction
  | cons x xs =>
    have size := x.utf8Size_pos
    simp only [byteLength]
    omega

/-- A byte offset stands at the end of one prefix at most. -/
theorem eq_of_prefix_of_byteLength_eq {xs ys cs : List Char} (left : xs <+: cs) (right : ys <+: cs)
    (same : byteLength xs = byteLength ys) : xs = ys := by
  have tail_nil {zs ts : List Char} (bytes : byteLength zs = byteLength (zs ++ ts)) : ts = [] := by
    by_contra filled
    have positive := byteLength_pos filled
    rw [byteLength_append] at bytes
    omega
  rcases List.prefix_or_prefix_of_prefix left right with ⟨ts,rfl⟩ | ⟨ts,rfl⟩
  · rw [tail_nil same,List.append_nil]
  · rw [tail_nil same.symm,List.append_nil]

end ErrorMigration.Text
