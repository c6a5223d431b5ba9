import ErrorMigration.Proofs.Text.Encoding

/-! Where a word stands in a text. The places are told by byte offsets, and they add up when texts are put together:
a word that a character between two texts is not part of stands on one side of it. The same places are found in
the bytes of the text, for the first byte of an encoded character is never the byte of another character's tail. -/
namespace ErrorMigration.Text

def OccursAt (word cs : List Char) (offset : Nat) : Prop :=
  ∃ before after, cs = before ++ (word ++ after) ∧ byteLength before = offset

variable {word cs xs ys : List Char} {offset : Nat} {c mark : Char}

theorem exists_occursAt_iff : (∃ offset, OccursAt word cs offset) ↔ word <:+: cs := by
  constructor
  · rintro ⟨_,before,after,rfl,_⟩
    exact ⟨before,after,by rw [List.append_assoc]⟩
  · rintro ⟨before,after,rfl⟩
    exact ⟨_,before,after,by rw [List.append_assoc],rfl⟩

theorem OccursAt.add_le (occurs : OccursAt word cs offset) : offset + byteLength word ≤ byteLength cs := by
  obtain ⟨before,after,rfl,rfl⟩ := occurs
  rw [byteLength_append,byteLength_append]
  omega

theorem occursAt_nil_iff (filled : word ≠ []) : OccursAt word [] offset ↔ False := by
  rw [iff_false]
  rintro ⟨before,after,split,_⟩
  have empty := (List.append_eq_nil_iff.mp split.symm).2
  exact filled (List.append_eq_nil_iff.mp empty).1

theorem occursAt_self_iff : OccursAt word word offset ↔ offset = 0 := by
  constructor
  · intro occurs
    have bound := occurs.add_le
    omega
  · rintro rfl
    exact ⟨[],[],by simp,rfl⟩

theorem occursAt_cons_iff :
    OccursAt word (c :: cs) offset ↔
      offset = 0 ∧ word <+: c :: cs ∨ ∃ inner, offset = c.utf8Size + inner ∧ OccursAt word cs inner := by
  constructor
  · rintro ⟨before,after,split,rfl⟩
    cases before with
    | nil => exact .inl ⟨rfl,after,split.symm⟩
    | cons d before =>
      obtain ⟨rfl,rest⟩ := List.cons.inj split
      exact .inr ⟨_,rfl,before,after,rest,rfl⟩
  · rintro (⟨rfl,after,split⟩ | ⟨_,rfl,before,after,rfl,rfl⟩)
    · exact ⟨[],after,split.symm,rfl⟩
    · exact ⟨c :: before,after,rfl,rfl⟩

/-- A word does not begin among characters that its first one is not one of. -/
theorem occursAt_append_of_first_notMem (first : word.head? = some c) (absent : c ∉ xs) :
    OccursAt word (xs ++ ys) offset ↔ ∃ inner, offset = byteLength xs + inner ∧ OccursAt word ys inner := by
  induction xs generalizing offset with
  | nil => simp [byteLength]
  | cons x xs ih =>
    simp only [List.mem_cons,not_or] at absent
    have elsewhere : ¬ word <+: x :: (xs ++ ys) := by
      intro here
      obtain ⟨tail,rfl⟩ := List.head?_eq_some_iff.mp first
      exact absent.1 (List.cons_prefix_cons.mp here).1
    rw [List.cons_append,occursAt_cons_iff]
    constructor
    · rintro (⟨_,here⟩ | ⟨inner,rfl,later⟩)
      · exact absurd here elsewhere
      · obtain ⟨deeper,rfl,occurs⟩ := (ih absent.2).mp later
        exact ⟨deeper,by simp only [byteLength]; omega,occurs⟩
    · rintro ⟨inner,rfl,occurs⟩
      exact .inr ⟨byteLength xs + inner,by simp only [byteLength]; omega,(ih absent.2).mpr ⟨inner,rfl,occurs⟩⟩

/-- A word without the mark stands on one side of it. -/
theorem occursAt_append_mark (filled : word ≠ []) (absent : mark ∉ word) :
    OccursAt word (xs ++ mark :: ys) offset ↔
      OccursAt word xs offset ∨ ∃ inner, offset = byteLength xs + mark.utf8Size + inner ∧ OccursAt word ys inner := by
  induction xs generalizing offset with
  | nil =>
    have elsewhere : ¬ word <+: mark :: ys := by
      intro here
      exact filled (List.prefix_nil.mp ((prefix_append_mark [] ys absent).mp here))
    rw [List.nil_append,occursAt_cons_iff,occursAt_nil_iff filled]
    simp [elsewhere,byteLength]
  | cons x xs ih =>
    have same : word <+: x :: (xs ++ mark :: ys) ↔ word <+: x :: xs := prefix_append_mark (x :: xs) ys absent
    rw [List.cons_append,occursAt_cons_iff,occursAt_cons_iff,same,or_assoc]
    refine or_congr_right ?_
    constructor
    · rintro ⟨inner,rfl,occurs⟩
      rcases ih.mp occurs with left | ⟨deeper,rfl,right⟩
      · exact .inl ⟨inner,rfl,left⟩
      · exact .inr ⟨deeper,by simp only [byteLength]; omega,right⟩
    · rintro (⟨inner,rfl,left⟩ | ⟨deeper,rfl,right⟩)
      · exact ⟨inner,rfl,ih.mpr (.inl left)⟩
      · exact ⟨byteLength xs + mark.utf8Size + deeper,by simp only [byteLength]; omega,ih.mpr (.inr ⟨deeper,rfl,right⟩)⟩

/-- No text begins inside of a character: the byte there is the first one of no character. -/
theorem not_encode_prefix_inside (filled : word ≠ []) (start : offset ≠ 0) (inside : offset < c.utf8Size)
    (rest : List UInt8) :
    ¬ word.flatMap String.utf8EncodeChar <+: (String.utf8EncodeChar c ++ rest).drop offset := by
  obtain ⟨w,word,rfl⟩ := List.exists_cons_of_ne_nil filled
  obtain ⟨b,tail,shape⟩ := List.exists_cons_of_ne_nil (String.utf8EncodeChar_ne_nil (c := w))
  have first : b.IsUTF8FirstByte := by
    have := UInt8.isUTF8FirstByte_getElem_zero_utf8EncodeChar (c := w)
    simpa [shape] using this
  rw [← String.length_utf8EncodeChar] at inside
  rw [List.drop_append_of_le_length inside.le,List.drop_eq_getElem_cons inside,List.flatMap_cons,shape,List.cons_append,
    List.cons_append,List.cons_prefix_cons]
  rintro ⟨rfl,_⟩
  exact start (UInt8.isUTF8FirstByte_getElem_utf8EncodeChar.mp first)

/-- The bytes of a word stand in the bytes of a text exactly where the word stands in the text. -/
theorem encode_prefix_drop_iff (filled : word ≠ []) :
    word.flatMap String.utf8EncodeChar <+: (cs.flatMap String.utf8EncodeChar).drop offset ↔
      OccursAt word cs offset := by
  induction cs generalizing offset with
  | nil => simpa [occursAt_nil_iff filled] using List.exists_mem_of_ne_nil word filled
  | cons c cs ih =>
    have positive := c.utf8Size_pos
    rw [occursAt_cons_iff]
    by_cases inside : offset < c.utf8Size
    · have notLater : ¬ ∃ inner, offset = c.utf8Size + inner ∧ OccursAt word cs inner := by
        rintro ⟨inner,further,_⟩
        omega
      by_cases start : offset = 0
      · simp only [start,List.drop_zero,encode_prefix_iff,true_and,or_iff_left (start ▸ notLater)]
      · simp only [start,notLater,false_and,or_false,iff_false,List.flatMap_cons]
        exact not_encode_prefix_inside filled start inside _
    · obtain ⟨inner,rfl⟩ := Nat.exists_eq_add_of_le (Nat.le_of_not_lt inside)
      have behind : (String.utf8EncodeChar c ++ cs.flatMap String.utf8EncodeChar).drop (c.utf8Size + inner) =
          (cs.flatMap String.utf8EncodeChar).drop inner := by
        rw [← String.length_utf8EncodeChar c,List.drop_length_add_append]
      have notStart : c.utf8Size + inner ≠ 0 := by omega
      rw [List.flatMap_cons,behind,ih]
      simp only [notStart,false_and,false_or,Nat.add_left_cancel_iff,exists_eq_left']

/-- Searching the bytes of a text for the bytes of a word is searching the text for the word. -/
theorem occursIn_bytes (word text : String) :
    occursIn (bytes word) (bytes text) = occursIn word.toList text.toList := by
  rw [Bool.eq_iff_iff,occursIn_iff_isInfix,occursIn_iff_isInfix,bytes_eq_flatMap,bytes_eq_flatMap]
  by_cases filled : word.toList = []
  · simp [filled]
  · rw [infix_iff_exists_prefix_drop,← exists_occursAt_iff]
    exact exists_congr fun _ => encode_prefix_drop_iff filled

/-- The places of a word around a text between a front, in which it does not begin, and a mark. -/
theorem occursAt_framed_iff {front text rest : List Char} (first : word.head? = some c) (quiet : c ∉ front)
    (absent : mark ∉ word) :
    OccursAt word (front ++ (text ++ mark :: rest)) offset ↔
      (∃ inner, offset = byteLength front + inner ∧ OccursAt word text inner) ∨
      ∃ inner, offset = byteLength front + byteLength text + mark.utf8Size + inner ∧ OccursAt word rest inner := by
  have filled : word ≠ [] := by
    rintro rfl
    simp at first
  rw [occursAt_append_of_first_notMem first quiet]
  constructor
  · rintro ⟨inner,rfl,occurs⟩
    rcases (occursAt_append_mark filled absent).mp occurs with inside | ⟨deeper,rfl,later⟩
    · exact .inl ⟨inner,rfl,inside⟩
    · exact .inr ⟨deeper,by omega,later⟩
  · rintro (⟨inner,rfl,inside⟩ | ⟨inner,rfl,later⟩)
    · exact ⟨inner,rfl,(occursAt_append_mark filled absent).mpr (.inl inside)⟩
    · exact ⟨byteLength text + mark.utf8Size + inner,by omega,
        (occursAt_append_mark filled absent).mpr (.inr ⟨inner,rfl,later⟩)⟩

end ErrorMigration.Text
