import ErrorMigration.Json.Record
import ErrorMigration.Proofs.Json.Text

/-! Records in JSON. A codec writes plain values only, reads back what it has written, and reads nothing that it could
not write; so the text of a value gives the value back, and writing what was read from any text is final. -/
namespace ErrorMigration.Json

/-- How values with a property are written and read: every such value is read back, and every value that is read, from
whatever JSON, has the property. -/
structure Codec {α : Type} (encode : α → Json) (decode : Decoder α) (Storable : α → Prop) : Prop where
  plain : ∀ x, isPlain (encode x) = true
  reads : ∀ x, Storable x → decode (encode x) = some x
  storable : ∀ j x, decode j = some x → Storable x

variable {α : Type} {encode : α → Json} {decode : Decoder α} {Storable : α → Prop}

namespace Codec

/-- Both written forms of a value are read as it. -/
theorem parse?_forms (codec : Codec encode decode Storable) {x : α} (stored : Storable x) :
    (parse? (String.ofList (encode x).compact)).bind decode = some x ∧
      (parse? (String.ofList (encode x).pretty)).bind decode = some x := by
  have plain := codec.plain x
  rw [parse?_layout (layout_compact plain),parse?_layout (layout_pretty plain),Option.bind_some,codec.reads x stored]
  exact ⟨rfl,rfl⟩

theorem storable_of_parse? (codec : Codec encode decode Storable) {text : String} {x : α}
    (read : (parse? text).bind decode = some x) : Storable x := by
  obtain ⟨j,_,decoded⟩ := Option.bind_eq_some_iff.mp read
  exact codec.storable j x decoded

end Codec

section Plain

theorem arePlain_eq (items : List Json) : arePlain items = items.all isPlain := by
  induction items with
  | nil => rfl
  | cons item items ih => rw [arePlain,ih,List.all_cons]

theorem fieldsArePlain_eq (fields : List (String × Json)) :
    fieldsArePlain fields = fields.all fun field => isPlain field.2 := by
  induction fields with
  | nil => rfl
  | cons field fields ih => rw [fieldsArePlain,ih,List.all_cons]

@[simp] theorem isPlain_string (s : String) : isPlain (.string s) = true := by simp [isPlain]

@[simp] theorem isPlain_natural (n : Nat) : isPlain (.natural n) = true := by simp [isPlain]

@[simp] theorem isPlain_boolean (b : Bool) : isPlain (.boolean b) = true := by simp [isPlain]

@[simp] theorem isPlain_array (items : List Json) : isPlain (.array items) = items.all isPlain := by
  rw [isPlain,arePlain_eq]

@[simp] theorem isPlain_object (fields : List (String × Json)) :
    isPlain (.object fields) = fields.all fun field => isPlain field.2 := by
  rw [isPlain,fieldsArePlain_eq]

theorem all_isPlain_optionalField (plain : ∀ x, isPlain (encode x) = true) (name : String) (value : Option α) :
    (optionalField name encode value).all (fun field => isPlain field.2) = true := by
  cases value with
  | none => rfl
  | some x => simp [optionalField,plain]

end Plain

section Reading

/-- Fields with different names are found by them. -/
theorem fieldsOf?_eq {names : List String} {j : Json} {fields : List (String × Json)} (object : j = .object fields)
    (different : names.Nodup) (keys : (fields.map Prod.fst).Sublist names) :
    ∃ known : Fields, fieldsOf? names j = some known ∧ ∀ name, known name = fields.lookup name := by
  have once : ∀ name, (fields.filter fun field => field.1 = name).length ≤ 1 := by
    intro name
    have single := List.nodup_iff_count_le_one.mp (different.sublist keys) name
    rw [List.count,List.countP_map,List.countP_eq_length_filter] at single
    exact single
  exact ⟨fun name => fields.lookup name,by simp [fieldsOf?,object,once],fun _ => rfl⟩

theorem keys_optionalField (name : String) (encode : α → Json) (value : Option α) :
    ((optionalField name encode value).map Prod.fst).Sublist [name] := by
  cases value with
  | none => exact List.nil_sublist _
  | some x => exact List.Sublist.refl _

theorem lookup_optionalField (key name : String) (encode : α → Json) (value : Option α) :
    (optionalField name encode value).lookup key = if key = name then value.map encode else none := by
  cases value with
  | none => simp [optionalField]
  | some x =>
    by_cases same : key = name
    · simp [optionalField,same]
    · simp [optionalField,List.lookup_cons,beq_eq_false_iff_ne.mpr same,same]

variable {fields : Fields} {name : String}

theorem Fields.required_eq (codec : Codec encode decode Storable) {x : α} (found : fields name = some (encode x))
    (stored : Storable x) : fields.required name decode = some x := by
  rw [Fields.required,found,Option.bind_some,codec.reads x stored]

theorem Fields.withDefault_eq (codec : Codec encode decode Storable) {x : α} (found : fields name = some (encode x))
    (stored : Storable x) (value : α) : fields.withDefault name decode value = some x := by
  rw [Fields.withDefault,found]
  exact codec.reads x stored

theorem Fields.withDefault_optional (codec : Codec encode decode Storable) {value : Option α}
    (found : fields name = value.map encode) (stored : ∀ x ∈ value, Storable x) (other : α) :
    fields.withDefault name decode other = some (value.getD other) := by
  cases value with
  | none => rw [Fields.withDefault,found]; rfl
  | some x => exact Fields.withDefault_eq codec found (stored x rfl) other

theorem Fields.optional_eq (codec : Codec encode decode Storable) (filled : ∀ x, encode x ≠ .null) {value : Option α}
    (found : fields name = value.map encode) (stored : ∀ x ∈ value, Storable x) :
    fields.optional name decode = some value := by
  cases value with
  | none => rw [Fields.optional,found]; rfl
  | some x =>
    rw [Fields.optional,found,Option.map_some]
    split
    · contradiction
    · rename_i null
      exact absurd (Option.some.inj null) (filled x)
    · rename_i j _ same
      rw [← Option.some.inj same,codec.reads x (stored x rfl),Option.map_some]

theorem Fields.storable_required (codec : Codec encode decode Storable) {x : α}
    (read : fields.required name decode = some x) : Storable x := by
  obtain ⟨j,_,decoded⟩ := Option.bind_eq_some_iff.mp read
  exact codec.storable j x decoded

theorem Fields.storable_withDefault (codec : Codec encode decode Storable) {value x : α} (stored : Storable value)
    (read : fields.withDefault name decode value = some x) : Storable x := by
  unfold Fields.withDefault at read
  split at read
  · cases read
    exact stored
  · exact codec.storable _ x read

theorem Fields.storable_optional (codec : Codec encode decode Storable) {value : Option α}
    (read : fields.optional name decode = some value) : ∀ x ∈ value, Storable x := by
  unfold Fields.optional at read
  split at read
  · cases read
    simp
  · cases read
    simp
  · obtain ⟨y,decoded,rfl⟩ := Option.map_eq_some_iff.mp read
    rintro x ⟨⟩
    exact codec.storable _ _ decoded

end Reading

section Values

theorem stringCodec : Codec .string string? fun _ => True where
  plain := isPlain_string
  reads _ _ := rfl
  storable _ _ _ := trivial

theorem booleanCodec : Codec .boolean boolean? fun _ => True where
  plain := isPlain_boolean
  reads _ _ := rfl
  storable _ _ _ := trivial

/-- Counters of 64 bits. -/
theorem counterCodec : Codec .natural counter? (· < Text.wordLimit) where
  plain := isPlain_natural
  reads n small := by rw [counter?,if_pos small]
  storable j n read := by
    unfold counter? at read
    split at read
    · obtain ⟨small,same⟩ := Option.ite_none_right_eq_some.mp read
      cases same
      exact small
    · contradiction

theorem listCodec (codec : Codec encode decode Storable) :
    Codec (fun xs => .array (xs.map encode)) (list? decode) fun xs => ∀ x ∈ xs, Storable x where
  plain xs := by simp [codec.plain]
  reads xs stored := by
    rw [list?]
    induction xs with
    | nil => rfl
    | cons x xs ih =>
      have rest := ih fun y member => stored y (List.mem_cons_of_mem x member)
      simp [codec.reads x (stored x List.mem_cons_self),rest]
  storable j xs read := by
    unfold list? at read
    split at read
    · rename_i items
      induction items generalizing xs with
      | nil =>
        cases read
        simp
      | cons item items ih =>
        rw [List.mapM_cons] at read
        obtain ⟨x,first,read⟩ := Option.bind_eq_some_iff.mp read
        obtain ⟨ys,others,same⟩ := Option.bind_eq_some_iff.mp read
        cases same
        exact List.forall_mem_cons.mpr ⟨codec.storable item x first,ih ys others⟩
    · contradiction

end Values

end ErrorMigration.Json
