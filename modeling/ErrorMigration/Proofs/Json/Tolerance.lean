import ErrorMigration.Json.Record
import Mathlib.Logic.Relation
import Mathlib.Tactic

/-! Which changes of a JSON value its reader does not see, and which it refuses. A record is described by a rule for
each of its fields; the order of fields, unknown fields, nulls for what is optional and absent, and fields that are left
out at their default make no difference, at any depth. A missing, repeated or null field spoils the whole value. -/
namespace ErrorMigration.Json

section Shapes

/-- A kind of JSON value: how values of it can vary without a change of meaning, and which are refused. -/
structure Shape where
  Varies : Json → Json → Prop
  Faulty : Json → Prop

inductive Need where
  | required
  /-- The field can be left out when it has the given value. -/
  | fallback (written : Json)
  /-- The field can be left out or be null. -/
  | optional

structure Rule where
  name : String
  need : Need
  shape : Shape

/-- One change of an object that makes no difference. -/
inductive Loosens (rules : List Rule) : List (String × Json) → List (String × Json) → Prop where
  | permuted {fields fields' : List (String × Json)} (same : fields.Perm fields') : Loosens rules fields fields'
  | unknown {fields : List (String × Json)} {name : String} (foreign : ∀ rule ∈ rules,rule.name ≠ name) (value : Json) :
      Loosens rules fields ((name,value) :: fields)
  | null {fields : List (String × Json)} {rule : Rule} (known : rule ∈ rules) (optional : rule.need = .optional)
      (absent : ∀ value,(rule.name,value) ∉ fields) : Loosens rules fields ((rule.name,.null) :: fields)
  | dropped (front back : List (String × Json)) {rule : Rule} {value : Json} (known : rule ∈ rules)
      (fallback : rule.need = .fallback value) : Loosens rules (front ++ (rule.name,value) :: back) (front ++ back)
  | inside (front back : List (String × Json)) {rule : Rule} {value value' : Json} (known : rule ∈ rules)
      (varied : rule.shape.Varies value value') :
      Loosens rules (front ++ (rule.name,value) :: back) (front ++ (rule.name,value') :: back)

/-- What an object cannot be read with. -/
inductive Spoils (rules : List Rule) (fields : List (String × Json)) : Prop where
  | missing {rule : Rule} (known : rule ∈ rules) (required : rule.need = .required)
      (absent : ∀ value,(rule.name,value) ∉ fields)
  | repeated {rule : Rule} {front middle back : List (String × Json)} {value value' : Json} (known : rule ∈ rules)
      (twice : fields = front ++ (rule.name,value) :: middle ++ (rule.name,value') :: back)
  | null {rule : Rule} (known : rule ∈ rules) (filled : rule.need ≠ .optional) (member : (rule.name,.null) ∈ fields)
  | inside {rule : Rule} {value : Json} (known : rule ∈ rules) (member : (rule.name,value) ∈ fields)
      (faulty : rule.shape.Faulty value)

namespace Shape

def value : Shape where
  Varies := Eq
  Faulty _ := False

def list (item : Shape) : Shape where
  Varies j j' := ∃ items items',j = .array items ∧ j' = .array items' ∧ List.Forall₂ item.Varies items items'
  Faulty j := ∃ items,j = .array items ∧ ∃ faulty ∈ items,item.Faulty faulty

def record (rules : List Rule) : Shape where
  Varies j j' := ∃ fields fields',j = .object fields ∧ j' = .object fields' ∧
    Relation.ReflTransGen (Loosens rules) fields fields'
  Faulty j := ∃ fields,j = .object fields ∧ Spoils rules fields

end Shape

end Shapes

section Given

def given (name : String) (fields : List (String × Json)) : List Json :=
  (fields.filter fun field => field.1 = name).map Prod.snd

@[simp] theorem given_append (name : String) (front back : List (String × Json)) :
    given name (front ++ back) = given name front ++ given name back := by simp [given]

@[simp] theorem given_cons (name key : String) (value : Json) (fields : List (String × Json)) :
    given name ((key,value) :: fields) = if key = name then value :: given name fields else given name fields := by
  by_cases same : key = name <;> simp [given,same]

theorem mem_given {name : String} {value : Json} {fields : List (String × Json)} :
    value ∈ given name fields ↔ (name,value) ∈ fields := by
  simp [given]

theorem lookup_eq_head?_given (name : String) (fields : List (String × Json)) :
    fields.lookup name = (given name fields).head? := by
  induction fields with
  | nil => rfl
  | cons field fields ih =>
    obtain ⟨key,value⟩ := field
    by_cases same : key = name
    · simp [same]
    · rw [List.lookup_cons,beq_eq_false_iff_ne.mpr (Ne.symm same),given_cons,if_neg same,ih]

def Once (rules : List Rule) (fields : List (String × Json)) : Prop :=
  ∀ rule ∈ rules,(given rule.name fields).length ≤ 1

theorem fieldsOf?_object_eq_some_iff {rules : List Rule} {fields : List (String × Json)} {known : Fields} :
    fieldsOf? (rules.map Rule.name) (.object fields) = some known ↔
      Once rules fields ∧ known = fun name => fields.lookup name := by
  have once : ((rules.map Rule.name).all fun name => (fields.filter fun field => field.1 = name).length ≤ 1) = true ↔
      Once rules fields := by simp [Once,given]
  rw [fieldsOf?]
  by_cases single : Once rules fields
  · rw [if_pos (once.mpr single)]
    simp [single,eq_comm]
  · rw [if_neg (mt once.mp single)]
    simp [single]

inductive Rule.Eases (rule : Rule) : Option Json → Option Json → Prop where
  | same (value : Option Json) : Eases rule value value
  | inside {value value' : Json} (varied : rule.shape.Varies value value') : Eases rule (some value) (some value')
  | dropped {value : Json} (fallback : rule.need = .fallback value) : Eases rule (some value) none
  | null (optional : rule.need = .optional) : Eases rule none (some .null)

inductive Rule.Refuses (rule : Rule) : Option Json → Prop where
  | missing (required : rule.need = .required) : Refuses rule none
  | null (filled : rule.need ≠ .optional) : Refuses rule (some .null)
  | inside {value : Json} (faulty : rule.shape.Faulty value) : Refuses rule (some value)

variable {rules : List Rule} {fields fields' : List (String × Json)}

theorem alone_of_length_le {front back : List Json} {value : Json} (short : (front ++ value :: back).length ≤ 1) :
    front = [] ∧ back = [] := by
  rw [List.length_append,List.length_cons] at short
  exact ⟨List.eq_nil_of_length_eq_zero (by omega),List.eq_nil_of_length_eq_zero (by omega)⟩

theorem eq_of_perm_of_length_le {values values' : List Json} (same : values.Perm values') (short : values.length ≤ 1) :
    values' = values := by
  match values,short with
  | [],_ => exact List.nil_perm.mp same
  | [value],_ => exact List.singleton_perm.mp same |>.symm

/-- A change at one field leaves the others as they are. -/
theorem Loosens.eases (distinct : (rules.map Rule.name).Nodup) (loosens : Loosens rules fields fields')
    (once : Once rules fields) :
    Once rules fields' ∧ ∀ rule ∈ rules,rule.Eases (fields.lookup rule.name) (fields'.lookup rule.name) := by
  rw [Once,← forall₂_and]
  intro rule member
  have single := once rule member
  have unique {rule' : Rule} (known : rule' ∈ rules) (same : rule'.name = rule.name) : rule' = rule :=
    List.inj_on_of_nodup_map distinct known member same
  rw [lookup_eq_head?_given,lookup_eq_head?_given]
  cases loosens with
  | permuted same =>
    have values : given rule.name fields' = given rule.name fields :=
      eq_of_perm_of_length_le ((same.filter _).map _) single
    rw [values]
    exact ⟨single,.same _⟩
  | @unknown _ name foreign value =>
    rw [given_cons,if_neg (foreign rule member).symm]
    exact ⟨single,.same _⟩
  | @null _ rule' known optional absent =>
    by_cases same : rule'.name = rule.name
    · obtain rfl := unique known same
      have none : given rule'.name fields = [] :=
        List.eq_nil_iff_forall_not_mem.mpr fun value found => absent value (mem_given.mp found)
      simp only [given_cons,if_true,none]
      exact ⟨Nat.le_refl _,.null optional⟩
    · rw [given_cons,if_neg same]
      exact ⟨single,.same _⟩
  | @dropped front back rule' value known fallback =>
    by_cases same : rule'.name = rule.name
    · obtain rfl := unique known same
      simp only [given_append,given_cons,if_true] at single ⊢
      obtain ⟨inFront,behind⟩ := alone_of_length_le single
      simp only [inFront,behind]
      exact ⟨Nat.zero_le _,.dropped fallback⟩
    · simp only [given_append,given_cons,if_neg same] at single ⊢
      exact ⟨single,.same _⟩
  | @inside front back rule' value value' known varied =>
    by_cases same : rule'.name = rule.name
    · obtain rfl := unique known same
      simp only [given_append,given_cons,if_true] at single ⊢
      obtain ⟨inFront,behind⟩ := alone_of_length_le single
      simp only [inFront,behind]
      exact ⟨Nat.le_refl _,.inside varied⟩
    · simp only [given_append,given_cons,if_neg same] at single ⊢
      exact ⟨single,.same _⟩

theorem lookup_of_mem_of_once (once : Once rules fields) {rule : Rule} (known : rule ∈ rules) {value : Json}
    (member : (rule.name,value) ∈ fields) : fields.lookup rule.name = some value := by
  obtain ⟨front,back,split⟩ := List.append_of_mem (mem_given.mpr member)
  have single := once rule known
  rw [split] at single
  obtain ⟨rfl,rfl⟩ := alone_of_length_le single
  rw [lookup_eq_head?_given,split]
  rfl

theorem Spoils.refuses (spoils : Spoils rules fields) (once : Once rules fields) :
    ∃ rule ∈ rules,rule.Refuses (fields.lookup rule.name) := by
  cases spoils with
  | @missing rule known required absent =>
    have none : given rule.name fields = [] :=
      List.eq_nil_iff_forall_not_mem.mpr fun value found => absent value (mem_given.mp found)
    refine ⟨rule,known,?_⟩
    rw [lookup_eq_head?_given,none]
    exact .missing required
  | @repeated rule front middle back value value' known twice =>
    have single := once rule known
    simp only [twice,given_append,given_cons,if_true,List.length_append,List.length_cons] at single
    omega
  | @null rule known filled member =>
    refine ⟨rule,known,?_⟩
    rw [lookup_of_mem_of_once once known member]
    exact .null filled
  | @inside rule value known member faulty =>
    refine ⟨rule,known,?_⟩
    rw [lookup_of_mem_of_once once known member]
    exact .inside faulty

end Given

section Readers

variable {α β : Type}

/-- A reader that gives the same for what varies and nothing for what is faulty. -/
structure Tolerant (shape : Shape) (decode : Decoder α) : Prop where
  keeps : ∀ {j j' x},shape.Varies j j' → decode j = some x → decode j' = some x
  refuses : ∀ {j},shape.Faulty j → decode j = none

structure Reads (rule : Rule) (read : Fields → Option α) : Prop where
  keeps : ∀ {known known' : Fields} {x},rule.Eases (known rule.name) (known' rule.name) → read known = some x →
    read known' = some x
  refuses : ∀ {known : Fields},rule.Refuses (known rule.name) → read known = none

structure Builds (rules : List Rule) (build : Fields → Option α) : Prop where
  keeps : ∀ {known known' : Fields} {x},(∀ rule ∈ rules,rule.Eases (known rule.name) (known' rule.name)) →
    build known = some x → build known' = some x
  refuses : ∀ {known : Fields},(∃ rule ∈ rules,rule.Refuses (known rule.name)) → build known = none

theorem Builds.done (x : α) : Builds [] fun _ => pure x where
  keeps _ := id
  refuses := by simp

theorem Builds.next {rule : Rule} {rules : List Rule} {read : Fields → Option β} {build : β → Fields → Option α}
    (first : Reads rule read) (others : ∀ x,Builds rules (build x)) :
    Builds (rule :: rules) fun known => read known >>= fun x => build x known where
  keeps eases built := by
    obtain ⟨x,found,built⟩ := Option.bind_eq_some_iff.mp built
    rw [List.forall_mem_cons] at eases
    exact Option.bind_eq_some_iff.mpr ⟨x,first.keeps eases.1 found,(others x).keeps eases.2 built⟩
  refuses refused := by
    obtain ⟨refusing,member,refused⟩ := refused
    rcases List.mem_cons.mp member with rfl | member
    · rw [first.refuses refused]
      rfl
    · cases found : read _ with
      | none => rfl
      | some x => exact (others x).refuses ⟨refusing,member,refused⟩

/-- The reader of a record is the reader of its fields. -/
theorem tolerant_record {rules : List Rule} (distinct : (rules.map Rule.name).Nodup) {build : Fields → Option α}
    (builds : Builds rules build) :
    Tolerant (.record rules) fun j => fieldsOf? (rules.map Rule.name) j >>= build where
  keeps := by
    rintro _ _ x ⟨fields,fields',rfl,rfl,loosened⟩ decoded
    -- each of the changes keeps what is read, and that no field is given twice
    induction loosened with
    | refl => exact decoded
    | tail _ loosens ih =>
      obtain ⟨known,found,built⟩ := Option.bind_eq_some_iff.mp ih
      obtain ⟨once,rfl⟩ := fieldsOf?_object_eq_some_iff.mp found
      obtain ⟨once',eases⟩ := loosens.eases distinct once
      exact Option.bind_eq_some_iff.mpr ⟨_,fieldsOf?_object_eq_some_iff.mpr ⟨once',rfl⟩,builds.keeps eases built⟩
  refuses := by
    rintro _ ⟨fields,rfl,spoils⟩
    rw [Option.eq_none_iff_forall_ne_some]
    intro x decoded
    obtain ⟨known,found,built⟩ := Option.bind_eq_some_iff.mp decoded
    obtain ⟨once,rfl⟩ := fieldsOf?_object_eq_some_iff.mp found
    rw [builds.refuses (spoils.refuses once)] at built
    cases built

theorem tolerant_value (decode : Decoder α) : Tolerant .value decode where
  keeps same decoded := same ▸ decoded
  refuses faulty := faulty.elim

theorem tolerant_list {item : Shape} {decode : Decoder α} (tolerant : Tolerant item decode) :
    Tolerant (.list item) (list? decode) where
  keeps := by
    rintro _ _ xs ⟨items,items',rfl,rfl,varied⟩ decoded
    rw [list?] at decoded ⊢
    induction varied generalizing xs with
    | nil => exact decoded
    | cons first _ ih =>
      rw [List.mapM_cons] at decoded ⊢
      obtain ⟨x,read,decoded⟩ := Option.bind_eq_some_iff.mp decoded
      obtain ⟨rest,others,decoded⟩ := Option.bind_eq_some_iff.mp decoded
      refine Option.bind_eq_some_iff.mpr ⟨x,tolerant.keeps first read,?_⟩
      exact Option.bind_eq_some_iff.mpr ⟨rest,ih others,decoded⟩
  refuses := by
    rintro _ ⟨items,rfl,faulty,member,refused⟩
    obtain ⟨front,back,rfl⟩ := List.append_of_mem member
    rw [list?,Option.eq_none_iff_forall_ne_some]
    intro xs decoded
    rw [List.mapM_append,List.mapM_cons,tolerant.refuses refused] at decoded
    obtain ⟨_,_,decoded⟩ := Option.bind_eq_some_iff.mp decoded
    cases decoded

section Fields

variable {shape : Shape} {decode : Decoder α}

/-- What is given for a field that is not optional is read, or refused, by the reader of its values. -/
theorem decode_refuses {rule : Rule} (tolerant : Tolerant rule.shape decode) (filled : decode .null = none)
    {value : Json} (refused : rule.Refuses (some value)) : decode value = none := by
  cases refused with
  | null _ => exact filled
  | inside faulty => exact tolerant.refuses faulty

theorem reads_required (name : String) (tolerant : Tolerant shape decode) (filled : decode .null = none) :
    Reads ⟨name,.required,shape⟩ fun known => known.required name decode where
  keeps {known known' x} eases read := by
    simp only [Fields.required] at eases read ⊢
    generalize known name = before at eases read
    generalize known' name = after at eases ⊢
    cases eases with
    | same _ => exact read
    | inside varied => exact tolerant.keeps varied read
    | dropped fallback => cases fallback
    | null optional => cases optional
  refuses {known} refused := by
    simp only [Fields.required] at refused ⊢
    generalize known name = value at refused ⊢
    cases value with
    | none => rfl
    | some value => exact decode_refuses tolerant filled refused

theorem reads_withDefault (name : String) (tolerant : Tolerant shape decode) (filled : decode .null = none)
    {written : Json} {value : α} (default : decode written = some value) :
    Reads ⟨name,.fallback written,shape⟩ fun known => known.withDefault name decode value where
  keeps {known known' x} eases read := by
    simp only [Fields.withDefault] at eases read ⊢
    generalize known name = before at eases read
    generalize known' name = after at eases ⊢
    cases eases with
    | same _ => exact read
    | inside varied => exact tolerant.keeps varied read
    | dropped fallback =>
      cases fallback
      exact default.symm.trans read
    | null optional => cases optional
  refuses {known} refused := by
    simp only [Fields.withDefault] at refused ⊢
    generalize known name = value at refused ⊢
    cases value with
    | none => cases refused with | missing required => cases required
    | some value => exact decode_refuses tolerant filled refused

theorem reads_optional (name : String) (decode : Decoder α) :
    Reads ⟨name,.optional,.value⟩ fun known => known.optional name decode where
  keeps {known known' x} eases read := by
    simp only [Fields.optional] at eases read ⊢
    generalize known name = before at eases read
    generalize known' name = after at eases ⊢
    cases eases with
    | same _ => exact read
    | inside same =>
      obtain rfl := same
      exact read
    | dropped fallback => cases fallback
    | null _ => exact read
  refuses {known} refused := by
    simp only [Fields.optional] at refused ⊢
    generalize known name = value at refused ⊢
    cases refused with
    | missing required => cases required
    | null filled => exact absurd rfl filled
    | inside faulty => exact faulty.elim

end Fields

end Readers

end ErrorMigration.Json
