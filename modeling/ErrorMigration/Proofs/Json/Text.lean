import ErrorMigration.Json.Reader
import ErrorMigration.Json.Writer
import ErrorMigration.Proofs.Text.Digits
import ErrorMigration.Proofs.Text.Search
import Mathlib.Data.List.DropRight

/-! Written JSON and its reader. A layout of a value is its tokens with any blanks between them; both written forms
are layouts, and the reader gives a value back from every layout of it. -/
namespace ErrorMigration.Json

def AllBlank (cs : List Char) : Prop := ∀ c ∈ cs, isBlank c = true

/-- What may follow a value: the end of the text, a blank, or a mark of an array or an object. -/
def Ends (rest : List Char) : Prop := ∀ c ∈ rest.head?, isBlank c = true ∨ c = ',' ∨ c = ']' ∨ c = '\x7d'

theorem allBlank_nil : AllBlank [] := by
  intro c member
  contradiction

theorem allBlank_newline (level : Nat) : AllBlank (newline level) := by
  intro c member
  rcases List.mem_cons.mp member with rfl | space
  · rfl
  · rw [List.eq_of_mem_replicate space]
    rfl

theorem ends_cons {c : Char} (mark : c = ',' ∨ c = ']' ∨ c = '\x7d') (rest : List Char) : Ends (c :: rest) := by
  intro d first
  cases first
  exact .inr mark

theorem AllBlank.ends {before rest : List Char} (blank : AllBlank before) (closed : Ends rest) :
    Ends (before ++ rest) := by
  cases before with
  | nil => exact closed
  | cons c before =>
    intro d first
    cases first
    exact .inl (blank c List.mem_cons_self)

theorem blanks_append {before cs : List Char} (blank : AllBlank before) (visible : ∀ c ∈ cs.head?, isBlank c = false) :
    blanks (before ++ cs) = cs := by
  rw [blanks,List.dropWhile_append_of_pos blank]
  cases cs with
  | nil => rfl
  | cons c cs => simp [visible c rfl]

theorem blanks_append_cons {before : List Char} (blank : AllBlank before) {c : Char} (visible : isBlank c = false)
    (rest : List Char) : blanks (before ++ c :: rest) = c :: rest :=
  blanks_append blank (by simpa using visible)

section Strings

theorem numberIn?_control {n : Nat} (control : n < 32) :
    Text.numberIn? 16 ['0','0',Text.hexDigit (n / 16),Text.hexDigit n] = some n := by
  interval_cases n <;> rfl

theorem ofCode_control {c : Char} (control : c.toNat < 32) : Unit.ofCode c.toNat = .char c := by
  have low : ¬ 0xD800 ≤ c.toNat := by omega
  simp [Unit.ofCode,low]

/-- An escape of one letter, which is not the letter of a code. -/
theorem units?_letter {letter c : Char} (short : letter ≠ 'u') (known : escapeChar? letter = some c)
    (rest : List Char) : units? ('\\' :: letter :: rest) = (units? rest).map fun p => (.char c :: p.1,p.2) := by
  rw [units?]
  · rw [known]
    cases units? rest <;> rfl
  · intro _ _ _ _ _ equal
    exact absurd equal short

theorem units?_plain {c : Char} (quote : c ≠ '"') (slash : c ≠ '\\') (visible : ¬ c.toNat < 0x20)
    (rest : List Char) : units? (c :: rest) = (units? rest).map fun p => (.char c :: p.1,p.2) := by
  rw [units?]
  · simp [slash,visible]
  all_goals grind

/-- The written form of a character is one unit. -/
theorem units?_escaped (c : Char) (rest : List Char) :
    units? (escaped c ++ rest) = (units? rest).map fun p => (.char c :: p.1,p.2) := by
  unfold escaped
  split_ifs with quote slash back feed line carriage tab control
  all_goals simp only [beq_iff_eq] at *
  · exact units?_letter (by decide) (by rw [quote]; rfl) rest
  · exact units?_letter (by decide) (by rw [slash]; rfl) rest
  · exact units?_letter (by decide) (by rw [back]; rfl) rest
  · exact units?_letter (by decide) (by rw [feed]; rfl) rest
  · exact units?_letter (by decide) (by rw [line]; rfl) rest
  · exact units?_letter (by decide) (by rw [carriage]; rfl) rest
  · exact units?_letter (by decide) (by rw [tab]; rfl) rest
  · simp only [List.cons_append,List.nil_append,units?,numberIn?_control control]
    cases units? rest with
    | none => rfl
    | some p => simp [ofCode_control control]
  · exact units?_plain quote slash control rest

theorem units?_flatMap_escaped (cs rest : List Char) :
    units? (cs.flatMap escaped ++ '"' :: rest) = some (cs.map Unit.char,rest) := by
  induction cs with
  | nil => simp [units?]
  | cons c cs ih => rw [List.flatMap_cons,List.append_assoc,units?_escaped,ih]; rfl

theorem textOf?_chars (cs : List Char) : textOf? (cs.map Unit.char) = some cs := by
  induction cs with
  | nil => rfl
  | cons c cs ih => simp [textOf?,ih]

theorem scalar?_string (s : String) (rest : List Char) : scalar? (stringText s ++ rest) = some (.string s,rest) := by
  simp [stringText,scalar?,units?_flatMap_escaped,stringValue,textOf?_chars]

end Strings

section Numbers

theorem not_isDigit_of_isBlank {c : Char} (blank : isBlank c = true) : c.isDigit = false := by
  simp only [isBlank,Bool.or_eq_true,beq_iff_eq] at blank
  rcases blank with ((rfl | rfl) | rfl) | rfl <;> rfl

theorem Ends.not_digit {rest : List Char} (closed : Ends rest) : ∀ c ∈ rest.head?, c.isDigit = false := by
  intro c first
  rcases closed c first with blank | rfl | rfl | rfl
  · exact not_isDigit_of_isBlank blank
  all_goals rfl

theorem Ends.ne {rest : List Char} (closed : Ends rest) {c : Char} (mark : c = '.' ∨ c = 'e' ∨ c = 'E')
    (tail : List Char) : rest ≠ c :: tail := by
  rintro rfl
  have first := closed c rfl
  rcases mark with rfl | rfl | rfl <;> simp [isBlank] at first

theorem whole?_naturalText (n : Nat) {rest : List Char} (closed : Ends rest) :
    whole? (naturalText n ++ rest) = some (naturalText n,rest) := by
  have all : ∀ c ∈ naturalText n, c.isDigit = true := fun _ => Text.isDigit_of_mem_toDigits
  have filled : naturalText n ≠ [] := Nat.toDigits_ne_nil
  rcases Nat.eq_zero_or_pos n with rfl | positive
  · rfl
  · have first : (naturalText n).head? ≠ some '0' := Text.head?_toDigits_ne_zero positive
    unfold whole?
    split
    · rename_i tail equal
      rw [← List.head?_append_of_ne_nil (naturalText n) filled,equal] at first
      exact absurd rfl first
    · simp [digits?,Text.takeWhile_digits all closed.not_digit,Text.dropWhile_digits all closed.not_digit,filled]

theorem fraction?_of_ends {rest : List Char} (closed : Ends rest) : fraction? rest = some ([],rest) := by
  unfold fraction?
  split
  · exact absurd rfl (closed.ne (.inl rfl) _)
  · rfl

theorem exponent?_of_ends {rest : List Char} (closed : Ends rest) : exponent? rest = some ([],rest) := by
  cases rest with
  | nil => rfl
  | cons c rest =>
    have lower : c ≠ 'e' := fun equal => closed.ne (.inr (.inl equal)) rest rfl
    have upper : c ≠ 'E' := fun equal => closed.ne (.inr (.inr equal)) rest rfl
    simp [exponent?,lower,upper]

/-- A number starts with a digit, so with no other mark. -/
theorem naturalText_cases (n : Nat) :
    ∃ c digits, naturalText n = c :: digits ∧ ∀ d : Char, d.isDigit = false → c ≠ d := by
  obtain ⟨c,digits,equal⟩ := List.exists_cons_of_ne_nil (Nat.toDigits_ne_nil (b := 10) (n := n))
  refine ⟨c,digits,equal,?_⟩
  rintro d mark rfl
  have digit : c.isDigit = true := Text.isDigit_of_mem_toDigits (n := n) (equal ▸ List.mem_cons_self)
  rw [mark] at digit
  contradiction

theorem number?_naturalText (n : Nat) {rest : List Char} (closed : Ends rest) :
    number? (naturalText n ++ rest) = some (.natural n,rest) := by
  have stops : (rest.head?.map Char.isDigit).getD false = false := by
    cases first : rest.head? with
    | none => rfl
    | some c => exact closed.not_digit c first
  have value : Text.numberOf (naturalText n) = n := Text.numberOf_toDigits n
  obtain ⟨c,digits,equal,other⟩ := naturalText_cases n
  have whole := whole?_naturalText n closed
  rw [equal,List.cons_append] at whole ⊢
  rw [equal] at value
  simp [number?,other '-' rfl,whole,fraction?_of_ends closed,exponent?_of_ends closed,stops,value]

theorem scalar?_natural (n : Nat) {rest : List Char} (closed : Ends rest) :
    scalar? (naturalText n ++ rest) = some (.natural n,rest) := by
  have number := number?_naturalText n closed
  obtain ⟨c,digits,equal,other⟩ := naturalText_cases n
  rw [equal,List.cons_append] at number ⊢
  simp [scalar?,other '"' rfl,other 'n' rfl,other 't' rfl,other 'f' rfl,number]

end Numbers

mutual

/-- The values that reports hold: no number but natural ones, and every string a text. -/
def isPlain : Json → Bool
  | .numeral _ => false
  | .broken => false
  | .array items => arePlain items
  | .object fields => fieldsArePlain fields
  | _ => true

def arePlain : List Json → Bool
  | [] => true
  | item :: rest => isPlain item && arePlain rest

def fieldsArePlain : List (String × Json) → Bool
  | [] => true
  | (_,value) :: rest => isPlain value && fieldsArePlain rest

end

def isScalar : Json → Bool
  | .array _ => false
  | .object _ => false
  | _ => true

mutual

/-- A text for a value, with any blanks between its tokens and none around it. -/
inductive Layout : Json → List Char → Prop where
  | scalar {j : Json} (plain : isPlain j = true) (scalar : isScalar j = true) : Layout j (scalarText j)
  | emptyArray : Layout (.array []) ['[',']']
  | array {items : List Json} {cs : List Char} (inner : ItemsLayout items cs) : Layout (.array items) ('[' :: cs)
  | emptyObject : Layout (.object []) ['\x7b','\x7d']
  | object {fields : List (String × Json)} {cs : List Char} (inner : FieldsLayout fields cs) :
      Layout (.object fields) ('\x7b' :: cs)

inductive ItemsLayout : List Json → List Char → Prop where
  | last {item : Json} {before cs after : List Char} (blankBefore : AllBlank before) (inner : Layout item cs)
      (blankAfter : AllBlank after) : ItemsLayout [item] (before ++ (cs ++ (after ++ [']'])))
  | more {item : Json} {rest : List Json} {before cs ds : List Char} (blankBefore : AllBlank before)
      (inner : Layout item cs) (others : ItemsLayout rest ds) : ItemsLayout (item :: rest) (before ++ (cs ++ ',' :: ds))

inductive FieldsLayout : List (String × Json) → List Char → Prop where
  | last (name : String) {value : Json} {before gap cs after : List Char} (blankBefore : AllBlank before)
      (blankGap : AllBlank gap) (inner : Layout value cs) (blankAfter : AllBlank after) :
      FieldsLayout [(name,value)] (before ++ (stringText name ++ ':' :: (gap ++ (cs ++ (after ++ ['\x7d'])))))
  | more (name : String) {value : Json} {rest : List (String × Json)} {before gap cs ds : List Char}
      (blankBefore : AllBlank before) (blankGap : AllBlank gap) (inner : Layout value cs)
      (others : FieldsLayout rest ds) :
      FieldsLayout ((name,value) :: rest) (before ++ (stringText name ++ ':' :: (gap ++ (cs ++ ',' :: ds))))

end

section Reading

@[simp] theorem scalarText_null : scalarText .null = ['n','u','l','l'] := rfl

@[simp] theorem scalarText_true : scalarText (.boolean true) = ['t','r','u','e'] := rfl

@[simp] theorem scalarText_false : scalarText (.boolean false) = ['f','a','l','s','e'] := rfl

@[simp] theorem scalarText_natural (n : Nat) : scalarText (.natural n) = naturalText n := rfl

@[simp] theorem scalarText_string (s : String) : scalarText (.string s) = stringText s := rfl

theorem scalar?_scalarText {j : Json} (plain : isPlain j = true) (scalar : isScalar j = true) {rest : List Char}
    (closed : Ends rest) : scalar? (scalarText j ++ rest) = some (j,rest) := by
  cases j with
  | null => simp [scalar?,Text.skip?]
  | boolean b => cases b <;> simp [scalar?,Text.skip?]
  | natural n => rw [scalarText_natural,scalar?_natural n closed]
  | string s => rw [scalarText_string,scalar?_string]
  | numeral | broken | array | object => simp [isPlain,isScalar] at plain scalar

/-- A scalar starts neither with a blank nor as an array or an object does. -/
theorem scalarText_cases {j : Json} (plain : isPlain j = true) (scalar : isScalar j = true) :
    ∃ c tail, scalarText j = c :: tail ∧ isBlank c = false ∧ c ≠ '[' ∧ c ≠ ']' ∧ c ≠ '\x7b' := by
  cases j with
  | null => exact ⟨_,_,scalarText_null,by decide⟩
  | boolean b =>
    cases b with
    | true => exact ⟨_,_,scalarText_true,by decide⟩
    | false => exact ⟨_,_,scalarText_false,by decide⟩
  | natural n =>
    obtain ⟨c,digits,equal,other⟩ := naturalText_cases n
    refine ⟨c,digits,equal,?_,other '[' rfl,other ']' rfl,other '\x7b' rfl⟩
    simp [isBlank,other ' ' rfl,other '\n' rfl,other '\r' rfl,other '\t' rfl]
  | string s => exact ⟨'"',_,scalarText_string s,by decide⟩
  | numeral | broken | array | object => simp [isPlain,isScalar] at plain scalar

/-- No layout starts with a blank or a closing bracket. -/
theorem Layout.cases {j : Json} {cs : List Char} (layout : Layout j cs) :
    ∃ c tail, cs = c :: tail ∧ isBlank c = false ∧ c ≠ ']' := by
  cases layout with
  | scalar plain scalar =>
    obtain ⟨c,tail,equal,visible,_,closing,_⟩ := scalarText_cases plain scalar
    exact ⟨c,tail,equal,visible,closing⟩
  | emptyArray | array | emptyObject | object => exact ⟨_,_,rfl,by decide⟩

/-- What stands inside a bracket is not the closing one. -/
theorem ItemsLayout.cases {items : List Json} {cs : List Char} (layout : ItemsLayout items cs) (rest : List Char) :
    ∃ c tail, blanks (cs ++ rest) = c :: tail ∧ c ≠ ']' := by
  cases layout with
  | last blankBefore inner _ | more blankBefore inner _ =>
    obtain ⟨c,tail,rfl,visible,closing⟩ := inner.cases
    simp only [List.append_assoc,List.cons_append]
    exact ⟨c,_,blanks_append_cons blankBefore visible _,closing⟩

theorem FieldsLayout.cases {fields : List (String × Json)} {cs : List Char} (layout : FieldsLayout fields cs)
    (rest : List Char) : ∃ tail, blanks (cs ++ rest) = '"' :: tail := by
  cases layout with
  | last _ blankBefore | more _ blankBefore =>
    simp only [stringText,List.append_assoc,List.cons_append]
    exact ⟨_,blanks_append_cons blankBefore rfl _⟩

@[simp] theorem blanks_blanks (cs : List Char) : blanks (blanks cs) = blanks cs := List.dropWhile_idempotent _ _

theorem value?_blanks (bound : Nat) (cs : List Char) : value? bound (blanks cs) = value? bound cs := by
  cases bound with
  | zero => simp only [value?]
  | succ bound => simp only [value?,blanks_blanks]

theorem items?_blanks (bound : Nat) (cs : List Char) : items? bound (blanks cs) = items? bound cs := by
  cases bound with
  | zero => simp only [items?]
  | succ bound => simp only [items?,value?_blanks]

theorem fields?_blanks (bound : Nat) (cs : List Char) : fields? bound (blanks cs) = fields? bound cs := by
  cases bound with
  | zero => simp only [fields?]
  | succ bound => simp only [fields?,name?,blanks_blanks]

theorem value?_scalarText {j : Json} (plain : isPlain j = true) (scalar : isScalar j = true) {before rest : List Char}
    (blank : AllBlank before) (closed : Ends rest) (bound : Nat) :
    value? (bound + 1) (before ++ (scalarText j ++ rest)) = some (j,rest) := by
  have read := scalar?_scalarText plain scalar closed
  obtain ⟨c,tail,equal,visible,bracket,_,brace⟩ := scalarText_cases plain scalar
  rw [equal,List.cons_append] at read ⊢
  simp [value?,blanks_append_cons blank visible,bracket,brace,read]

theorem name?_stringText {before : List Char} (blank : AllBlank before) (name : String) (rest : List Char) :
    name? (before ++ (stringText name ++ ':' :: rest)) = some (some name,rest) := by
  have quote : isBlank '"' = false := rfl
  have colon : blanks (':' :: rest) = ':' :: rest := blanks_append_cons allBlank_nil rfl rest
  simp [name?,stringText,blanks_append_cons blank quote,Text.skip?,units?_flatMap_escaped,colon,textOf?_chars]

theorem objectValue_named (fields : List (String × Json)) :
    objectValue (fields.map fun field => (some field.1,field.2)) = .object fields := by
  have named : (fields.map fun field => (some field.1,field.2)).mapM
      (fun field => field.1.map fun name => (name,field.2)) = some fields := by
    induction fields with
    | nil => rfl
    | cons field fields ih => simp [ih]
  rw [objectValue,named]

section Steps

variable {bound : Nat} {before cs ds rest : List Char} {item : Json}

theorem value?_bracket (blank : AllBlank before) {c : Char} (first : blanks cs = c :: rest) (notClosing : c ≠ ']') :
    value? (bound + 1) (before ++ '[' :: cs) = (items? bound cs).map fun p => (.array p.1,p.2) := by
  rw [← items?_blanks,first]
  simp [value?,blanks_append_cons blank (c := '[') rfl,first,notClosing]

theorem value?_brace (blank : AllBlank before) {c : Char} (first : blanks cs = c :: rest) (notClosing : c ≠ '\x7d') :
    value? (bound + 1) (before ++ '\x7b' :: cs) = (fields? bound cs).map fun p => (objectValue p.1,p.2) := by
  rw [← fields?_blanks,first]
  simp [value?,blanks_append_cons blank (c := '\x7b') rfl,first,notClosing]

theorem items?_last (read : value? bound cs = some (item,ds)) (closing : blanks ds = ']' :: rest) :
    items? (bound + 1) cs = some ([item],rest) := by
  simp [items?,read,closing]

theorem items?_more (read : value? bound cs = some (item,ds)) (comma : blanks ds = ',' :: rest) :
    items? (bound + 1) cs = (items? bound rest).map fun p => (item :: p.1,p.2) := by
  simp [items?,read,comma]

variable {name : Option String} {es : List Char}

theorem fields?_last (named : name? cs = some (name,ds)) (read : value? bound ds = some (item,es))
    (closing : blanks es = '\x7d' :: rest) : fields? (bound + 1) cs = some ([(name,item)],rest) := by
  simp [fields?,named,read,closing]

theorem fields?_more (named : name? cs = some (name,ds)) (read : value? bound ds = some (item,es))
    (comma : blanks es = ',' :: rest) :
    fields? (bound + 1) cs = (fields? bound rest).map fun p => ((name,item) :: p.1,p.2) := by
  simp [fields?,named,read,comma]

end Steps

mutual

/-- A value is read from each of its layouts. Every step down is paid for by a character: a value by its first one, and
an item or a field by the mark behind it. -/
theorem value?_layout {j : Json} {cs : List Char} (layout : Layout j cs) {bound : Nat} (enough : 2 * cs.length ≤ bound)
    {before : List Char} (blank : AllBlank before) {rest : List Char} (closed : Ends rest) :
    value? bound (before ++ (cs ++ rest)) = some (j,rest) := by
  -- a layout is not empty, so there is room for one more step
  obtain ⟨bound,rfl⟩ : ∃ less, bound = less + 1 := by
    obtain ⟨c,tail,equal,_⟩ := layout.cases
    rw [equal,List.length_cons] at enough
    exact ⟨bound - 1,by omega⟩
  cases layout with
  | scalar plain scalar => exact value?_scalarText plain scalar blank closed bound
  | emptyArray =>
    have opening : blanks (before ++ (['[',']'] ++ rest)) = '[' :: ']' :: rest := blanks_append_cons blank rfl _
    have closing : blanks (']' :: rest) = ']' :: rest := blanks_append_cons allBlank_nil rfl rest
    simp only [value?,opening,closing]
  | array inner =>
    obtain ⟨c,tail,first,notClosing⟩ := inner.cases rest
    rw [List.cons_append,value?_bracket blank first notClosing,
      items?_layout inner (by rw [List.length_cons] at enough; omega) rest,Option.map_some]
  | emptyObject =>
    have opening : blanks (before ++ (['\x7b','\x7d'] ++ rest)) = '\x7b' :: '\x7d' :: rest :=
      blanks_append_cons blank rfl _
    have closing : blanks ('\x7d' :: rest) = '\x7d' :: rest := blanks_append_cons allBlank_nil rfl rest
    simp only [value?,opening,closing]
  | object inner =>
    obtain ⟨tail,first⟩ := inner.cases rest
    rw [List.cons_append,value?_brace blank first (by decide),
      fields?_layout inner (by rw [List.length_cons] at enough; omega) rest,Option.map_some,objectValue_named]

theorem items?_layout {items : List Json} {cs : List Char} (layout : ItemsLayout items cs) {bound : Nat}
    (enough : 2 * cs.length ≤ bound) (rest : List Char) : items? bound (cs ++ rest) = some (items,rest) := by
  cases layout with
  | last blankBefore inner blankAfter =>
    simp only [List.length_append,List.length_singleton] at enough
    obtain ⟨bound,rfl⟩ : ∃ less, bound = less + 1 := ⟨bound - 1,by omega⟩
    simp only [List.append_assoc,List.singleton_append]
    have ends := blankAfter.ends (ends_cons (.inr (.inl rfl)) rest)
    exact items?_last (value?_layout inner (by omega) blankBefore ends) (blanks_append_cons blankAfter rfl rest)
  | more blankBefore inner others =>
    simp only [List.length_append,List.length_cons] at enough
    obtain ⟨bound,rfl⟩ : ∃ less, bound = less + 1 := ⟨bound - 1,by omega⟩
    simp only [List.append_assoc,List.cons_append]
    rw [items?_more (value?_layout inner (by omega) blankBefore (ends_cons (.inl rfl) _))
      (blanks_append_cons allBlank_nil rfl _),items?_layout others (by omega) rest,Option.map_some]

theorem fields?_layout {fields : List (String × Json)} {cs : List Char} (layout : FieldsLayout fields cs) {bound : Nat}
    (enough : 2 * cs.length ≤ bound) (rest : List Char) :
    fields? bound (cs ++ rest) = some (fields.map fun field => (some field.1,field.2),rest) := by
  cases layout with
  | last name blankBefore blankGap inner blankAfter =>
    simp only [List.length_append,List.length_cons] at enough
    obtain ⟨bound,rfl⟩ : ∃ less, bound = less + 1 := ⟨bound - 1,by omega⟩
    simp only [List.append_assoc,List.cons_append,List.nil_append]
    have ends := blankAfter.ends (ends_cons (.inr (.inr rfl)) rest)
    exact fields?_last (name?_stringText blankBefore name _) (value?_layout inner (by omega) blankGap ends)
      (blanks_append_cons blankAfter rfl rest)
  | more name blankBefore blankGap inner others =>
    simp only [List.length_append,List.length_cons] at enough
    obtain ⟨bound,rfl⟩ : ∃ less, bound = less + 1 := ⟨bound - 1,by omega⟩
    simp only [List.append_assoc,List.cons_append]
    rw [fields?_more (name?_stringText blankBefore name _)
      (value?_layout inner (by omega) blankGap (ends_cons (.inl rfl) _)) (blanks_append_cons allBlank_nil rfl _),
      fields?_layout others (by omega) rest,Option.map_some,List.map_cons]

end

end Reading

section Writing

mutual

theorem layout_compact {j : Json} (plain : isPlain j = true) : Layout j (compact j) := by
  match j with
  | .null | .boolean _ | .natural _ | .string _ =>
    simp only [compact]
    exact .scalar plain rfl
  | .numeral _ | .broken => simp [isPlain] at plain
  | .array [] => exact .emptyArray
  | .array (item :: rest) =>
    simp only [compact]
    exact .array (itemsLayout_compact (List.cons_ne_nil item rest) plain)
  | .object [] => exact .emptyObject
  | .object (field :: rest) =>
    simp only [compact]
    exact .object (fieldsLayout_compact (List.cons_ne_nil field rest) plain)

theorem itemsLayout_compact {items : List Json} (filled : items ≠ []) (plain : arePlain items = true) :
    ItemsLayout items (compactItems items ++ [']']) := by
  match items with
  | [] => contradiction
  | [item] =>
    have plainItem := (Bool.and_eq_true_iff.mp plain).1
    simpa [compactItems] using ItemsLayout.last allBlank_nil (layout_compact plainItem) allBlank_nil
  | item :: next :: rest =>
    obtain ⟨plainItem,plainRest⟩ := Bool.and_eq_true_iff.mp plain
    simpa [compactItems] using
      ItemsLayout.more allBlank_nil (layout_compact plainItem) (itemsLayout_compact (List.cons_ne_nil next rest) plainRest)

theorem fieldsLayout_compact {fields : List (String × Json)} (filled : fields ≠ [])
    (plain : fieldsArePlain fields = true) : FieldsLayout fields (compactFields fields ++ ['\x7d']) := by
  match fields with
  | [] => contradiction
  | [(name,value)] =>
    have plainValue := (Bool.and_eq_true_iff.mp plain).1
    simpa [compactFields] using
      FieldsLayout.last name allBlank_nil allBlank_nil (layout_compact plainValue) allBlank_nil
  | (name,value) :: next :: rest =>
    obtain ⟨plainValue,plainRest⟩ := Bool.and_eq_true_iff.mp plain
    simpa [compactFields] using
      FieldsLayout.more name allBlank_nil allBlank_nil (layout_compact plainValue)
        (fieldsLayout_compact (List.cons_ne_nil next rest) plainRest)

end

theorem allBlank_space : AllBlank [' '] := by
  intro c member
  rw [List.mem_singleton.mp member]
  rfl

mutual

theorem layout_prettyAt {j : Json} (plain : isPlain j = true) (level : Nat) : Layout j (prettyAt level j) := by
  match j with
  | .null | .boolean _ | .natural _ | .string _ =>
    simp only [prettyAt]
    exact .scalar plain rfl
  | .numeral _ | .broken => simp [isPlain] at plain
  | .array [] => exact .emptyArray
  | .array (item :: rest) =>
    simp only [prettyAt,List.cons_append,List.append_assoc]
    exact .array (itemsLayout_prettyItems (List.cons_ne_nil item rest) plain (level + 1) (allBlank_newline level))
  | .object [] => exact .emptyObject
  | .object (field :: rest) =>
    simp only [prettyAt,List.cons_append,List.append_assoc]
    exact .object (fieldsLayout_prettyFields (List.cons_ne_nil field rest) plain (level + 1) (allBlank_newline level))

theorem itemsLayout_prettyItems {items : List Json} (filled : items ≠ []) (plain : arePlain items = true) (level : Nat)
    {after : List Char} (blank : AllBlank after) :
    ItemsLayout items (prettyItems level items ++ (after ++ [']'])) := by
  match items with
  | [] => contradiction
  | [item] =>
    have plainItem := (Bool.and_eq_true_iff.mp plain).1
    simpa [prettyItems] using ItemsLayout.last (allBlank_newline level) (layout_prettyAt plainItem level) blank
  | item :: next :: rest =>
    obtain ⟨plainItem,plainRest⟩ := Bool.and_eq_true_iff.mp plain
    simpa [prettyItems] using
      ItemsLayout.more (allBlank_newline level) (layout_prettyAt plainItem level)
        (itemsLayout_prettyItems (List.cons_ne_nil next rest) plainRest level blank)

theorem fieldsLayout_prettyFields {fields : List (String × Json)} (filled : fields ≠ [])
    (plain : fieldsArePlain fields = true) (level : Nat) {after : List Char} (blank : AllBlank after) :
    FieldsLayout fields (prettyFields level fields ++ (after ++ ['\x7d'])) := by
  match fields with
  | [] => contradiction
  | [(name,value)] =>
    have plainValue := (Bool.and_eq_true_iff.mp plain).1
    simpa [prettyFields] using
      FieldsLayout.last name (allBlank_newline level) allBlank_space (layout_prettyAt plainValue level) blank
  | (name,value) :: next :: rest =>
    obtain ⟨plainValue,plainRest⟩ := Bool.and_eq_true_iff.mp plain
    simpa [prettyFields] using
      FieldsLayout.more name (allBlank_newline level) allBlank_space (layout_prettyAt plainValue level)
        (fieldsLayout_prettyFields (List.cons_ne_nil next rest) plainRest level blank)

end

theorem layout_pretty {j : Json} (plain : isPlain j = true) : Layout j j.pretty := layout_prettyAt plain 0

end Writing

/-- A whole text is read when nothing but blanks stands behind the value. -/
theorem parse?_layout_append {j : Json} {cs : List Char} (layout : Layout j cs) {after : List Char}
    (blank : AllBlank after) : parse? (String.ofList (cs ++ after)) = some j := by
  have ends : Ends (after ++ []) := blank.ends fun c first => by contradiction
  have none : blanks (after ++ []) = [] := blanks_append blank fun c first => by contradiction
  rw [List.append_nil] at ends none
  have enough : 2 * cs.length ≤ 2 * (cs ++ after).length + 2 := by
    rw [List.length_append]
    omega
  have read := value?_layout layout enough allBlank_nil ends
  rw [List.nil_append] at read
  simp only [parse?,String.toList_ofList,read]
  simp [none]

theorem parse?_layout {j : Json} {cs : List Char} (layout : Layout j cs) : parse? (String.ofList cs) = some j := by
  have read := parse?_layout_append layout allBlank_nil
  rwa [List.append_nil] at read

end ErrorMigration.Json
