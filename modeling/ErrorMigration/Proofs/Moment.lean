import ErrorMigration.Proofs.Calendar
import ErrorMigration.Proofs.Text.Digits
import Mathlib.Data.List.TakeWhile
import Mathlib.Data.Prod.Lex

/-! Time stamps. Each part of a stamp is read back whatever follows it, so the instant is; and an instant that is read
from any text is one that can be written. -/
namespace ErrorMigration.Moment

/-- What a clock can show: a year of the calendar, and a leap second only behind the last second of a minute. -/
structure InRange (m : Moment) : Prop where
  covered : Day.covers m.day.year = true
  nanos : m.nanos < nanosPerSecond ∨ m.nanos < 2 * nanosPerSecond ∧ m.seconds % 60 = 59

theorem trimStart_cons {c : Char} (visible : Text.isBlank c = false) (rest : List Char) :
    Text.trimStart (c :: rest) = c :: rest := by
  simp [Text.trimStart,visible]

theorem isBlank_of_isDigit {c : Char} (digit : c.isDigit = true) : Text.isBlank c = false := by
  have bounds := Text.toNat_of_isDigit digit
  simp only [Text.isBlank,Bool.or_eq_false_iff,Bool.and_eq_false_iff,decide_eq_false_iff_not,beq_eq_false_iff_ne]
  omega

/-- Digits are not blanks. -/
theorem trimStart_digits {digits : List Char} (all : ∀ c ∈ digits, c.isDigit = true) (filled : digits ≠ [])
    (rest : List Char) : Text.trimStart (digits ++ rest) = digits ++ rest := by
  obtain ⟨c,digits,rfl⟩ := List.exists_cons_of_ne_nil filled
  exact trimStart_cons (isBlank_of_isDigit (all c List.mem_cons_self)) _

theorem number?_zeroPadded {width n : Nat} (filled : 0 < width) (small : n < 10 ^ width) (rest : List Char) :
    number? width (Text.zeroPadded width n ++ rest) = some (n,rest) := by
  have all : ∀ c ∈ Text.zeroPadded width n, c.isDigit = true := fun _ => Text.isDigit_of_mem_zeroPadded
  have nonempty := Text.zeroPadded_ne_nil width n
  have length := Text.length_zeroPadded filled small
  have digits : ((Text.zeroPadded width n ++ rest).take width).takeWhile Char.isDigit = Text.zeroPadded width n := by
    rw [List.take_left' length,List.takeWhile_eq_self_iff.mpr all]
  simp only [number?,trimStart_digits all nonempty,digits,List.isEmpty_iff,nonempty,if_false,Text.numberOf_zeroPadded,
    List.drop_left]

theorem mark?_cons {c : Char} (visible : Text.isBlank c = false) (rest : List Char) :
    mark? c (c :: rest) = some rest := by
  rw [mark?,trimStart_cons visible]
  exact Text.skip?_eq_some_iff.mpr rfl

theorem two_append {n : Nat} (small : n < 100) (rest : List Char) : number? 2 (two n ++ rest) = some (n,rest) :=
  number?_zeroPadded (by decide) (by simpa using small) rest

/-- A year after a sign takes all digits that follow. -/
theorem signed_zeroPadded (n : Nat) {rest : List Char} (stops : ∀ c ∈ rest.head?, c.isDigit = false) :
    year?.signed (Text.zeroPadded 4 n ++ rest) = some (n,rest) := by
  have all : ∀ c ∈ Text.zeroPadded 4 n, c.isDigit = true := fun _ => Text.isDigit_of_mem_zeroPadded
  simp only [year?.signed,Text.takeWhile_digits all stops,List.isEmpty_iff,Text.zeroPadded_ne_nil,if_false,
    Text.numberOf_zeroPadded,List.drop_left]

theorem year?_of_digit {digits : List Char} (all : ∀ c ∈ digits, c.isDigit = true) (filled : digits ≠ [])
    (rest : List Char) : year? (digits ++ rest) = (number? 4 (digits ++ rest)).map fun p => ((p.1 : Int),p.2) := by
  rw [year?,trimStart_digits all filled]
  obtain ⟨c,digits,rfl⟩ := List.exists_cons_of_ne_nil filled
  have digit := all c List.mem_cons_self
  split
  · rename_i equal
    rw [(List.cons.inj equal).1] at digit
    contradiction
  · rename_i equal
    rw [(List.cons.inj equal).1] at digit
    contradiction
  · rfl

theorem year?_yearText (year : Int) {rest : List Char} (stops : ∀ c ∈ rest.head?, c.isDigit = false) :
    year? (yearText year ++ rest) = some (year,rest) := by
  unfold yearText
  split
  · rename_i plain
    simp only [Bool.and_eq_true,decide_eq_true_eq] at plain
    rw [year?_of_digit (fun _ => Text.isDigit_of_mem_zeroPadded) (Text.zeroPadded_ne_nil 4 _),
      number?_zeroPadded (by decide) (by omega),Option.map_some]
    simp [Int.toNat_of_nonneg plain.1]
  · split
    · rename_i negative
      rw [List.cons_append,year?,trimStart_cons (by decide)]
      simp only [signed_zeroPadded _ stops,Option.map_some,Option.some.injEq,Prod.mk.injEq,and_true]
      omega
    · rename_i large positive
      simp only [Bool.and_eq_true,decide_eq_true_eq,not_and_or] at large
      rw [List.cons_append,year?,trimStart_cons (by decide)]
      simp only [signed_zeroPadded _ stops,Option.map_some,Option.some.injEq,Prod.mk.injEq,and_true]
      omega

/-- A fraction of three, six or nine digits is read in nanoseconds. -/
theorem fraction?_zeroPadded {width n : Nat} (filled : 0 < width) (nine : width ≤ 9) (small : n < 10 ^ width)
    {rest : List Char} (stops : ∀ c ∈ rest.head?, c.isDigit = false) :
    fraction? ('.' :: (Text.zeroPadded width n ++ rest)) = some (n * 10 ^ (9 - width),rest) := by
  have all : ∀ c ∈ Text.zeroPadded width n, c.isDigit = true := fun _ => Text.isDigit_of_mem_zeroPadded
  have length := Text.length_zeroPadded filled small
  have whole : (Text.zeroPadded width n).take 9 = Text.zeroPadded width n := List.take_of_length_le (by omega)
  simp only [fraction?,Text.takeWhile_digits all stops,List.isEmpty_iff,Text.zeroPadded_ne_nil,if_false,whole,
    Text.numberOf_zeroPadded,List.drop_left]
  rw [length]
  rfl

theorem fraction?_fractionText {n : Nat} (small : n < nanosPerSecond) (rest : List Char) :
    fraction? (fractionText n ++ 'Z' :: rest) = some (n,'Z' :: rest) := by
  have stops : ∀ c ∈ ('Z' :: rest).head?, c.isDigit = false := by simp
  unfold nanosPerSecond at small
  unfold fractionText
  split
  · rename_i zero
    rw [zero]
    rfl
  split
  · rw [List.cons_append,fraction?_zeroPadded (by decide) (by decide) (by omega) stops]
    simp only [Option.some.injEq,Prod.mk.injEq,and_true]
    omega
  split
  · rw [List.cons_append,fraction?_zeroPadded (by decide) (by decide) (by omega) stops]
    simp only [Option.some.injEq,Prod.mk.injEq,and_true]
    omega
  · rw [List.cons_append,fraction?_zeroPadded (by decide) (by decide) (by omega) stops]
    simp

theorem secondOfDay_lt (m : Moment) : m.secondOfDay < 86400 := by
  have second : m.secondOfDay = (m.seconds % 86400).toNat := rfl
  omega

/-- A leap second is the only one with the number 60, and it is told on the one before it. -/
theorem secondOfMinute_cases (m : Moment) :
    m.isLeap = true ∧ m.secondOfMinute = 60 ∧ m.secondOfDay % 60 = 59 ∨
    m.isLeap = false ∧ m.secondOfMinute = m.secondOfDay % 60 := by
  unfold secondOfMinute
  cases leap : m.isLeap with
  | false => exact .inr ⟨rfl,if_neg Bool.false_ne_true⟩
  | true =>
    have last : m.seconds % 60 = 59 := by
      simp only [isLeap,Bool.and_eq_true,decide_eq_true_eq] at leap
      exact leap.2
    have second : m.secondOfDay = (m.seconds % 86400).toNat := rfl
    exact .inl ⟨rfl,if_pos rfl,by omega⟩

theorem secondOfMinute_le (m : Moment) : m.secondOfMinute ≤ 60 := by
  rcases m.secondOfMinute_cases with ⟨_,sixty,_⟩ | ⟨_,within⟩ <;> omega

theorem InRange.nanos_lt_iff {m : Moment} (shown : m.InRange) : m.nanos < nanosPerSecond ↔ m.isLeap = false := by
  have within := shown.nanos
  rw [← Bool.not_eq_true,isLeap,Bool.and_eq_true,decide_eq_true_eq,decide_eq_true_eq]
  omega

/-- The fields of an instant give it back. -/
theorem ofFields?_fields {m : Moment} (shown : m.InRange) :
    ofFields? m.day (m.secondOfDay / 3600) (m.secondOfDay / 60 % 60) m.secondOfMinute (m.nanos % nanosPerSecond) 0 =
      some m := by
  have valid : m.day.isValid = true := Day.isValid_ofNumber shown.covered
  have number : m.day.toNumber = m.seconds / 86400 := Day.toNumber_ofNumber _
  have second : m.secondOfDay = (m.seconds % 86400).toNat := rfl
  have within := shown.nanos
  have plain := shown.nanos_lt_iff
  have hours : m.secondOfDay / 3600 ≤ 23 := by omega
  have minutes : m.secondOfDay / 60 % 60 ≤ 59 := by omega
  have limit := m.secondOfMinute_le
  have day : (secondsPerDay : Int) = 86400 := rfl
  have billion : nanosPerSecond = 1000000000 := rfl
  rw [billion] at within plain
  -- the last second of a minute stands for two
  have fields : m.day.toNumber * secondsPerDay + (3600 * (m.secondOfDay / 3600) + 60 * (m.secondOfDay / 60 % 60) : Nat) +
        (if m.secondOfMinute = 60 then 59 else m.secondOfMinute : Nat) - 0 = m.seconds ∧
      (if m.secondOfMinute = 60 then m.nanos % 1000000000 + 1000000000 else m.nanos % 1000000000) = m.nanos := by
    rw [number,day]
    rcases m.secondOfMinute_cases with ⟨leap,sixty,last⟩ | ⟨ordinary,least⟩
    · have many : ¬ m.nanos < 1000000000 := by simp [plain,leap]
      simp only [sixty,if_true]
      omega
    · have few := plain.mpr ordinary
      have other : m.secondOfMinute ≠ 60 := by omega
      simp only [other,if_false]
      omega
  simp only [ofFields?,billion,fields.1,fields.2]
  rw [if_pos (by simp [valid,hours,minutes,limit,shown.covered,secondsPerDay])]

/-- A time stamp is read back as the instant that it was written for. -/
theorem ofText?_text {m : Moment} (shown : m.InRange) : ofText? m.text = some m := by
  obtain ⟨month,day⟩ : m.day.month ≤ 12 ∧ m.day.day ≤ 31 := Day.ofNumber_within _
  have secondOfDay := m.secondOfDay_lt
  have second := m.secondOfMinute_le
  have fraction : m.nanos % nanosPerSecond < nanosPerSecond := Nat.mod_lt _ (by decide)
  have dash (rest : List Char) : ∀ c ∈ ('-' :: rest).head?, c.isDigit = false := by simp
  simp only [ofText?,text,String.toList_ofList,List.append_assoc,List.cons_append]
  refine Option.bind_eq_some_iff.mpr ⟨_,year?_yearText m.day.year (dash _),?_⟩
  refine Option.bind_eq_some_iff.mpr ⟨_,mark?_cons (by decide) _,?_⟩
  refine Option.bind_eq_some_iff.mpr ⟨_,two_append (by omega) _,?_⟩
  refine Option.bind_eq_some_iff.mpr ⟨_,mark?_cons (by decide) _,?_⟩
  refine Option.bind_eq_some_iff.mpr ⟨_,two_append (by omega) _,?_⟩
  refine Option.bind_eq_some_iff.mpr ⟨_,two_append (by omega) _,?_⟩
  refine Option.bind_eq_some_iff.mpr ⟨_,mark?_cons (by decide) _,?_⟩
  refine Option.bind_eq_some_iff.mpr ⟨_,two_append (by omega) _,?_⟩
  refine Option.bind_eq_some_iff.mpr ⟨_,mark?_cons (by decide) _,?_⟩
  refine Option.bind_eq_some_iff.mpr ⟨_,two_append (by omega) _,?_⟩
  refine Option.bind_eq_some_iff.mpr ⟨_,fraction?_fractionText fraction [],?_⟩
  exact ofFields?_fields shown

theorem fraction?_lt {cs rest : List Char} {nanos : Nat} (read : fraction? cs = some (nanos,rest)) :
    nanos < nanosPerSecond := by
  unfold fraction? at read
  split at read
  · rename_i digits
    simp only [Option.ite_none_left_eq_some,Option.some.injEq,Prod.mk.injEq] at read
    obtain ⟨_,rfl,_⟩ := read
    generalize used : (digits.takeWhile Char.isDigit).take 9 = run
    have all : ∀ c ∈ run, c.isDigit = true := by
      intro c member
      rw [← used] at member
      exact List.mem_takeWhile_imp (List.mem_of_mem_take member)
    have short : run.length ≤ 9 := by
      rw [← used]
      exact List.length_take_le _ _
    calc Text.numberOf run * Nat.pow 10 (9 - run.length)
        < 10 ^ run.length * 10 ^ (9 - run.length) := Nat.mul_lt_mul_of_pos_right (Text.numberOf_lt all) (Nat.pow_pos (by decide))
      _ = nanosPerSecond := by rw [← pow_add,Nat.add_sub_cancel' short]; rfl
  · cases read
    decide

theorem clockOffset?_dvd {cs rest : List Char} {offset : Nat} (read : clockOffset? cs = some (offset,rest)) :
    60 ∣ offset := by
  unfold clockOffset? at read
  split at read
  · split at read
    · simp only [Option.ite_none_right_eq_some,Option.some.injEq,Prod.mk.injEq] at read
      omega
    · contradiction
  · contradiction

/-- Offsets are whole minutes. -/
theorem offset?_dvd {cs rest : List Char} {offset : Int} (read : offset? cs = some (offset,rest)) : 60 ∣ offset := by
  unfold offset? at read
  split at read
  · cases read
    exact dvd_zero _
  split at read
  · split at read
    · cases read
      exact dvd_zero _
    split at read
    · obtain ⟨⟨shift,_⟩,known,same⟩ := Option.map_eq_some_iff.mp read
      have minutes := clockOffset?_dvd known
      cases same
      exact Int.natCast_dvd_natCast.mpr minutes
    split at read
    · obtain ⟨⟨shift,_⟩,known,same⟩ := Option.map_eq_some_iff.mp read
      have minutes := clockOffset?_dvd known
      cases same
      exact (Int.natCast_dvd_natCast.mpr minutes).neg_right
    · contradiction
  · contradiction

theorem inRange_of_ofFields? {day : Day} {hour minute second nanos : Nat} {offset : Int} {m : Moment}
    (fraction : nanos < nanosPerSecond) (minutes : 60 ∣ offset)
    (read : ofFields? day hour minute second nanos offset = some m) : m.InRange := by
  simp only [ofFields?,Option.ite_none_right_eq_some,Option.some.injEq,Bool.and_eq_true] at read
  obtain ⟨⟨_,covered⟩,rfl⟩ := read
  refine ⟨covered,?_⟩
  by_cases leap : second = 60
  · right
    simp only [leap,if_true]
    have day : (secondsPerDay : Int) = 86400 := rfl
    rw [day]
    omega
  · left
    simpa [leap] using fraction

/-- Whatever is read can be written. -/
theorem inRange_of_ofText? {s : String} {m : Moment} (read : ofText? s = some m) : m.InRange := by
  simp only [ofText?] at read
  obtain ⟨_,_,read⟩ := Option.bind_eq_some_iff.mp read
  obtain ⟨_,_,read⟩ := Option.bind_eq_some_iff.mp read
  obtain ⟨_,_,read⟩ := Option.bind_eq_some_iff.mp read
  obtain ⟨_,_,read⟩ := Option.bind_eq_some_iff.mp read
  obtain ⟨_,_,read⟩ := Option.bind_eq_some_iff.mp read
  split at read
  · split at read
    · obtain ⟨_,_,read⟩ := Option.bind_eq_some_iff.mp read
      obtain ⟨_,_,read⟩ := Option.bind_eq_some_iff.mp read
      obtain ⟨_,_,read⟩ := Option.bind_eq_some_iff.mp read
      obtain ⟨_,_,read⟩ := Option.bind_eq_some_iff.mp read
      obtain ⟨_,_,read⟩ := Option.bind_eq_some_iff.mp read
      obtain ⟨_,_,read⟩ := Option.bind_eq_some_iff.mp read
      obtain ⟨_,fraction,read⟩ := Option.bind_eq_some_iff.mp read
      obtain ⟨_,offset,read⟩ := Option.bind_eq_some_iff.mp read
      obtain ⟨_,fields⟩ := Option.ite_none_right_eq_some.mp read
      exact inRange_of_ofFields? (fraction?_lt fraction) (offset?_dvd offset) fields
    · contradiction
  · contradiction

theorem two_isNumeral {n : Nat} (small : n < 100) : Text.IsNumeral (two n) 2 n :=
  .zeroPadded (by decide) (by simpa using small)

/-- Two digits at the end of a text can be told from what is before them. -/
theorem append_two_inj {front front' : List Char} {n n' : Nat} (small : n < 100) (small' : n' < 100)
    (same : front ++ two n = front' ++ two n') : front = front' ∧ n = n' := by
  have left := two_isNumeral small
  have right := two_isNumeral small'
  obtain ⟨fronts,digits⟩ := List.append_inj' same (by rw [left.length,right.length])
  exact ⟨fronts,by rw [← left.value,digits,right.value]⟩

theorem yearText_inj {year year' : Int} (same : yearText year = yearText year') : year = year' := by
  have stops : ∀ c ∈ ([] : List Char).head?, c.isDigit = false := by simp
  have read := year?_yearText year stops
  rw [same,year?_yearText year' stops] at read
  simpa using read.symm

/-- The second that an instant is in. A leap second comes behind the one that it is told on. -/
def second (m : Moment) : Int ×ₗ Bool := toLex (m.seconds,m.isLeap)

theorem second_eq_iff {a b : Moment} : a.second = b.second ↔ a.seconds = b.seconds ∧ a.isLeap = b.isLeap := by
  rw [second,second,EmbeddingLike.apply_eq_iff_eq,Prod.mk.injEq]

theorem second_lt_iff {a b : Moment} : a.second < b.second ↔
    a.seconds < b.seconds ∨ a.seconds = b.seconds ∧ a.isLeap = false ∧ b.isLeap = true := by
  rw [second,second,Prod.Lex.toLex_lt_toLex,Bool.lt_iff]

/-- Away from leap seconds the seconds are those that are counted. -/
theorem second_eq_iff_of_not_leap {a b : Moment} (ordinary : a.isLeap = false) (ordinary' : b.isLeap = false) :
    a.second = b.second ↔ a.seconds = b.seconds := by
  rw [second_eq_iff,ordinary,ordinary',and_iff_left rfl]

/-- The name of a run directory tells the second: its fields are read from the end, where each has two digits. -/
theorem second_eq_of_stamp_eq {m m' : Moment} (same : m.stamp = m'.stamp) : m.second = m'.second := by
  have time := m.secondOfDay_lt
  have time' := m'.secondOfDay_lt
  have limit := m.secondOfMinute_le
  have limit' := m'.secondOfMinute_le
  obtain ⟨month,day⟩ : m.day.month ≤ 12 ∧ m.day.day ≤ 31 := Day.ofNumber_within _
  obtain ⟨month',day'⟩ : m'.day.month ≤ 12 ∧ m'.day.day ≤ 31 := Day.ofNumber_within _
  have texts := String.ofList_injective same
  obtain ⟨toMinute,second⟩ := append_two_inj (by omega) (by omega) texts
  obtain ⟨toHour,minute⟩ := append_two_inj (by omega) (by omega) toMinute
  rw [List.append_cons _ _ (two _),List.append_cons _ _ (two _)] at toHour
  obtain ⟨date,hour⟩ := append_two_inj (by omega) (by omega) toHour
  rw [List.append_cancel_right_eq] at date
  obtain ⟨toMonth,dayOfMonth⟩ := append_two_inj (by omega) (by omega) date
  obtain ⟨year,monthOfYear⟩ := append_two_inj (by omega) (by omega) toMonth
  have days : m.day = m'.day := by
    rw [Day.mk.injEq]
    exact ⟨yearText_inj year,monthOfYear,dayOfMonth⟩
  have numbers := congrArg Day.toNumber days
  have number (m : Moment) : m.day.toNumber = m.seconds / 86400 := Day.toNumber_ofNumber _
  have rest : m.secondOfDay = (m.seconds % 86400).toNat := rfl
  have rest' : m'.secondOfDay = (m'.seconds % 86400).toNat := rfl
  rw [number,number] at numbers
  rw [second_eq_iff]
  rcases m.secondOfMinute_cases with ⟨leap,sixty,last⟩ | ⟨ordinary,least⟩ <;>
    rcases m'.secondOfMinute_cases with ⟨leap',sixty',last'⟩ | ⟨ordinary',least'⟩
  · exact ⟨by omega,leap.trans leap'.symm⟩
  · omega
  · omega
  · exact ⟨by omega,ordinary.trans ordinary'.symm⟩

theorem seconds_eq_of_stamp_eq {m m' : Moment} (same : m.stamp = m'.stamp) : m.seconds = m'.seconds :=
  (second_eq_iff.mp (second_eq_of_stamp_eq same)).1

end ErrorMigration.Moment
