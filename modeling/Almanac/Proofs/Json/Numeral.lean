import Almanac.Json.Reader

/-! Numbers of documents.
A numeral has an optional minus sign, a whole number without leading zeros, an optional fraction and
an optional exponent. It is read up to the first character that no numeral has.
-/

namespace Almanac.Json

open Text (Symbol)

-------------------------------------------------------------------------------
-- The form of numerals
-------------------------------------------------------------------------------

/-- Digits, at least one. -/
structure Digits (s : List Char) : Prop where
  nonempty : s ≠ []
  all : ∀ c ∈ s, c.isDigit

/-- A whole number: only zero begins with a zero. -/
structure Whole (s : List Char) : Prop where
  digits : Digits s
  leading : s.head? ≠ some '0' ∨ s = ['0']

inductive Fraction : List Char → Prop where
  | absent : Fraction []
  | present {digits : List Char} (some_digit : Digits digits) : Fraction ('.' :: digits)

inductive Exponent : List Char → Prop where
  | absent : Exponent []
  | present {mark : Char} {sign digits : List Char} (letter : mark = 'e' ∨ mark = 'E')
    (signs : sign = [] ∨ sign = ['+'] ∨ sign = ['-']) (some_digit : Digits digits)
    : Exponent (mark :: (sign ++ digits))

/-- A numeral without a sign. -/
structure Unsigned (whole fraction exponent : List Char) : Prop where
  whole : Whole whole
  fraction : Fraction fraction
  exponent : Exponent exponent

/-- The form of a numeral. -/
inductive Numeral : List Char → Prop where
  | plain {whole fraction exponent : List Char} (unsigned : Unsigned whole fraction exponent)
    : Numeral (whole ++ (fraction ++ exponent))
  | negative {whole fraction exponent : List Char} (unsigned : Unsigned whole fraction exponent)
    : Numeral ('-' :: (whole ++ (fraction ++ exponent)))

-------------------------------------------------------------------------------
-- Digits and what follows them
-------------------------------------------------------------------------------

/-- Digits begin with a digit, as there is one at least. -/
theorem Digits.exists_cons {s : List Char} (digits : Digits s)
    : ∃ c tail, s = c :: tail ∧ c.isDigit := by
  cases s with
  | nil => exact absurd rfl digits.nonempty
  | cons c tail => exact ⟨c, tail, rfl, digits.all c List.mem_cons_self⟩

/-- Whether no digit comes first. -/
def Stops (rest : List Char) : Prop :=
  ∀ c ∈ rest.head?, c.isDigit = false

/-- Digits are taken whole where what follows is no digit. -/
theorem takeWhile_append_of_stops {digits rest : List Char} (all : ∀ c ∈ digits, c.isDigit)
    (stops : Stops rest)
    : (digits ++ rest).takeWhile Char.isDigit = digits := by
  rw [List.takeWhile_append_of_pos all]
  cases rest with
  | nil => simp
  | cons c tail => simp [stops c rfl]

/-- What follows digits is left as it is, where it is no digit. -/
theorem dropWhile_append_of_stops {digits rest : List Char} (all : ∀ c ∈ digits, c.isDigit)
    (stops : Stops rest)
    : (digits ++ rest).dropWhile Char.isDigit = rest := by
  rw [List.dropWhile_append_of_pos all]
  cases rest with
  | nil => rfl
  | cons c tail => simp [stops c rfl]

/-- An exponent begins with its letter, if there is one, so digits in front of it stop. -/
theorem Exponent.stops {s : List Char} (exponent : Exponent s) : Stops s := by
  cases exponent with
  | absent => exact nofun
  | present letter => rcases letter with rfl | rfl <;> simp [Stops]

/-- What follows the whole part of a numeral begins with a point or a letter or is empty. -/
theorem Fraction.stops_append {fraction exponent : List Char} (isFraction : Fraction fraction)
    (isExponent : Exponent exponent)
    : Stops (fraction ++ exponent) := by
  cases isFraction with
  | absent => exact isExponent.stops
  | present => simp [Stops]

/-- A run of leading digits that is not empty is digits. -/
theorem digits_takeWhile {s : List Char} (some_digit : !(s.takeWhile Char.isDigit).isEmpty)
    : Digits (s.takeWhile Char.isDigit) where
  nonempty := by simpa using some_digit
  all := List.all_eq_true.mp List.all_takeWhile

-------------------------------------------------------------------------------
-- Numerals
-------------------------------------------------------------------------------

/-- The check of exponents accepts the forms of an exponent and nothing else. -/
theorem isExponent_iff {s : List Char} : isExponent s ↔ Exponent s := by
  constructor
  · intro exponent
    cases s with
    | nil => exact .absent
    | cons mark rest =>
        simp only [isExponent, Bool.and_eq_true, Bool.or_eq_true, decide_eq_true_eq] at exponent
        obtain ⟨⟨letter, nonempty⟩, all⟩ := exponent
        split at nonempty
        case h_1 digits =>
            exact .present letter (.inr (.inl rfl)) ⟨by simpa using nonempty, by simpa using all⟩
        case h_2 digits =>
            exact .present letter (.inr (.inr rfl)) ⟨by simpa using nonempty, by simpa using all⟩
        case h_3 =>
            exact .present letter (.inl rfl) ⟨by simpa using nonempty, by simpa using all⟩
  · intro exponent
    cases exponent with
    | absent => rfl
    | @present mark sign digits letter signs some_digit =>
        obtain ⟨c, tail, rfl, digit⟩ := some_digit.exists_cons
        have all := List.all_eq_true.mpr some_digit.all
        rcases signs with rfl | rfl | rfl
        · have plus : c ≠ '+' := by
            rintro rfl
            cases digit
          have minus : c ≠ '-' := by
            rintro rfl
            cases digit
          simpa [isExponent, letter, plus, minus] using all
        · simpa [isExponent, letter] using all
        · simpa [isExponent, letter] using all

/-- The check of what follows the whole part accepts a fraction and then an exponent; the digits
are cut where no digit follows. -/
theorem isFraction_iff {s : List Char}
    : isFraction s
      ↔ ∃ fraction exponent, Fraction fraction ∧ Exponent exponent ∧ s = fraction ++ exponent := by
  constructor
  · intro found
    unfold isFraction at found
    split at found
    case h_1 rest =>
        obtain ⟨some_digit, exponent⟩ := Bool.and_eq_true_iff.mp found
        refine ⟨_, _, .present (digits_takeWhile some_digit), isExponent_iff.mp exponent, ?_⟩
        rw [List.cons_append, List.takeWhile_append_dropWhile]
    case h_2 => exact ⟨[], s, .absent, isExponent_iff.mp found, rfl⟩
  · rintro ⟨fraction, exponent, isFraction, isExponent, rfl⟩
    cases isFraction with
    | absent =>
        have found := isExponent_iff.mpr isExponent
        cases isExponent with
        | absent => rfl
        | present letter => rcases letter with rfl | rfl <;> exact found
    | present some_digit =>
        have nonempty := some_digit.nonempty
        rw [List.cons_append, Json.isFraction,
          takeWhile_append_of_stops some_digit.all isExponent.stops,
          dropWhile_append_of_stops some_digit.all isExponent.stops]
        simpa [nonempty] using isExponent_iff.mpr isExponent

/-- The test of a numeral behind its sign. -/
def isUnsigned (s : List Char) : Bool :=
  let whole := s.takeWhile Char.isDigit
  !whole.isEmpty && (whole.head? ≠ some '0' || whole.length = 1)
    && isFraction (s.dropWhile Char.isDigit)

/-- A sign is followed by a number without one. -/
theorem isNumeral_negative (s : List Char) : isNumeral ('-' :: s) = isUnsigned s := rfl

/-- Without a sign the whole text is the number. -/
theorem isNumeral_plain {c : Char} (bare : c ≠ '-') (s : List Char)
    : isNumeral (c :: s) = isUnsigned (c :: s) := by
  unfold isNumeral
  split
  case h_1 same => exact absurd (List.cons.inj same).1 bare
  case h_2 => rfl

/-- The check of unsigned numbers accepts a whole part, a fraction and an exponent in a row. -/
theorem isUnsigned_iff {s : List Char}
    : isUnsigned s
      ↔ ∃ whole fraction exponent, Unsigned whole fraction exponent
          ∧ s = whole ++ (fraction ++ exponent) := by
  constructor
  · intro found
    simp only [isUnsigned, Bool.and_eq_true, Bool.or_eq_true, decide_eq_true_eq] at found
    obtain ⟨⟨some_digit, leading⟩, rest⟩ := found
    obtain ⟨fraction, exponent, isFraction, isExponent, rest_eq⟩ := isFraction_iff.mp rest
    refine ⟨_, fraction, exponent, ⟨⟨digits_takeWhile some_digit, ?_⟩, isFraction, isExponent⟩, ?_⟩
    · rcases leading with other | single
      · exact .inl other
      · obtain ⟨c, single⟩ := List.length_eq_one_iff.mp single
        rw [single]
        by_cases zero : c = '0' <;> simp [zero]
    · rw [← rest_eq, List.takeWhile_append_dropWhile]
  · rintro ⟨whole, fraction, exponent, ⟨⟨digits, leading⟩, isFraction, isExponent⟩, rfl⟩
    have rest := isFraction_iff.mpr ⟨fraction, exponent, isFraction, isExponent, rfl⟩
    have nonempty := digits.nonempty
    have stops := isFraction.stops_append isExponent
    rw [isUnsigned, takeWhile_append_of_stops digits.all stops,
      dropWhile_append_of_stops digits.all stops]
    rcases leading with other | rfl
    · simp [nonempty, other, rest]
    · simp [rest]

/-- What is read as a numeral has the form of one, and nothing else has. -/
theorem isNumeral_iff {s : List Char} : isNumeral s ↔ Numeral s := by
  constructor
  · intro found
    cases s with
    | nil => cases found
    | cons c s =>
        by_cases bare : c = '-'
        · subst bare
          rw [isNumeral_negative, isUnsigned_iff] at found
          obtain ⟨whole, fraction, exponent, unsigned, rfl⟩ := found
          exact .negative unsigned
        · rw [isNumeral_plain bare, isUnsigned_iff] at found
          obtain ⟨whole, fraction, exponent, unsigned, same⟩ := found
          exact same ▸ .plain unsigned
  · intro numeral
    cases numeral with
    | negative unsigned =>
        rw [isNumeral_negative, isUnsigned_iff]
        exact ⟨_, _, _, unsigned, rfl⟩
    | plain unsigned =>
        have found := isUnsigned_iff.mpr ⟨_, _, _, unsigned, rfl⟩
        obtain ⟨c, tail, rfl, digit⟩ := unsigned.whole.digits.exists_cons
        have bare : c ≠ '-' := by
          rintro rfl
          cases digit
        rwa [List.cons_append, isNumeral_plain bare, ← List.cons_append]

-------------------------------------------------------------------------------
-- Reading numbers
-------------------------------------------------------------------------------

/-- Digits are among the characters of numerals. -/
theorem isNumeric_of_isDigit {c : Char} (digit : c.isDigit) : isNumeric c := by
  simp [isNumeric, digit]

/-- Exponents have characters of numerals only. -/
theorem Exponent.isNumeric {s : List Char} (exponent : Exponent s)
    : ∀ c ∈ s, isNumeric c := by
  cases exponent with
  | absent => exact nofun
  | present letter signs some_digit =>
      have digits := fun c mem => isNumeric_of_isDigit (some_digit.all c mem)
      refine List.forall_mem_cons.mpr ⟨by rcases letter with rfl | rfl <;> rfl, ?_⟩
      refine List.forall_mem_append.mpr ⟨?_, digits⟩
      rcases signs with rfl | rfl | rfl <;> simp [Json.isNumeric]

/-- Unsigned numbers have characters of numerals only, part by part. -/
theorem Unsigned.isNumeric {whole fraction exponent : List Char}
    (unsigned : Unsigned whole fraction exponent)
    : ∀ c ∈ whole ++ (fraction ++ exponent), isNumeric c := by
  obtain ⟨isWhole, isFraction, isExponent⟩ := unsigned
  have digits {s : List Char} (some_digit : Digits s) : ∀ c ∈ s, Json.isNumeric c :=
    fun c mem => isNumeric_of_isDigit (some_digit.all c mem)
  refine List.forall_mem_append.mpr
    ⟨digits isWhole.digits, List.forall_mem_append.mpr ⟨?_, isExponent.isNumeric⟩⟩
  cases isFraction with
  | absent => exact nofun
  | present some_digit => exact List.forall_mem_cons.mpr ⟨rfl, digits some_digit⟩

/-- A numeral has numeric characters only. -/
theorem Numeral.isNumeric {s : List Char} (numeral : Numeral s) : ∀ c ∈ s, isNumeric c := by
  cases numeral with
  | plain unsigned => exact unsigned.isNumeric
  | negative unsigned => exact List.forall_mem_cons.mpr ⟨rfl, unsigned.isNumeric⟩

/-- A numeral begins with one of its characters, since the empty text is none. -/
theorem Numeral.exists_cons {s : List Char} (numeral : Numeral s)
    : ∃ c tail, s = c :: tail ∧ Json.isNumeric c := by
  have numeric := numeral.isNumeric
  cases s with
  | nil => exact absurd (isNumeral_iff.mpr numeral) (by decide)
  | cons c tail => exact ⟨c, tail, rfl, numeric c List.mem_cons_self⟩

/-- No numeral goes on here. -/
def Ends (rest : List Symbol) : Prop :=
  ∀ c tail, rest = .char c :: tail → isNumeric c = false

/-- A run of numeric characters is read whole where a numeral may end; by induction on the run. -/
theorem numericRun_append {run : List Char} (numeric : ∀ c ∈ run, isNumeric c) {rest : List Symbol}
    (ends : Ends rest)
    : numericRun (run.map .char ++ rest) = (run, rest) := by
  induction run with
  | nil =>
      cases rest with
      | nil => rfl
      | cons symbol tail =>
          cases symbol with
          | char c => simp [numericRun, ends c tail rfl]
          | stray b => rfl
  | cons c run ih =>
      have first : isNumeric c := numeric c List.mem_cons_self
      have others := ih fun d mem => numeric d (List.mem_cons_of_mem c mem)
      simp [numericRun, first, others]

/-- A numeral is read as it is written where it may end. -/
theorem numeral?_append {literal : String} (numeral : Numeral literal.toList) {rest : List Symbol}
    (ends : Ends rest)
    : numeral? (literal.toList.map .char ++ rest) = some (.number literal, rest) := by
  simp [numeral?, numericRun_append numeral.isNumeric ends, isNumeral_iff.mpr numeral]

/-- The run that is read and the rest make up the text. -/
theorem numericRun_append_self (s : List Symbol)
    : (numericRun s).1.map .char ++ (numericRun s).2 = s := by
  fun_induction numericRun s with
  | case1 c rest numeric run tail read ih => simpa [read] using ih
  | case2 => rfl
  | case3 => rfl

/-- What is read as a number is a numeral in front of the rest. -/
theorem of_numeral? {s rest : List Symbol} {document : Json}
    (read : numeral? s = some (document, rest))
    : ∃ literal, document = .number literal ∧ Numeral literal.toList
        ∧ s = literal.toList.map .char ++ rest := by
  simp only [numeral?] at read
  split at read
  case isTrue numeral =>
      cases read
      refine ⟨.ofList (numericRun s).1, rfl, ?_, ?_⟩ <;> rw [String.toList_ofList]
      · exact isNumeral_iff.mp numeral
      · exact (numericRun_append_self s).symm
  case isFalse => cases read

end Almanac.Json
