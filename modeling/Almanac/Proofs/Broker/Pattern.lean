import Almanac.Broker.Topic
import Mathlib.Data.List.Forall2

/-! What topic patterns describe.
A pattern fits a routing key just when the words of the key can be cut into segments, one for each
word of the pattern. So wildcards for any number of words that stand side by side say no more than
one of them, and every text describes itself.
-/

namespace Almanac.Broker.Topic

variable {slots : List Slot} {pattern key : List (List Char)} {word : List Char}

-------------------------------------------------------------------------------
-- Segments
-------------------------------------------------------------------------------

/-- What a word of a pattern takes up of the words of a key: `#` any number of them, `*` one word
whatever it is, and any other word its equal. -/
inductive Takes : List Char → List (List Char) → Prop where
  | many (segment : List (List Char)) : Takes ['#'] segment
  | single (word : List Char) : Takes ['*'] [word]
  | exactly {word : List Char} (notMany : word ≠ ['#']) (notSingle : word ≠ ['*'])
    : Takes word [word]

/-- Whether the words of a key can be cut into segments, one for each word of a pattern in order. -/
def Covers (pattern key : List (List Char)) : Prop :=
  ∃ segments, segments.flatten = key ∧ List.Forall₂ Takes pattern segments

theorem covers_nil_iff : Covers [] key ↔ key = [] := by
  simp [Covers, eq_comm]

/-- The first word of a pattern takes up the first segment. -/
theorem covers_cons_iff
    : Covers (word :: pattern) key
      ↔ ∃ segment rest, key = segment ++ rest ∧ Takes word segment ∧ Covers pattern rest := by
  constructor
  · rintro ⟨segments, rfl, taken⟩
    obtain ⟨segment, segments, first, others, rfl⟩ := List.forall₂_cons_left_iff.mp taken
    exact ⟨segment, segments.flatten, rfl, first, segments, rfl, others⟩
  · rintro ⟨segment, _, rfl, first, segments, rfl, others⟩
    exact ⟨segment :: segments, rfl, .cons first others⟩

theorem takes_many_iff {segment : List (List Char)} : Takes ['#'] segment ↔ True := by
  simp [Takes.many]

-------------------------------------------------------------------------------
-- Slots
-------------------------------------------------------------------------------

theorem accepts_many (taken : accepts slots key) : accepts (.many :: slots) key := by
  cases key with
  | nil => rwa [accepts]
  | cons word key => simp [accepts, taken]

theorem accepts_many_cons (taken : accepts (.many :: slots) key) (word : List Char)
    : accepts (.many :: slots) (word :: key) := by
  simp [accepts, taken]

/-- A slot for any number of words leaves the others some end of the words, by induction on the
words. -/
theorem accepts_many_iff
    : accepts (.many :: slots) key ↔ ∃ segment rest, key = segment ++ rest ∧ accepts slots rest := by
  constructor
  · intro taken
    induction key with
    | nil => exact ⟨[], [], rfl, by rwa [accepts] at taken⟩
    | cons word key ih =>
        rw [accepts, Bool.or_eq_true] at taken
        rcases taken with none | one
        · exact ⟨[], word :: key, rfl, none⟩
        · obtain ⟨segment, rest, rfl, taken⟩ := ih one
          exact ⟨word :: segment, rest, rfl, taken⟩
  · rintro ⟨segment, rest, rfl, taken⟩
    induction segment with
    | nil => exact accepts_many taken
    | cons word segment ih => exact accepts_many_cons ih word

/-- The word that a slot is written as decides what it takes up. -/
theorem accepts_cons_iff
    : accepts (Slot.ofWord word :: slots) key
      ↔ ∃ segment rest, key = segment ++ rest ∧ Takes word segment ∧ accepts slots rest := by
  unfold Slot.ofWord
  split
  case h_1 => simp [accepts_many_iff, takes_many_iff]
  case h_2 =>
    constructor
    · intro taken
      cases key with
      | nil => simp [accepts] at taken
      | cons first key => exact ⟨[first], key, rfl, .single first, by simpa [accepts] using taken⟩
    · rintro ⟨segment, rest, rfl, first, taken⟩
      cases first with
      | single first => simpa [accepts] using taken
      | exactly _ notSingle => exact absurd rfl notSingle
  case h_3 notMany notSingle =>
    constructor
    · intro taken
      cases key with
      | nil => simp [accepts] at taken
      | cons first key =>
          simp only [accepts, Bool.and_eq_true, decide_eq_true_eq] at taken
          obtain ⟨rfl, taken⟩ := taken
          exact ⟨[first], key, rfl, .exactly notMany notSingle, taken⟩
    · rintro ⟨segment, rest, rfl, first, taken⟩
      cases first with
      | many => exact absurd rfl notMany
      | single => exact absurd rfl notSingle
      | exactly => simpa [accepts] using taken

/-- Slots accept what the words that they are written as cover, by induction on these. -/
theorem accepts_iff_covers : accepts (pattern.map Slot.ofWord) key ↔ Covers pattern key := by
  induction pattern generalizing key with
  | nil => simp [accepts, covers_nil_iff]
  | cons word pattern ih => simp [accepts_cons_iff, covers_cons_iff, ih]

/-- Words cover themselves, wildcards among them, by induction on the words. -/
theorem covers_self (key : List (List Char)) : Covers key key := by
  induction key with
  | nil => exact covers_nil_iff.mpr rfl
  | cons word key ih =>
      refine covers_cons_iff.mpr ⟨[word], key, rfl, ?_, ih⟩
      by_cases many : word = ['#']
      · exact many ▸ .many _
      · by_cases single : word = ['*']
        · exact single ▸ .single _
        · exact .exactly many single

theorem fits_self (key : String) : fits key key :=
  accepts_iff_covers.mpr (covers_self (words key))

-------------------------------------------------------------------------------
-- Words
-------------------------------------------------------------------------------

/-- The words of a text: there is no dot in any, and joined by dots they are the text. -/
structure Splits (text : String) (parts : List (List Char)) : Prop where
  some_word : parts ≠ []
  undotted : ∀ word ∈ parts, '.' ∉ word
  joined : ['.'].intercalate parts = text.toList

/-- What is cut at the dots has none left, by induction on the text. -/
theorem not_mem_of_mem_splitOnP (text : List Char)
    : ∀ word ∈ text.splitOnP (· = '.'), '.' ∉ word := by
  induction text with
  | nil => simp
  | cons c text ih =>
      rw [List.splitOnP_cons_eq_if_modifyHead]
      split
      · simpa using ih
      · rename_i plain
        cases parts : text.splitOnP (· = '.') with
        | nil => simp
        | cons first rest =>
            rw [parts] at ih
            obtain ⟨head, others⟩ := List.forall_mem_cons.mp ih
            refine List.forall_mem_cons.mpr ⟨?_, others⟩
            rw [List.mem_cons, not_or]
            exact ⟨fun same => plain (by simp [← same]), head⟩

/-- The words of a text split it at its dots, and at every one. -/
theorem splits_words (text : String) : Splits text (words text) where
  some_word := List.splitOnP_ne_nil _ _
  undotted := not_mem_of_mem_splitOnP text.toList
  joined := List.intercalate_splitOn '.'

/-- A text has its words in one way. -/
theorem Splits.words_eq {text : String} {parts : List (List Char)} (h : Splits text parts)
    : words text = parts := by
  have split := List.splitOn_intercalate '.' h.undotted h.some_word
  rw [h.joined] at split
  exact split

-------------------------------------------------------------------------------
-- Wildcards side by side
-------------------------------------------------------------------------------

/-- A pattern with one `#` in place of all that stand side by side. -/
def collapse : List (List Char) → List (List Char)
  | [] => []
  | word :: rest =>
      if word = ['#'] ∧ rest.head? = some ['#'] then collapse rest else word :: collapse rest

/-- The text of a pattern with one `#` in place of all that stand side by side. -/
def collapsed (pattern : String) : String :=
  .ofList (['.'].intercalate (collapse (words pattern)))

theorem collapse_sublist (pattern : List (List Char)) : (collapse pattern).Sublist pattern := by
  induction pattern with
  | nil => exact .slnil
  | cons word rest ih =>
      rw [collapse]
      split
      · exact ih.cons word
      · exact ih.cons_cons word

theorem collapse_ne_nil (nonempty : pattern ≠ []) : collapse pattern ≠ [] := by
  induction pattern with
  | nil => exact absurd rfl nonempty
  | cons word rest ih =>
      rw [collapse]
      split
      · rename_i twice
        exact ih fun none => by simp [none] at twice
      · exact List.cons_ne_nil _ _

/-- A second `#` takes up nothing that the first one cannot. -/
theorem covers_many_many_iff
    : Covers (['#'] :: ['#'] :: pattern) key ↔ Covers (['#'] :: pattern) key := by
  simp only [covers_cons_iff, takes_many_iff, true_and]
  constructor
  · rintro ⟨first, _, rfl, second, rest, rfl, covers⟩
    exact ⟨first ++ second, rest, by rw [List.append_assoc], covers⟩
  · rintro ⟨segment, rest, rfl, covers⟩
    exact ⟨segment, rest, rfl, [], rest, rfl, covers⟩

/-- Collapsing changes nothing, by induction on the pattern. -/
theorem covers_collapse_iff : Covers (collapse pattern) key ↔ Covers pattern key := by
  induction pattern generalizing key with
  | nil => rfl
  | cons word rest ih =>
      rw [collapse]
      split
      · rename_i twice
        obtain ⟨rfl, next⟩ := twice
        obtain ⟨rest, rfl⟩ := List.head?_eq_some_iff.mp next
        rw [ih, covers_many_many_iff]
      · simp only [covers_cons_iff, ih]

theorem splits_collapsed (pattern : String)
    : Splits (collapsed pattern) (collapse (words pattern)) where
  some_word := collapse_ne_nil (splits_words pattern).some_word
  undotted word member :=
    (splits_words pattern).undotted word ((collapse_sublist _).subset member)
  joined := (String.toList_ofList).symm

/-- Collapsing adjacent wildcards changes no match. -/
theorem fits_collapsed (pattern key : String)
    : fits (collapsed pattern) key = fits pattern key := by
  rw [Bool.eq_iff_iff, fits, fits, accepts_iff_covers, accepts_iff_covers,
    (splits_collapsed pattern).words_eq, covers_collapse_iff]

/-- A pattern fits a key just when the words of the key can be cut into segments, one for each word
of the pattern. Wildcards for any number of words count once where they stand side by side, and
every text fits itself. -/
theorem fits_iff_covers (pattern key : String)
    : (fits pattern key
          ↔ ∃ slots parts, Splits pattern slots ∧ Splits key parts ∧ Covers slots parts)
        ∧ fits (collapsed pattern) key = fits pattern key
        ∧ fits key key := by
  refine ⟨?_, fits_collapsed pattern key, fits_self key⟩
  rw [fits, accepts_iff_covers]
  constructor
  · exact fun covers => ⟨_, _, splits_words pattern, splits_words key, covers⟩
  · rintro ⟨slots, parts, split, split', covers⟩
    rwa [split.words_eq, split'.words_eq]

end Almanac.Broker.Topic
