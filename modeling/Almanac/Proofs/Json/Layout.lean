import Almanac.Proofs.Json.Numeral
import Almanac.Proofs.Json.Spelling

/-! The texts of documents.
A text has the tokens of a document in their order, each spelled in one of its ways, and blanks
wherever two tokens meet. A document is read from its texts, and from nothing else.
-/

namespace Almanac.Json

open Text (Symbol)

-------------------------------------------------------------------------------
-- Tokens
-------------------------------------------------------------------------------

/-- The tokens that texts of documents are made of. -/
inductive Token where
  | null
  | bool (b : Bool)
  | number (literal : String)
  | string (content : Option String)
  | arrayStart
  | arrayEnd
  | objectStart
  | objectEnd
  | comma
  | colon

/-- The ways to spell a token. -/
inductive Token.Spelled : Token → List Symbol → Prop where
  | null : Spelled .null ("null".toList.map .char)
  | bool (b : Bool) : Spelled (.bool b) ((toString b).toList.map .char)
  | number {literal : String} (numeral : Numeral literal.toList)
    : Spelled (.number literal) (literal.toList.map .char)
  | string {content : Option String} {body : List Symbol} (spelled : Content content body)
    : Spelled (.string content) (.char '"' :: body ++ [.char '"'])
  | arrayStart : Spelled .arrayStart [.char '[']
  | arrayEnd : Spelled .arrayEnd [.char ']']
  | objectStart : Spelled .objectStart [.char '\x7b']
  | objectEnd : Spelled .objectEnd [.char '\x7d']
  | comma : Spelled .comma [.char ',']
  | colon : Spelled .colon [.char ':']

mutual

/-- The tokens of a document in the order of its texts. -/
def tokens : Json → List Token
  | .null => [.null]
  | .bool b => [.bool b]
  | .number literal => [.number literal]
  | .string content => [.string content]
  | .array items => .arrayStart :: itemTokens items ++ [.arrayEnd]
  | .object members => .objectStart :: memberTokens members ++ [.objectEnd]

/-- The tokens of the items of an array, with commas between them. -/
def itemTokens : List Json → List Token
  | [] => []
  | [item] => tokens item
  | item :: items => tokens item ++ .comma :: itemTokens items

/-- The tokens of the members of an object, with commas between them. -/
def memberTokens : List (Option String × Json) → List Token
  | [] => []
  | [(name, item)] => .string name :: .colon :: tokens item
  | (name, item) :: members =>
      .string name :: .colon :: (tokens item ++ .comma :: memberTokens members)

end

/-- An item that others follow is set off by a comma. -/
theorem itemTokens_cons (item : Json) {items : List Json} (others : items ≠ [])
    : itemTokens (item :: items) = tokens item ++ .comma :: itemTokens items := by
  rw [itemTokens]
  exact others

/-- A member that others follow is set off by a comma. -/
theorem memberTokens_cons (name : Option String) (item : Json)
    {members : List (Option String × Json)} (others : members ≠ [])
    : memberTokens ((name, item) :: members)
        = .string name :: .colon :: (tokens item ++ .comma :: memberTokens members) := by
  rw [memberTokens]
  exact others

/-- The tokens of items start with the first item. -/
theorem exists_itemTokens_append (item : Json) (items : List Json) (more : List Token)
    : ∃ others, itemTokens (item :: items) ++ more = tokens item ++ others := by
  cases items with
  | nil => exact ⟨more, by rw [itemTokens]⟩
  | cons next items => exact ⟨_, by rw [itemTokens_cons item (by simp), List.append_assoc]⟩

/-- The tokens of members start with the name of the first member. -/
theorem exists_memberTokens_append (member : Option String × Json)
    (members : List (Option String × Json)) (more : List Token)
    : ∃ others, memberTokens (member :: members) ++ more = .string member.1 :: others := by
  cases members with
  | nil => exact ⟨_, by rw [memberTokens, List.cons_append]⟩
  | cons next members => exact ⟨_, by rw [memberTokens_cons _ _ (by simp), List.cons_append]⟩

/-- Whether a symbol is a blank of documents. -/
def IsBlank (symbol : Symbol) : Prop :=
  symbol ∈ [.char ' ', .char '\t', .char '\n', .char '\x0d']

/-- Whether symbols are tokens in a row, with blanks before, between and after them. -/
inductive Lays : List Token → List Symbol → Prop where
  | nil {blanks : List Symbol} (blank : ∀ symbol ∈ blanks, IsBlank symbol) : Lays [] blanks
  | cons {t : Token} {ts : List Token} {blanks front back : List Symbol}
    (blank : ∀ symbol ∈ blanks, IsBlank symbol) (first : t.Spelled front) (others : Lays ts back)
    : Lays (t :: ts) (blanks ++ (front ++ back))

/-- Whether a byte string is a text of a document. -/
def IsText (document : Json) (payload : List UInt8) : Prop :=
  Lays (tokens document) (Text.Utf8.symbols payload)

-------------------------------------------------------------------------------
-- Blanks
-------------------------------------------------------------------------------

instance : DecidablePred IsBlank := fun symbol =>
  inferInstanceAs (Decidable (symbol ∈ [.char ' ', .char '\t', .char '\n', .char '\x0d']))

/-- Where ink stands first there is nothing to skip. -/
theorem skipSpace_of_not_isBlank {symbol : Symbol} (ink : ¬IsBlank symbol) (rest : List Symbol)
    : skipSpace (symbol :: rest) = symbol :: rest := by
  simp only [IsBlank, List.mem_cons, List.not_mem_nil, or_false, not_or] at ink
  simp [skipSpace, ink]

/-- Blanks in front are skipped, by induction on them. -/
theorem skipSpace_append {blanks : List Symbol} (blank : ∀ symbol ∈ blanks, IsBlank symbol)
    (rest : List Symbol)
    : skipSpace (blanks ++ rest) = skipSpace rest := by
  induction blanks with
  | nil => rfl
  | cons symbol blanks ih =>
      obtain ⟨first, others⟩ := List.forall_mem_cons.mp blank
      have shown := ih others
      simp only [IsBlank, List.mem_cons, List.not_mem_nil, or_false] at first
      rcases first with rfl | rfl | rfl | rfl <;> simpa [skipSpace] using shown

/-- One blank more in front of blanks is still blanks. -/
theorem exists_blanks_cons {symbol : Symbol} (first : IsBlank symbol) {s rest : List Symbol}
    (others : ∃ blanks, (∀ symbol ∈ blanks, IsBlank symbol) ∧ s = blanks ++ rest)
    : ∃ blanks, (∀ symbol ∈ blanks, IsBlank symbol) ∧ symbol :: s = blanks ++ rest := by
  obtain ⟨blanks, blank, rfl⟩ := others
  exact ⟨symbol :: blanks, List.forall_mem_cons.mpr ⟨first, blank⟩, rfl⟩

/-- What is skipped are blanks. -/
theorem exists_blanks (s : List Symbol)
    : ∃ blanks, (∀ symbol ∈ blanks, IsBlank symbol) ∧ s = blanks ++ skipSpace s := by
  fun_induction skipSpace s with
  | case1 rest ih => exact exists_blanks_cons (by decide) ih
  | case2 rest ih => exact exists_blanks_cons (by decide) ih
  | case3 rest ih => exact exists_blanks_cons (by decide) ih
  | case4 rest ih => exact exists_blanks_cons (by decide) ih
  | case5 => exact ⟨[], nofun, rfl⟩

/-- Skipping twice is skipping once, since what is left begins with ink or is empty. -/
theorem skipSpace_skipSpace (s : List Symbol) : skipSpace (skipSpace s) = skipSpace s := by
  obtain ⟨blanks, blank, split⟩ := exists_blanks s
  calc skipSpace (skipSpace s)
      = skipSpace (blanks ++ skipSpace s) := (skipSpace_append blank _).symm
    _ = skipSpace s := by rw [← split]

/-- No character of a numeral is a blank. -/
theorem not_isBlank_of_isNumeric {c : Char} (numeric : isNumeric c) : ¬IsBlank (.char c) := by
  simp only [IsBlank, List.mem_cons, Symbol.char.injEq, List.not_mem_nil, or_false]
  rintro (rfl | rfl | rfl | rfl) <;> exact absurd numeric (by decide)

-------------------------------------------------------------------------------
-- Tokens in a row
-------------------------------------------------------------------------------

/-- A spelled token starts with a character that is no blank. -/
theorem Token.Spelled.exists_cons {t : Token} {front : List Symbol} (spelled : t.Spelled front)
    : ∃ c tail, front = .char c :: tail ∧ ¬IsBlank (.char c) := by
  cases spelled with
  | number numeral =>
      obtain ⟨c, tail, chars, numeric⟩ := numeral.exists_cons
      exact ⟨c, tail.map .char, by rw [chars, List.map_cons], not_isBlank_of_isNumeric numeric⟩
  | bool b => cases b <;> exact ⟨_, _, rfl, by decide⟩
  | _ => exact ⟨_, _, rfl, by decide⟩

/-- A spelled token begins with ink, so nothing is skipped in front of it. -/
theorem Token.Spelled.skipSpace_append {t : Token} {front : List Symbol} (spelled : t.Spelled front)
    (back : List Symbol)
    : skipSpace (front ++ back) = front ++ back := by
  obtain ⟨c, tail, rfl, ink⟩ := spelled.exists_cons
  exact skipSpace_of_not_isBlank ink _

/-- No token is laid out exactly by blanks. -/
theorem lays_nil_iff {s : List Symbol} : Lays [] s ↔ skipSpace s = [] := by
  constructor
  · rintro ⟨blank⟩
    exact List.append_nil s ▸ skipSpace_append blank []
  · intro empty
    obtain ⟨blanks, blank, split⟩ := exists_blanks s
    rw [split, empty, List.append_nil]
    exact .nil blank

/-- A layout of tokens is its blanks, the first token and a layout of the others; read off the
text, it starts where the blanks end. -/
theorem lays_cons_iff {t : Token} {ts : List Token} {s : List Symbol}
    : Lays (t :: ts) s
      ↔ ∃ front back, t.Spelled front ∧ skipSpace s = front ++ back ∧ Lays ts back := by
  constructor
  · rintro (_ | ⟨blank, first, others⟩)
    exact ⟨_, _, first, by rw [skipSpace_append blank, first.skipSpace_append], others⟩
  · rintro ⟨front, back, first, same, others⟩
    obtain ⟨blanks, blank, split⟩ := exists_blanks s
    rw [split, same]
    exact .cons blank first others

/-- A further blank in front lays out the same tokens. -/
theorem Lays.blank_cons {ts : List Token} {s : List Symbol} (lays : Lays ts s) {symbol : Symbol}
    (blank : IsBlank symbol)
    : Lays ts (symbol :: s) := by
  have same := skipSpace_append (List.forall_mem_singleton.mpr blank) s
  cases ts with
  | nil => rwa [lays_nil_iff, ← List.singleton_append, same, ← lays_nil_iff]
  | cons t ts => rwa [lays_cons_iff, ← List.singleton_append, same, ← lays_cons_iff]

/-- Where a string is laid out first, the reader finds its opening quote and reads its content. -/
theorem Lays.exists_content {content : Option String} {ts : List Token} {s : List Symbol}
    (lays : Lays (.string content :: ts) s)
    : ∃ back rest, skipSpace s = .char '"' :: back ∧ content? back = some (content, rest)
        ∧ Lays ts rest := by
  obtain ⟨front, rest, spelled, same, others⟩ := lays_cons_iff.mp lays
  cases spelled with
  | @string _ body spelled =>
      exact ⟨body ++ .char '"' :: rest, rest, by simp [same],
        content?_eq_some_iff.mpr ⟨body, spelled, rfl⟩, others⟩

/-- Every token takes up a symbol at least, which bounds the fuel a reader needs. -/
theorem Lays.length_le {ts : List Token} {s : List Symbol} (lays : Lays ts s)
    : ts.length ≤ s.length := by
  induction lays with
  | nil => simp
  | cons blank first others ih =>
      obtain ⟨c, tail, rfl, -⟩ := first.exists_cons
      simp only [List.length_cons, List.length_append]
      omega

-------------------------------------------------------------------------------
-- What stands after a document
-------------------------------------------------------------------------------

/-- Whether tokens may stand after a document: there are none, or the first one separates or
closes. -/
def Closes : List Token → Prop
  | [] | .comma :: _ | .arrayEnd :: _ | .objectEnd :: _ => True
  | _ => False

/-- A numeral ends before any character that is not numeric. -/
theorem ends_cons {c : Char} (other : isNumeric c = false) (rest : List Symbol)
    : Ends (.char c :: rest) := by
  intro d tail same
  cases same
  exact other

/-- A numeral ends before a blank. -/
theorem ends_of_isBlank {symbol : Symbol} (blank : IsBlank symbol) (rest : List Symbol)
    : Ends (symbol :: rest) := by
  intro c tail same
  cases same
  exact Bool.eq_false_iff.mpr fun numeric => not_isBlank_of_isNumeric numeric blank

/-- No numeral goes on where a document may end. -/
theorem Lays.ends {more : List Token} {s : List Symbol} (lays : Lays more s) (closes : Closes more)
    : Ends s := by
  cases lays with
  | nil blank =>
      cases s with
      | nil => exact nofun
      | cons symbol rest => exact ends_of_isBlank (blank symbol List.mem_cons_self) rest
  | @cons t ts blanks front back blank first others =>
      cases blanks with
      | cons symbol blanks => exact ends_of_isBlank (blank symbol List.mem_cons_self) _
      | nil =>
          cases first with
          | comma | arrayEnd | objectEnd => exact ends_cons rfl _
          | _ => exact absurd closes (by simp [Closes])

-------------------------------------------------------------------------------
-- Reading
-------------------------------------------------------------------------------

section Skipping

variable (fuel : Nat) (s : List Symbol)

/-- The reader of values skips blanks by itself. -/
theorem value?_skipSpace : value? fuel (skipSpace s) = value? fuel s := by
  cases fuel with
  | zero => rfl
  | succ fuel => rw [value?, value?, skipSpace_skipSpace]

/-- The reader of items skips blanks by itself, as its first value does. -/
theorem items?_skipSpace : items? fuel (skipSpace s) = items? fuel s := by
  cases fuel with
  | zero => rfl
  | succ fuel => rw [items?, items?, value?_skipSpace]

/-- The reader of members skips blanks by itself. -/
theorem members?_skipSpace : members? fuel (skipSpace s) = members? fuel s := by
  cases fuel with
  | zero => rfl
  | succ fuel => rw [members?, members?, skipSpace_skipSpace]

end Skipping

/-- What starts with a numeric character is read as a number. -/
theorem value?_of_isNumeric {c : Char} (numeric : isNumeric c) (fuel : Nat) (rest : List Symbol)
    : value? (fuel + 1) (.char c :: rest) = numeral? (.char c :: rest) := by
  rw [value?, skipSpace_of_not_isBlank (not_isBlank_of_isNumeric numeric)]
  split
  case h_7 => rfl
  all_goals
    rename_i same
    cases same
    exact absurd numeric (by decide)

/-- A numeral is read up to where it ends, and as it is written. -/
theorem value?_number {literal : String} (numeral : Numeral literal.toList) (fuel : Nat)
    {rest : List Symbol} (ends : Ends rest)
    : value? (fuel + 1) (literal.toList.map .char ++ rest) = some (.number literal, rest) := by
  have read := numeral?_append numeral ends
  obtain ⟨c, tail, chars, numeric⟩ := numeral.exists_cons
  rw [chars, List.map_cons, List.cons_append] at read ⊢
  rw [value?_of_isNumeric numeric, read]

/-- A document of one token is read from its spellings. -/
theorem value?_append {document : Json} {t : Token} (single : tokens document = [t])
    {front : List Symbol} (spelled : t.Spelled front) (fuel : Nat) {rest : List Symbol}
    (ends : Ends rest)
    : value? (fuel + 1) (front ++ rest) = some (document, rest) := by
  cases document with
  | null =>
      cases single
      cases spelled
      rfl
  | bool b =>
      cases single
      cases spelled
      cases b <;> rfl
  | number literal =>
      cases single
      cases spelled with
      | number numeral => exact value?_number numeral fuel ends
  | string content =>
      cases single
      cases spelled with
      | string spelled => simp [value?, skipSpace, content?_eq_some_iff.mpr ⟨_, spelled, rfl⟩]
  | array items => simp [tokens] at single
  | object members => simp [tokens] at single

/-- A document of one token is read off any layout of it, whatever closes it. -/
theorem value?_of_lays_single {document : Json} {t : Token} (single : tokens document = [t])
    (fuel : Nat) {more : List Token} {s : List Symbol} (lays : Lays (t :: more) s)
    (closes : Closes more)
    : ∃ rest, value? (fuel + 1) s = some (document, rest) ∧ Lays more rest := by
  obtain ⟨front, rest, spelled, same, others⟩ := lays_cons_iff.mp lays
  rw [← value?_skipSpace, same]
  exact ⟨rest, value?_append single spelled fuel (others.ends closes), others⟩

/-- No document starts as an array ends. -/
theorem Lays.ne_arrayEnd {document : Json} {more : List Token} {s : List Symbol}
    (lays : Lays (tokens document ++ more) s) (tail : List Symbol)
    : skipSpace s ≠ .char ']' :: tail := by
  intro ended
  obtain ⟨t, ts, first, other⟩ : ∃ t ts, tokens document = t :: ts ∧ t ≠ .arrayEnd := by
    cases document <;> exact ⟨_, _, rfl, by simp⟩
  rw [first, List.cons_append, lays_cons_iff, ended] at lays
  obtain ⟨front, back, spelled, same, -⟩ := lays
  cases spelled with
  | number numeral =>
      obtain ⟨c, tail, chars, numeric⟩ := numeral.exists_cons
      rw [chars] at same
      cases same
      exact absurd numeric (by decide)
  | bool b => cases b <;> cases same
  | arrayEnd => exact other rfl
  | _ => cases same

/-- After an opening bracket that is not closed at once, items are read. -/
theorem value?_arrayStart {back : List Symbol} (filled : ∀ tail, skipSpace back ≠ .char ']' :: tail)
    (fuel : Nat)
    : value? (fuel + 1) (.char '[' :: back)
        = (items? fuel back).map fun (items, rest) => (.array items, rest) := by
  rw [value?, skipSpace_of_not_isBlank (by decide), ← items?_skipSpace]
  -- the branch of the empty array is ruled out by `filled`
  simp only

/-- After an opening brace with a quote behind it, members are read. -/
theorem value?_objectStart {back tail : List Symbol} (filled : skipSpace back = .char '"' :: tail)
    (fuel : Nat)
    : value? (fuel + 1) (.char '\x7b' :: back)
        = (members? fuel back).map fun (members, rest) => (.object members, rest) := by
  rw [value?, skipSpace_of_not_isBlank (by decide), ← members?_skipSpace]
  simp [filled]

mutual

/-- A document is read from its tokens, by induction on the document. -/
theorem value?_of_lays : ∀ (document : Json) (fuel : Nat) {more : List Token} {s : List Symbol},
    Lays (tokens document ++ more) s → Closes more → (tokens document).length < fuel
    → ∃ rest, value? fuel s = some (document, rest) ∧ Lays more rest
  | document, 0, _, _, _, _, enough => by omega
  | .null, fuel + 1, _, _, lays, closes, _ => value?_of_lays_single rfl fuel lays closes
  | .bool _, fuel + 1, _, _, lays, closes, _ => value?_of_lays_single rfl fuel lays closes
  | .number _, fuel + 1, _, _, lays, closes, _ => value?_of_lays_single rfl fuel lays closes
  | .string _, fuel + 1, _, _, lays, closes, _ => value?_of_lays_single rfl fuel lays closes
  | .array items, fuel + 1, more, s, lays, _, enough => by
      simp only [tokens, List.cons_append, List.append_assoc, List.nil_append] at lays
      obtain ⟨_, back, ⟨⟩, opened, lays⟩ := lays_cons_iff.mp lays
      rw [← value?_skipSpace, opened, List.singleton_append]
      cases items with
      | nil =>
          obtain ⟨_, rest, ⟨⟩, closed, others⟩ := lays_cons_iff.mp lays
          exact ⟨rest, by simp [value?, skipSpace, closed], others⟩
      | cons item items =>
          obtain ⟨rest, read, others⟩ := items?_of_lays (item :: items) fuel lays (by simp)
            (by simp [tokens] at enough; omega)
          obtain ⟨_, front⟩ := exists_itemTokens_append item items (.arrayEnd :: more)
          have filled := Lays.ne_arrayEnd (front ▸ lays)
          exact ⟨rest, by rw [value?_arrayStart filled, read, Option.map_some], others⟩
  | .object members, fuel + 1, more, s, lays, _, enough => by
      simp only [tokens, List.cons_append, List.append_assoc, List.nil_append] at lays
      obtain ⟨_, back, ⟨⟩, opened, lays⟩ := lays_cons_iff.mp lays
      rw [← value?_skipSpace, opened, List.singleton_append]
      cases members with
      | nil =>
          obtain ⟨_, rest, ⟨⟩, closed, others⟩ := lays_cons_iff.mp lays
          exact ⟨rest, by simp [value?, skipSpace, closed], others⟩
      | cons member members =>
          obtain ⟨rest, read, others⟩ := members?_of_lays (member :: members) fuel lays (by simp)
            (by simp [tokens] at enough; omega)
          obtain ⟨_, front⟩ := exists_memberTokens_append member members (.objectEnd :: more)
          obtain ⟨_, _, filled, -⟩ := (front ▸ lays).exists_content
          exact ⟨rest, by rw [value?_objectStart filled, read, Option.map_some], others⟩

/-- Every layout of items is read as these items if the fuel exceeds their tokens; by recursion on
the items, jointly with `value?_of_lays`. -/
theorem items?_of_lays : ∀ (items : List Json) (fuel : Nat) {more : List Token} {s : List Symbol},
    Lays (itemTokens items ++ .arrayEnd :: more) s → items ≠ []
    → (itemTokens items).length + 1 < fuel
    → ∃ rest, items? fuel s = some (items, rest) ∧ Lays more rest
  | items, 0, _, _, _, _, enough => by omega
  | [], _, _, _, _, some_item, _ => absurd rfl some_item
  | [item], fuel + 1, more, s, lays, _, enough => by
      obtain ⟨rest, read, lays⟩ := value?_of_lays item fuel lays (by simp [Closes])
        (by simp [itemTokens] at enough; omega)
      obtain ⟨_, last, ⟨⟩, ended, others⟩ := lays_cons_iff.mp lays
      exact ⟨last, by simp [items?, read, ended], others⟩
  | item :: next :: items, fuel + 1, more, s, lays, _, enough => by
      simp only [itemTokens, List.append_assoc, List.cons_append] at lays
      simp only [itemTokens, List.length_append, List.length_cons] at enough
      obtain ⟨rest, read, lays⟩ := value?_of_lays item fuel lays (by simp [Closes]) (by omega)
      obtain ⟨_, back, ⟨⟩, comma, lays⟩ := lays_cons_iff.mp lays
      obtain ⟨last, others, lays⟩ := items?_of_lays (next :: items) fuel lays (by simp) (by omega)
      exact ⟨last, by simp [items?, read, comma, others], lays⟩

/-- As `items?_of_lays`, for the members of an object. -/
theorem members?_of_lays : ∀ (members : List (Option String × Json)) (fuel : Nat)
    {more : List Token} {s : List Symbol}, Lays (memberTokens members ++ .objectEnd :: more) s
    → members ≠ [] → (memberTokens members).length + 1 < fuel
    → ∃ rest, members? fuel s = some (members, rest) ∧ Lays more rest
  | members, 0, _, _, _, _, enough => by omega
  | [], _, _, _, _, some_member, _ => absurd rfl some_member
  | [(name, item)], fuel + 1, more, s, lays, _, enough => by
      simp only [memberTokens, List.cons_append] at lays
      simp only [memberTokens, List.length_cons] at enough
      obtain ⟨_, back, named, content, lays⟩ := lays.exists_content
      obtain ⟨_, back, ⟨⟩, colon, lays⟩ := lays_cons_iff.mp lays
      obtain ⟨rest, read, lays⟩ := value?_of_lays item fuel lays (by simp [Closes]) (by omega)
      obtain ⟨_, last, ⟨⟩, ended, others⟩ := lays_cons_iff.mp lays
      exact ⟨last, by simp [members?, named, content, colon, read, ended], others⟩
  | (name, item) :: next :: members, fuel + 1, more, s, lays, _, enough => by
      simp only [memberTokens, List.append_assoc, List.cons_append] at lays
      simp only [memberTokens, List.length_append, List.length_cons] at enough
      obtain ⟨_, back, named, content, lays⟩ := lays.exists_content
      obtain ⟨_, back, ⟨⟩, colon, lays⟩ := lays_cons_iff.mp lays
      obtain ⟨rest, read, lays⟩ := value?_of_lays item fuel lays (by simp [Closes]) (by omega)
      obtain ⟨_, back, ⟨⟩, comma, lays⟩ := lays_cons_iff.mp lays
      obtain ⟨last, others, lays⟩ := members?_of_lays (next :: members) fuel lays (by simp)
        (by omega)
      exact ⟨last, by simp [members?, named, content, colon, read, comma, others], lays⟩

end

-------------------------------------------------------------------------------
-- What is read
-------------------------------------------------------------------------------

/-- Where the reader finds a quote and a content, a string is laid out. -/
theorem lays_string {content : Option String} {s back rest : List Symbol} {ts : List Token}
    (opened : skipSpace s = .char '"' :: back) (read : content? back = some (content, rest))
    (others : Lays ts rest)
    : Lays (.string content :: ts) s := by
  obtain ⟨body, spelled, rfl⟩ := content?_eq_some_iff.mp read
  exact lays_cons_iff.mpr ⟨_, rest, .string spelled, by simp [opened], others⟩

mutual

/-- What is read as a document has its tokens, by induction on the fuel. -/
theorem lays_of_value? : ∀ (fuel : Nat) {s rest : List Symbol} {document : Json},
    value? fuel s = some (document, rest)
    → ∀ {more : List Token}, Lays more rest → Lays (tokens document ++ more) s
  | 0, _, _, _, read, _, _ => by cases read
  | fuel + 1, s, rest, document, read, more, others => by
      rw [value?] at read
      split at read
      case h_1 opened =>
          cases read
          exact lays_cons_iff.mpr ⟨_, rest, .null, opened, others⟩
      case h_2 opened =>
          cases read
          exact lays_cons_iff.mpr ⟨_, rest, .bool true, opened, others⟩
      case h_3 opened =>
          cases read
          exact lays_cons_iff.mpr ⟨_, rest, .bool false, opened, others⟩
      case h_4 back opened =>
          obtain ⟨⟨content, _⟩, read, same⟩ := Option.map_eq_some_iff.mp read
          cases same
          exact lays_string opened read others
      case h_5 back opened =>
          split at read
          case h_1 _ closed =>
              cases read
              exact lays_cons_iff.mpr ⟨_, back, .arrayStart, opened,
                lays_cons_iff.mpr ⟨_, rest, .arrayEnd, closed, others⟩⟩
          case h_2 =>
              obtain ⟨⟨items, _⟩, found, same⟩ := Option.map_eq_some_iff.mp read
              cases same
              rw [items?_skipSpace] at found
              have lays := (lays_of_items? fuel found).2 others
              simp only [tokens, List.cons_append, List.append_assoc, List.nil_append]
              exact lays_cons_iff.mpr ⟨_, back, .arrayStart, opened, lays⟩
      case h_6 back opened =>
          split at read
          case h_1 _ closed =>
              cases read
              exact lays_cons_iff.mpr ⟨_, back, .objectStart, opened,
                lays_cons_iff.mpr ⟨_, rest, .objectEnd, closed, others⟩⟩
          case h_2 =>
              obtain ⟨⟨members, _⟩, found, same⟩ := Option.map_eq_some_iff.mp read
              cases same
              rw [members?_skipSpace] at found
              have lays := (lays_of_members? fuel found).2 others
              simp only [tokens, List.cons_append, List.append_assoc, List.nil_append]
              exact lays_cons_iff.mpr ⟨_, back, .objectStart, opened, lays⟩
      case h_7 =>
          obtain ⟨literal, rfl, numeral, same⟩ := of_numeral? read
          exact lays_cons_iff.mpr ⟨_, rest, .number numeral, same, others⟩

/-- Whatever the reader takes for items is a layout of them, followed by anything; by recursion on
the fuel. -/
theorem lays_of_items? : ∀ (fuel : Nat) {s rest : List Symbol} {items : List Json},
    items? fuel s = some (items, rest)
    → items ≠ [] ∧ ∀ {more : List Token}, Lays more rest
      → Lays (itemTokens items ++ .arrayEnd :: more) s
  | 0, _, _, _, read => by cases read
  | fuel + 1, s, rest, items, read => by
      rw [items?] at read
      obtain ⟨⟨item, back⟩, first, read⟩ := Option.bind_eq_some_iff.mp read
      dsimp only at read
      split at read
      case h_1 tail comma =>
          obtain ⟨⟨items, _⟩, found, same⟩ := Option.map_eq_some_iff.mp read
          cases same
          obtain ⟨filled, lays⟩ := lays_of_items? fuel found
          refine ⟨by simp, fun others => ?_⟩
          rw [itemTokens_cons item filled, List.append_assoc]
          exact lays_of_value? fuel first
            (lays_cons_iff.mpr ⟨_, tail, .comma, comma, lays others⟩)
      case h_2 tail closed =>
          cases read
          exact ⟨by simp, fun others =>
            lays_of_value? fuel first (lays_cons_iff.mpr ⟨_, rest, .arrayEnd, closed, others⟩)⟩
      case h_3 => cases read

/-- As `lays_of_items?`, for the members of an object. -/
theorem lays_of_members? : ∀ (fuel : Nat) {s rest : List Symbol}
    {members : List (Option String × Json)}, members? fuel s = some (members, rest)
    → members ≠ [] ∧ ∀ {more : List Token}, Lays more rest
      → Lays (memberTokens members ++ .objectEnd :: more) s
  | 0, _, _, _, read => by cases read
  | fuel + 1, s, rest, members, read => by
      rw [members?] at read
      split at read
      case h_1 back opened =>
          obtain ⟨⟨name, back⟩, named, read⟩ := Option.bind_eq_some_iff.mp read
          dsimp only at read
          split at read
          case h_1 back colon =>
              obtain ⟨⟨item, back⟩, first, read⟩ := Option.bind_eq_some_iff.mp read
              dsimp only at read
              split at read
              case h_1 tail comma =>
                  obtain ⟨⟨members, _⟩, found, same⟩ := Option.map_eq_some_iff.mp read
                  cases same
                  obtain ⟨filled, lays⟩ := lays_of_members? fuel found
                  refine ⟨by simp, fun others => ?_⟩
                  rw [memberTokens_cons name item filled, List.cons_append, List.cons_append,
                    List.append_assoc]
                  exact lays_string opened named (lays_cons_iff.mpr ⟨_, _, .colon, colon,
                    lays_of_value? fuel first
                      (lays_cons_iff.mpr ⟨_, tail, .comma, comma, lays others⟩)⟩)
              case h_2 tail closed =>
                  cases read
                  exact ⟨by simp, fun others =>
                    lays_string opened named (lays_cons_iff.mpr ⟨_, _, .colon, colon,
                      lays_of_value? fuel first
                        (lays_cons_iff.mpr ⟨_, rest, .objectEnd, closed, others⟩)⟩)⟩
              case h_3 => cases read
          case h_2 => cases read
      case h_2 => cases read

end

/-- A byte string is read as a document just when it is a text of the document. -/
theorem parse?_eq_some_iff {payload : List UInt8} {document : Json}
    : parse? payload = some document ↔ IsText document payload := by
  unfold parse? IsText
  constructor
  · intro read
    dsimp only at read
    split at read
    case h_1 found rest value =>
        split at read
        case isTrue empty =>
            cases read
            have lays := lays_of_value? _ value (lays_nil_iff.mpr (List.isEmpty_iff.mp empty))
            rwa [List.append_nil] at lays
        case isFalse => cases read
    case h_2 => cases read
  · intro lays
    have enough := Nat.lt_succ_of_le lays.length_le
    rw [← List.append_nil (tokens document)] at lays
    obtain ⟨rest, value, blank⟩ := value?_of_lays document _ lays trivial enough
    simp [value, lays_nil_iff.mp blank]

end Almanac.Json
