import Almanac.Proofs.Json.Layout
import Almanac.Proofs.Json.Literal
import Almanac.Proofs.Text.Symbols

/-! Documents are read back from their bytes, when they hold numerals for numbers and texts for
strings: what is written is one of their texts.
-/

namespace Almanac.Json

open Text (Symbol)

-------------------------------------------------------------------------------
-- Plain documents
-------------------------------------------------------------------------------

mutual

/-- A document that is written as it is: its numbers are numerals and its strings are texts. -/
def Plain : Json → Prop
  | .null => True
  | .bool _ => True
  | .number literal => isNumeral literal.toList
  | .string content => content.isSome
  | .array items => PlainItems items
  | .object members => PlainMembers members

def PlainItems : List Json → Prop
  | [] => True
  | item :: items => Plain item ∧ PlainItems items

def PlainMembers : List (Option String × Json) → Prop
  | [] => True
  | (name, item) :: members => name.isSome ∧ Plain item ∧ PlainMembers members

end

-------------------------------------------------------------------------------
-- Written documents
-------------------------------------------------------------------------------

/-- What is written of a token without blanks before it. -/
theorem Lays.cons_append {t : Token} {ts : List Token} {front back : List Symbol}
    (first : t.Spelled front) (others : Lays ts back)
    : Lays (t :: ts) (front ++ back) :=
  lays_cons_iff.mpr ⟨front, back, first, first.skipSpace_append back, others⟩

theorem quote_spelled (s : String) : (Token.string (some s)).Spelled ((quote s).map .char) := by
  have spelled := Token.Spelled.string (content_flatMap_escape s)
  simpa [quote] using spelled

mutual

/-- A plain document is written without blanks, by induction on the document. -/
theorem lays_chars : ∀ (document : Json) {more : List Token} {rest : List Symbol}, Plain document
    → Lays more rest → Lays (tokens document ++ more) ((chars document).map .char ++ rest)
  | .null, _, _, _, others => .cons_append .null others
  | .bool true, _, _, _, others => .cons_append (.bool true) others
  | .bool false, _, _, _, others => .cons_append (.bool false) others
  | .number _, _, _, plain, others => .cons_append (.number (isNumeral_iff.mp plain)) others
  | .string (some s), _, _, _, others => .cons_append (quote_spelled s) others
  | .string none, _, _, plain, _ => by simp [Plain] at plain
  | .array items, _, _, plain, others => by
      have lays := Lays.cons_append .arrayStart
        (lays_itemChars items plain (.cons_append .arrayEnd others))
      simpa [tokens, chars] using lays
  | .object members, _, _, plain, others => by
      have lays := Lays.cons_append .objectStart
        (lays_memberChars members plain (.cons_append .objectEnd others))
      simpa [tokens, chars] using lays

theorem lays_itemChars : ∀ (items : List Json) {more : List Token} {rest : List Symbol},
    PlainItems items → Lays more rest
    → Lays (itemTokens items ++ more) ((itemChars items).map .char ++ rest)
  | [], _, _, _, others => others
  | [item], _, _, plain, others => lays_chars item plain.1 others
  | item :: next :: items, _, _, plain, others => by
      have lays := lays_chars item plain.1
        (.cons_append .comma (lays_itemChars (next :: items) plain.2 others))
      simpa [itemTokens, itemChars] using lays

theorem lays_memberChars : ∀ (members : List (Option String × Json)) {more : List Token}
    {rest : List Symbol}, PlainMembers members → Lays more rest
    → Lays (memberTokens members ++ more) ((memberChars members).map .char ++ rest)
  | [], _, _, _, others => others
  | (none, _) :: _, _, _, plain, _ => by simp [PlainMembers] at plain
  | [(some name, item)], _, _, plain, others => by
      have lays := Lays.cons_append (quote_spelled name)
        (.cons_append .colon (lays_chars item plain.2.1 others))
      simpa [memberTokens, memberChars, quoteContent] using lays
  | (some name, item) :: next :: members, _, _, plain, others => by
      have lays := Lays.cons_append (quote_spelled name)
        (.cons_append .colon (lays_chars item plain.2.1
          (.cons_append .comma (lays_memberChars (next :: members) plain.2.2 others))))
      simpa [memberTokens, memberChars, quoteContent] using lays

end

/-- What is written of a plain document is a text of it. -/
theorem isText_encode_chars {document : Json} (plain : Plain document)
    : IsText document (Text.Utf8.encode (chars document)) := by
  have lays := lays_chars document plain (.nil (List.forall_mem_nil IsBlank))
  simpa [IsText] using lays

/-- A text stays one behind a blank. -/
theorem isText_encode_cons {document : Json} {s : List Char}
    (text : IsText document (Text.Utf8.encode s)) {c : Char} (blank : IsBlank (.char c))
    : IsText document (Text.Utf8.encode (c :: s)) := by
  simpa [IsText] using Lays.blank_cons (s := s.map .char) (by simpa [IsText] using text) blank

/-- A plain document is read back from its bytes. -/
theorem parse?_encode_chars {document : Json} (plain : Plain document)
    : parse? (Text.Utf8.encode (chars document)) = some document :=
  parse?_eq_some_iff.mpr (isText_encode_chars plain)

end Almanac.Json
