/-! Routing keys against topic patterns.
Both are words separated by dots. In a pattern `*` stands for one word and `#` for any number of
words, none included.
-/

namespace Almanac.Broker.Topic

/-- A word of a pattern. -/
inductive Slot where
  | many
  | single
  | exactly (word : List Char)
  deriving DecidableEq, Repr

/-- The slot that a word of a pattern writes. -/
def Slot.ofWord : List Char → Slot
  | ['#'] => .many
  | ['*'] => .single
  | word => .exactly word

def words (s : String) : List (List Char) :=
  s.toList.splitOnP (· = '.')

/-- Whether slots take up words exactly. -/
def accepts : List Slot → List (List Char) → Bool
  | [], words => words.isEmpty
  | .many :: slots, [] => accepts slots []
  | .many :: slots, word :: words => accepts slots (word :: words) || accepts (.many :: slots) words
  | .single :: slots, _ :: words => accepts slots words
  | .exactly expected :: slots, word :: words => word = expected && accepts slots words
  | _ :: _, [] => false
termination_by slots words => (slots.length, words.length)

/-- Whether a routing key fits a pattern. -/
def fits (pattern key : String) : Bool :=
  accepts ((words pattern).map Slot.ofWord) (words key)

end Almanac.Broker.Topic
