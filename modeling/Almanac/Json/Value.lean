/-! Documents as trees.
A tree keeps what reading a record needs to know: the literal of each number, the members of an
object in their order with repeats, and which strings are no text.
-/

namespace Almanac

/-- A document. A string is `none` when it is well formed but no text: it holds a stray byte or half
of a surrogate pair. -/
inductive Json where
  | null
  | bool (b : Bool)
  | number (literal : String)
  | string (content : Option String)
  | array (items : List Json)
  | object (members : List (Option String × Json))
  deriving Repr

namespace Json

instance : Inhabited Json :=
  ⟨null⟩

def text (s : String) : Json :=
  string (some s)

/-- A whole number. -/
def int (n : Int) : Json :=
  number (toString n)

def record (members : List (String × Json)) : Json :=
  object (members.map fun member => (some member.1, member.2))

end Json

end Almanac
