import Almanac.Json.Value
import Almanac.Text.Hex

/-! Writing documents: compact, members in their order, and only the characters escaped that must
be.
-/

namespace Almanac.Json

/-- A character inside quotes. Quotes, backslashes and the characters below the space are escaped,
with a letter where there is one. -/
def escape (c : Char) : List Char :=
  if c = '"' then ['\\', '"']
  else if c = '\\' then ['\\', '\\']
  else if c = '\x08' then ['\\', 'b']
  else if c = '\x0c' then ['\\', 'f']
  else if c = '\n' then ['\\', 'n']
  else if c = '\x0d' then ['\\', 'r']
  else if c = '\t' then ['\\', 't']
  else if c.toNat < 0x20 then '\\' :: 'u' :: Text.hex 4 c.toNat
  else [c]

/-- A text in quotes. -/
def quote (s : String) : List Char :=
  '"' :: s.toList.flatMap escape ++ ['"']

/-- A string in quotes. One that is no text is written as the replacement character. -/
def quoteContent (content : Option String) : List Char :=
  quote (content.getD "\ufffd")

mutual

def chars : Json → List Char
  | .null => "null".toList
  | .bool true => "true".toList
  | .bool false => "false".toList
  | .number literal => literal.toList
  | .string content => quoteContent content
  | .array items => '[' :: itemChars items ++ [']']
  | .object members => '\x7b' :: memberChars members ++ ['\x7d']

/-- The items of an array, separated by commas. -/
def itemChars : List Json → List Char
  | [] => []
  | [item] => chars item
  | item :: items => chars item ++ ',' :: itemChars items

/-- The members of an object, separated by commas. -/
def memberChars : List (Option String × Json) → List Char
  | [] => []
  | [(name, item)] => quoteContent name ++ ':' :: chars item
  | (name, item) :: members => quoteContent name ++ ':' :: chars item ++ ',' :: memberChars members

end

def render (document : Json) : String :=
  .ofList (chars document)

end Almanac.Json
