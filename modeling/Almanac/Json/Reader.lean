import Almanac.Json.Value
import Almanac.Text.Hex
import Almanac.Text.Utf8

/-! Reading documents from bytes.
The grammar is the strict one: no comments, no trailing commas, no byte-order mark, four blank
characters. A string may hold stray bytes and unpaired surrogates; it then is no text.
-/

namespace Almanac.Json

open Text (Symbol)

/-- What follows the leading blanks of a document. -/
def skipSpace : List Symbol → List Symbol
  | .char ' ' :: rest | .char '\t' :: rest | .char '\n' :: rest | .char '\x0d' :: rest =>
      skipSpace rest
  | s => s

/-- A piece of a string: a character, half of a surrogate pair, or a stray byte. -/
inductive Piece where
  | char (c : Char)
  | half (unit : Nat)
  | stray
  deriving DecidableEq, Repr

/-- The piece that a sixteen-bit escape writes. -/
def Piece.ofUnit (unit : Nat) : Piece :=
  if 0xD800 ≤ unit ∧ unit ≤ 0xDFFF then .half unit else .char (.ofNat unit)

/-- The character that a one-letter escape writes. -/
def escaped? : Char → Option Char
  | '"' => some '"'
  | '\\' => some '\\'
  | '/' => some '/'
  | 'b' => some '\x08'
  | 'f' => some '\x0c'
  | 'n' => some '\n'
  | 'r' => some '\x0d'
  | 't' => some '\t'
  | _ => none

/-- The pieces of a string up to its closing quote, and what follows it. -/
def pieces? : List Symbol → Option (List Piece × List Symbol)
  | [] => none
  | .stray _ :: rest => (pieces? rest).map fun (ps, rest) => (.stray :: ps, rest)
  | .char '"' :: rest => some ([], rest)
  | .char '\\' :: .char 'u' :: .char a :: .char b :: .char c :: .char d :: rest =>
      (Text.natOfHex? [a, b, c, d] 0).bind fun unit =>
        (pieces? rest).map fun (ps, rest) => (.ofUnit unit :: ps, rest)
  | .char '\\' :: .char e :: rest =>
      (escaped? e).bind fun c => (pieces? rest).map fun (ps, rest) => (.char c :: ps, rest)
  | .char c :: rest =>
      if c = '\\' ∨ c.toNat < 0x20 then none
      else (pieces? rest).map fun (ps, rest) => (.char c :: ps, rest)

/-- The text that pieces make, when each high surrogate stands before a low one and no other half
or stray byte occurs. -/
def joined? : List Piece → Option (List Char)
  | [] => some []
  | .char c :: rest => (joined? rest).map (c :: ·)
  | .half high :: .half low :: rest =>
      if high < 0xDC00 ∧ 0xDC00 ≤ low then
        (joined? rest).map (.ofNat (0x10000 + (high - 0xD800) * 0x400 + (low - 0xDC00)) :: ·)
      else
        none
  | _ => none

/-- The content of a string after its opening quote, and what follows it. -/
def content? (s : List Symbol) : Option (Option String × List Symbol) :=
  (pieces? s).map fun (ps, rest) => ((joined? ps).map String.ofList, rest)

/-- Nothing, or an exponent: its mark, an optional sign and digits. -/
def isExponent : List Char → Bool
  | [] => true
  | mark :: rest =>
      let digits :=
        match rest with
        | '+' :: digits | '-' :: digits => digits
        | digits => digits
      (mark = 'e' || mark = 'E') && !digits.isEmpty && digits.all Char.isDigit

/-- An optional fraction and an optional exponent. -/
def isFraction : List Char → Bool
  | '.' :: rest =>
      !(rest.takeWhile Char.isDigit).isEmpty && isExponent (rest.dropWhile Char.isDigit)
  | rest => isExponent rest

/-- A numeral: an optional minus sign, digits without a leading zero, a fraction, an exponent. -/
def isNumeral (s : List Char) : Bool :=
  let unsigned :=
    match s with
    | '-' :: rest => rest
    | rest => rest
  let whole := unsigned.takeWhile Char.isDigit
  !whole.isEmpty && (whole.head? ≠ some '0' || whole.length = 1)
    && isFraction (unsigned.dropWhile Char.isDigit)

/-- The characters that numerals are made of. -/
def isNumeric (c : Char) : Bool :=
  c.isDigit || c = '-' || c = '+' || c = '.' || c = 'e' || c = 'E'

/-- The leading numeric characters, and what follows them. -/
def numericRun : List Symbol → List Char × List Symbol
  | .char c :: rest =>
      if isNumeric c then
        let (run, rest) := numericRun rest
        (c :: run, rest)
      else
        ([], .char c :: rest)
  | rest => ([], rest)

def numeral? (s : List Symbol) : Option (Json × List Symbol) :=
  let (run, rest) := numericRun s
  if isNumeral run then some (.number (.ofList run), rest) else none

mutual

/-- A document after blanks, and what follows it. The fuel bounds its depth and its length. -/
def value? (fuel : Nat) (s : List Symbol) : Option (Json × List Symbol) :=
  match fuel with
  | 0 => none
  | fuel + 1 =>
      match skipSpace s with
      | .char 'n' :: .char 'u' :: .char 'l' :: .char 'l' :: rest => some (.null, rest)
      | .char 't' :: .char 'r' :: .char 'u' :: .char 'e' :: rest => some (.bool true, rest)
      | .char 'f' :: .char 'a' :: .char 'l' :: .char 's' :: .char 'e' :: rest =>
          some (.bool false, rest)
      | .char '"' :: rest => (content? rest).map fun (content, rest) => (.string content, rest)
      | .char '[' :: rest =>
          match skipSpace rest with
          | .char ']' :: rest => some (.array [], rest)
          | rest => (items? fuel rest).map fun (items, rest) => (.array items, rest)
      | .char '\x7b' :: rest =>
          match skipSpace rest with
          | .char '\x7d' :: rest => some (.object [], rest)
          | rest => (members? fuel rest).map fun (members, rest) => (.object members, rest)
      | rest => numeral? rest

/-- The items of an array up to its closing bracket, at least one, and what follows it. -/
def items? (fuel : Nat) (s : List Symbol) : Option (List Json × List Symbol) :=
  match fuel with
  | 0 => none
  | fuel + 1 => do
      let (item, s) ← value? fuel s
      match skipSpace s with
      | .char ',' :: rest => (items? fuel rest).map fun (items, rest) => (item :: items, rest)
      | .char ']' :: rest => some ([item], rest)
      | _ => none

/-- The members of an object up to its closing brace, at least one, and what follows it. -/
def members? (fuel : Nat) (s : List Symbol) : Option (List (Option String × Json) × List Symbol) :=
  match fuel with
  | 0 => none
  | fuel + 1 =>
      match skipSpace s with
      | .char '"' :: rest => do
          let (name, s) ← content? rest
          match skipSpace s with
          | .char ':' :: rest =>
              let (item, s) ← value? fuel rest
              match skipSpace s with
              | .char ',' :: rest =>
                  (members? fuel rest).map fun (members, rest) => ((name, item) :: members, rest)
              | .char '\x7d' :: rest => some ([(name, item)], rest)
              | _ => none
          | _ => none
      | _ => none

end

/-- Reads a byte string that is one document with nothing but blanks around it. -/
def parse? (bytes : List UInt8) : Option Json :=
  let symbols := Text.Utf8.symbols bytes
  match value? (symbols.length + 1) symbols with
  | some (document, rest) => if (skipSpace rest).isEmpty then some document else none
  | none => none

end Almanac.Json
