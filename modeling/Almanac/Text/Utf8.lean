/-! Bytes seen as text.
A byte string is cut into characters and stray bytes, so that a reader can pass over bytes that
belong to no character without losing its place.
-/

namespace Almanac.Text

/-- A piece of a byte string: a whole character, or a byte that starts none. -/
inductive Symbol where
  | char (c : Char)
  | stray (b : UInt8)
  deriving DecidableEq, Repr

/-- The character of a piece that is one. -/
def Symbol.char? : Symbol → Option Char
  | .char c => some c
  | .stray _ => none

namespace Utf8

def encode (s : List Char) : List UInt8 :=
  s.flatMap String.utf8EncodeChar

/-- The first character of a byte string, when its first bytes form one. -/
def first? (bytes : List UInt8) : Option Char :=
  (bytes.take 4).toByteArray.utf8DecodeChar? 0

/-- Cuts a byte string into characters and stray bytes. The first `skip` bytes belong to the
character before them. -/
def symbolsFrom : (skip : Nat) → List UInt8 → List Symbol
  | _, [] => []
  | skip + 1, _ :: rest => symbolsFrom skip rest
  | 0, b :: rest =>
      match first? (b :: rest) with
      | some c => .char c :: symbolsFrom (c.utf8Size - 1) rest
      | none => .stray b :: symbolsFrom 0 rest

/-- A byte string as characters and stray bytes. -/
def symbols (bytes : List UInt8) : List Symbol :=
  symbolsFrom 0 bytes

/-- The text that a byte string is, when it has no stray byte. -/
def decode? (bytes : List UInt8) : Option String :=
  ((symbols bytes).mapM Symbol.char?).map String.ofList

end Utf8

end Almanac.Text
