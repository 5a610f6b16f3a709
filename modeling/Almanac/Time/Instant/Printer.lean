import Almanac.Text.Numeral
import Almanac.Time.Instant

/-! The two texts of an instant: the timestamp of documents and the plain text of messages.
Both write the shortest exact fraction of three, six or nine digits.
-/

namespace Almanac.Time.Instant

/-- A year: four digits from 0 to 9999, otherwise its sign and at least four digits. -/
def yearText (year : Int) : List Char :=
  if 0 ≤ year ∧ year ≤ 9999 then Text.padded 4 year.natAbs
  else (if year < 0 then '-' else '+') :: Text.padded 4 year.natAbs

/-- A date as year, month and day joined by hyphens. -/
def dateText (d : Date) : List Char :=
  yearText d.year ++ '-' :: Text.padded 2 d.month ++ '-' :: Text.padded 2 d.day

/-- A time of day. Nanoseconds past the first billion are told in the next second, which is 60 after
the last second of a minute. -/
def clockText (secondOfDay nano : Nat) : List Char :=
  let leap := nano / 1000000000
  Text.padded 2 (secondOfDay / 3600) ++ ':' :: Text.padded 2 (secondOfDay / 60 % 60)
    ++ ':' :: Text.padded 2 (secondOfDay % 60 + leap) ++ Text.fraction (nano % 1000000000)

/-- An instant as a timestamp of universal time. -/
def timestamp (t : Instant) : String :=
  .ofList (dateText t.date ++ 'T' :: clockText t.secondOfDay t.nano ++ ['Z'])

def text (t : Instant) : String :=
  .ofList (dateText t.date ++ ' ' :: clockText t.secondOfDay t.nano) ++ " UTC"

instance : ToString Instant :=
  ⟨text⟩

end Almanac.Time.Instant
