/-! Addresses of servers.
This library opens no connection. An address that names no scheme is refused as relative; any other
is taken for one of a server beyond reach.
-/

namespace Almanac.Address

/-- Whether an address starts with a scheme: a letter, then letters, digits and marks, then a
colon. -/
def isAbsolute (s : String) : Bool :=
  let scheme := s.toList.takeWhile (· ≠ ':')
  s.toList.contains ':' && scheme.head?.any Char.isAlpha
    && scheme.all fun c => c.isAlphanum || c = '+' || c = '-' || c = '.'

/-- Why a relative address is refused. -/
def relative : String :=
  "relative URL without a base"

/-- Why a server beyond reach is not connected to. -/
def beyondReach : String :=
  "Network is unreachable (os error 101)"

end Almanac.Address
