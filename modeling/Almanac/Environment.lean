import Almanac.Text.Numeral

/-! The variables that a process is started with. -/

namespace Almanac

/-- Named variables; the first of a name counts. -/
abbrev Environment := List (String × String)

namespace Environment

/-- The value of a variable, when it is set. -/
def get? (env : Environment) (name : String) : Option String :=
  env.lookup name

/-- The value of a variable, or a default. -/
def getD (env : Environment) (name default : String) : String :=
  (env.get? name).getD default

/-- The number of at most `max` that a variable writes; nothing for any other value. -/
def number? (env : Environment) (name : String) (max : Nat) : Option Nat :=
  (env.get? name).bind (Text.natUpTo? max)

end Environment

end Almanac
