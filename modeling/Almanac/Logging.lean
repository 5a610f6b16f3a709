import Almanac.Environment

/-! Settings of the log of a program. -/

namespace Almanac.Logging

/-- The name that a program logs under, which records it keeps, and whether as documents. -/
structure Settings where
  service : String := "calendar"
  filter : Option String := none
  asJson : Bool := false
  deriving DecidableEq, Repr

namespace Settings

/-- The log settings of an environment. Of the two names of the filter the first counts. -/
def ofEnvironment (env : Environment) : Settings :=
  { service := env.getD "SERVICE_NAME" "calendar"
    filter := (env.get? "RUST_LOG").or (env.get? "LOG_LEVEL")
    asJson := (env.get? "LOG_FORMAT").any (·.toLower = "json") }

def withService (s : Settings) (service : String) : Settings :=
  { s with service }

/-- The settings with a filter, unless they have one. -/
def withDefaultFilter (s : Settings) (filter : String) : Settings :=
  { s with filter := s.filter.or (some filter) }

end Settings

end Almanac.Logging
