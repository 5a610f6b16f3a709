import Almanac.Startup

/-! The command line: starts the scheduler or the sender with the variables of the process. -/

namespace Almanac

/-- The variables that the programs read, with the leading names of their channels. -/
def variableNames : List String :=
  let channel := ["URI", "HOST", "USER", "PASSWORD", "PORT", "EXCHANGE_TYPE", "EXCHANGE_NAME",
    "QUEUE_NAME", "ROUTING_KEY", "CONSUMER_TAG", "QOS_COUNT"]
  ["STORAGE_TYPE", "DB_MIGRATE", "DATABASE_URL", "DB_MAX_CONNECTIONS", "DB_TIMEOUT_MS",
    "SCHEDULER_WORK_CYCLE_SECS", "SCHEDULER_EXPIRATION_SECS", "SENDER_THREADS", "SENDER_RELAY",
    "SENDER_RETRY_DELAY_MS"]
    ++ ["PRODUCER", "CONSUMER", "RELAY"].flatMap fun leading =>
      channel.map fun name => leading ++ "_" ++ name

/-- The variables of the process that the programs read. -/
def readEnvironment : IO Environment :=
  variableNames.filterMapM fun name => return (← IO.getEnv name).map fun value => (name, value)

/-- Runs a program and reports its end. -/
def runProgram (p : Startup.Program) : IO UInt32 := do
  let exit := Startup.exit p (← readEnvironment)
  IO.eprint exit.report
  return exit.code.toUInt32

end Almanac

/-- Starts the program that the one argument names. -/
def main (args : List String) : IO UInt32 :=
  match args with
  | ["scheduler"] => Almanac.runProgram .scheduler
  | ["sender"] => Almanac.runProgram .sender
  | _ => do
      IO.eprintln "usage: almanac scheduler | sender"
      return 2
