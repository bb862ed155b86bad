/-
The program. It has no transport of its own, so that every attempt to open a link is answered by a
failure; what needs no server works in full.
-/
import TypedSql.CommandLine.Session

namespace TypedSql.CommandLine

/-- The failure of every request. -/
def noTransport : LinkError := .transport "no transport"

/-- The report of a plan where no server can be reached. -/
def Plan.alone : Plan → Report
  | .report r => r
  | .session store pool what =>
    let view : View := ⟨0, store⟩
    let (_, outcome) := (CommandLine.session pool view what).run
      (fun _ () => ((), some ⟨.error noTransport, view⟩)) ()
    outcome.result?.getD (.failure 3 noTransport.message)

end TypedSql.CommandLine

/-- Prints the report on the arguments and gives its exit code. -/
def main (args : List String) : IO UInt32 := do
  let connectionString ← IO.getEnv TypedSql.Settings.connectionStringVariable
  let report := (TypedSql.CommandLine.plan args connectionString).alone
  (← IO.getStdout).putStr report.out
  (← IO.getStderr).putStr report.err
  return report.code.toUInt32
