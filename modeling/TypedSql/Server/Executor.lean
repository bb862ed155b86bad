/-
An executor that follows a script: it answers the catalog without a server, and remembers what it
was asked to run.
-/
import TypedSql.Catalog.Basic
import TypedSql.Server.Script

namespace TypedSql

/-- A script, and the statements that were run, the latest first. -/
structure ScriptedExecutor where
  script : Script
  sent : List String := []

namespace ScriptedExecutor

/-- Runs a statement: what is done, and the executor after it. -/
def act (x : ScriptedExecutor) (text : String) : Act × ScriptedExecutor :=
  let (act, script) := x.script.next text
  (act, ⟨script, text :: x.sent⟩)

/-- Answers a question of the catalog. -/
def answer : (q : CatalogRequest) → ScriptedExecutor → ScriptedExecutor × Option q.Answer
  | .rows text, x =>
    let (act, x) := x.act text
    (x, some (act.outcome Act.textRows))
  | .execute text, x =>
    let (act, x) := x.act text
    (x, some (act.outcome Act.changedRows))

/-- Runs an operation of the catalog. -/
def run {α : Type} (x : ScriptedExecutor) (operation : CatalogTask α) (catalog : Catalog) :
    ScriptedExecutor × Catalog × Option (Except CatalogError α) :=
  let (x, outcome) := (ExceptT.run operation catalog).run answer x
  (x, outcome.left, outcome.result?)

end ScriptedExecutor

end TypedSql
