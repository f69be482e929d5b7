import FleetUpgrade.Remote.Result
import FleetUpgrade.Text.Blank

/-!
# Reports

A report shows results to the operator: first the clean ones, then those with a problem. Each
begins with its label on a line of its own, and the rest is indented below it; of an error, only
the first line is.
-/

namespace FleetUpgrade

structure Report where
  results : List CommandResult

namespace Report

def clean (r : Report) : List CommandResult :=
  r.results.filter CommandResult.isClean

def problems (r : Report) : List CommandResult :=
  r.results.filter CommandResult.isProblem

def problemCount (r : Report) : Nat :=
  r.problems.length

/-- The lines of a text below a heading; line feeds at its end do not count, and without a line
there is no heading either. -/
def block (heading text : String) : List String :=
  let cs := Text.trimEndOf '\n' text.toList
  if cs = [] then []
  else ("  " ++ heading ++ ":") ::
    (Text.segments '\n' cs).map fun line => "    " ++ String.ofList line

/-- The lines of one result; a label or an error may go over several. -/
def resultLines (r : CommandResult) : List String :=
  r.target.label ::
    ((match r.error with
      | some e => ["  ERROR: " ++ e.message]
      | none => []) ++
    (if r.code = 0 then [] else ["  Code: " ++ toString r.code]) ++
    block "stdout" r.stdout ++ block "stderr" r.stderr)

def lines (r : Report) : List String :=
  (r.clean ++ r.problems).flatMap resultLines

/-- The text of a report; every line is ended. -/
def text (r : Report) : String :=
  String.join (r.lines.map fun line => line ++ "\n")

/-- Number of problems, if there is one. -/
def check (r : Report) : Except Nat Unit :=
  if r.problemCount = 0 then .ok () else .error r.problemCount

def problemMessage : String := "one or more machines had a problem"

end Report

end FleetUpgrade
