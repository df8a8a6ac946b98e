import Uninit.Finding
import Uninit.Report.Json
import Uninit.Sink

/-!
# Reports

A report lists findings in order, either one line for each or as one JSON array.
-/
namespace Uninit

/-- The form of a report. -/
inductive Format where
  | text
  | json
deriving Repr, DecidableEq, Inhabited

namespace Finding

/-- A finding as a line of a text report, without the line end. -/
def render (f : Finding) : String :=
  "line " ++ toString f.line ++ ": " ++ f.text

/-- A finding as a JSON object. A finding without a name has no member `name`. -/
def toJson (f : Finding) : Json :=
  .object <| ("line", .number f.line) ::
    (match f.name with
      | some name => [("name", .string name)]
      | none => []) ++
    [("text", .string f.text)]

end Finding

namespace Format

/-- The pieces in which a report is written. -/
def pieces : Format → List Finding → List String
  | text, findings => findings.map fun f => f.render ++ "\n"
  | json, findings =>
    [String.ofList ((Json.array (findings.map Finding.toJson)).render 0), "\n"]

def report (format : Format) (findings : List Finding) : String :=
  String.join (format.pieces findings)

/-- Write a report. The flag says whether the sink took all of it. -/
def write (format : Format) (findings : List Finding) (out : Sink) : Sink × Bool :=
  out.writeAll (format.pieces findings)

end Format

end Uninit
