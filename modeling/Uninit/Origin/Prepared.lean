import Uninit.Failure
import Uninit.Origin.Marker
import Uninit.Text.FilePath
import Uninit.Text.Line

/-!
# Prepared sources

A prepared source is a text for the parser together with the places its lines came from. A
file that was read directly stands for itself. In the output of a preprocessor each line
marker is blanked, so that the lines of the text are the lines of the output, and the lines
after it are numbered on from the marker. A line with the greatest number has no next one: the
program is broken off there, even if no line follows.
-/
namespace Uninit

/-- The file and the line a line came from. -/
structure Origin where
  file : String
  line : Nat
deriving Repr, DecidableEq

/-- Where the lines of a text came from. -/
inductive LineMap where
  /-- Every line is that line of the primary file. -/
  | identity
  /-- The origin of each line from line one on; a blanked line has none. -/
  | table (origins : Array (Option Origin))
deriving Repr

/-- A text together with the origins of its lines. -/
structure Prepared where
  /-- The file that is being analysed. -/
  primary : String
  text : String
  map : LineMap
deriving Repr

namespace Prepared

/-- A file as it was read. -/
def raw (primary text : String) : Prepared :=
  ⟨primary, text, .identity⟩

/-- The number of the line after line `n`. -/
def nextLine (n : Nat) : Except Stop Nat :=
  if n + 1 < Marker.lineBound then .ok (n + 1) else .error .overflow

/-- Go through the lines of a preprocessor's output, the next of which is line `next` of `file`.
Each line is kept with its origin, or blanked if it is a marker. -/
def annotate (file : String) (next : Nat) :
    List (List Char) → Except Stop (List (List Char × Option Origin))
  | [] => return []
  | line :: rest =>
    match Marker.parse? line with
    | some m => do
      let file := match m.file with
        | some name => String.ofList name
        | none => file
      let kept ← annotate file m.number rest
      return ([], none) :: kept
    | none => do
      let number ← nextLine next
      let kept ← annotate file number rest
      return (line, some ⟨file, next⟩) :: kept

/-- The output of a preprocessor that was given `primary`. -/
def ofPreprocessed (primary output : String) : Except Stop Prepared := do
  let annotated ← annotate primary 1 (Text.lines output.toList)
  return {
    primary
    text := String.ofList (Text.unlines (annotated.map Prod.fst))
    map := .table (annotated.map Prod.snd).toArray }

variable (p : Prepared)

/-- The origin of a line. Blanked lines and lines beyond the text have none. -/
def resolve (line : Nat) : Option Origin :=
  match p.map with
  | .identity => some ⟨p.primary, line⟩
  | .table origins => if line = 0 then none else origins[line - 1]?.join

/-- The line of the primary file that a line came from, if it came from there. -/
def resolvePrimary (line : Nat) : Option Nat :=
  match p.resolve line with
  | some origin => if Text.FilePath.same origin.file p.primary then some origin.line else none
  | none => none

end Prepared

end Uninit
