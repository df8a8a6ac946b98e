import Uninit.Finding.Collect
import Uninit.Load
import Uninit.Report

/-!
# Analysing a file

An analysis loads a source, reads its text as a unit, collects the findings, numbers them by
the lines of the file, leaves out those that stand in other files, and writes the report.
-/
namespace Uninit

/-- A reader of C texts. -/
abbrev Reader := String → Except Fault TranslationUnit

namespace Prepared

/-- The findings of a unit that was read from a prepared source: those whose line comes from
the primary file, with the line they have there. -/
def findingsOf (p : Prepared) (u : TranslationUnit) : List Finding :=
  (Finding.ofUnit u).filterMap fun f =>
    (p.resolvePrimary f.line).map fun line => ⟨line, f.name, f.text⟩

end Prepared

namespace Analysis

/-- The findings of a source, where `path` names it in failures. -/
def findings (parse : Reader) (path : String) (source : Except Stop Prepared) :
    Except Stop (List Finding) :=
  match source with
  | .error stop => .error stop
  | .ok prepared =>
    match parse prepared.text with
    | .error fault => .error (.failed (.unparsable path fault))
    | .ok u => .ok (prepared.findingsOf u)

/-- The findings of a source, and the output after their report was written to it. -/
def run (parse : Reader) (format : Format) (path : String) (source : Except Stop Prepared)
    (out : Sink) : Except Stop (List Finding) × Sink :=
  match findings parse path source with
  | .error stop => (.error stop, out)
  | .ok found =>
    match format.write found out with
    | (out, true) => (.ok found, out)
    | (out, false) => (.error (.failed .unwritten), out)

end Analysis

/-- What an analysis is asked for. -/
structure Settings where
  format : Format
  /-- The preprocessor to use, or none to read files as they stand. -/
  preprocessor : Option Preprocessor
deriving Repr, DecidableEq

namespace Settings

/-- What is done if nothing else is asked for. -/
def standard : Settings :=
  ⟨.text, some .standard⟩

/-- Load a file as the settings ask. -/
def load (s : Settings) (h : Host) (path : String) : Except Stop Prepared :=
  match s.preprocessor with
  | some p => Prepared.loadThrough p h path
  | none => Prepared.load h path

/-- Analyse a file as the settings ask. -/
def run (s : Settings) (parse : Reader) (h : Host) (path : String) (out : Sink) :
    Except Stop (List Finding) × Sink :=
  Analysis.run parse s.format path (s.load h path) out

end Settings

end Uninit
