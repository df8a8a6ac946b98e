import Uninit.Origin.Prepared
import Uninit.Text.Utf8

/-!
# Loading sources

A source is read as it stands in its file, or as a preprocessor prints it. If the preprocessor
is not installed, the file may be read directly instead.
-/
namespace Uninit

/-- A preprocessor and what it is given beside the file. -/
structure Preprocessor where
  command : String
  includeDirs : List String
  defines : List String
  /-- Read the file directly if the command is not installed. -/
  fallback : Bool
deriving Repr, DecidableEq

namespace Preprocessor

/-- The preprocessor that is used if nothing else is asked for. -/
def standard : Preprocessor :=
  ⟨"cpp", [], [], true⟩

/-- The arguments of the command: include directories, macro definitions, and the file last. -/
def arguments (p : Preprocessor) (path : String) : List String :=
  p.includeDirs.map ("-I" ++ ·) ++ p.defines.map ("-D" ++ ·) ++ [path]

end Preprocessor

namespace Prepared

/-- Read a file as it stands. -/
def load (h : Host) (path : String) : Except Stop Prepared :=
  match h.read path with
  | .ok bytes => .ok (.raw path (String.ofList (Text.Utf8.decode bytes)))
  | .error cause => .error (.failed (.unreadable path cause))

/-- Read a file through a preprocessor. -/
def loadThrough (p : Preprocessor) (h : Host) (path : String) : Except Stop Prepared :=
  if !h.isFile path then .error (.failed (.noFile path))
  else match h.launch p.command (p.arguments path) with
    | .refused cause =>
      if !cause.isNotFound then .error (.failed (.notStarted p.command cause))
      else if p.fallback then load h path
      else .error (.failed (.noPreprocessor p.command))
    | .exited result =>
      if result.code = some 0 then
        ofPreprocessed path (String.ofList (Text.Utf8.decode result.output))
      else
        let errors := Text.trim (Text.Utf8.decode result.errors)
        .error (.failed (.unsuccessful p.command result.code (String.ofList errors)))

end Prepared

end Uninit
