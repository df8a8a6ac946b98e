import Uninit.Host

/-!
# Failures

Why an analysis gives no findings or no report. A failure is told as a chain of texts, the
outermost first, each caused by the next. A count that overflows is no failure: it breaks the
program off where it stands, and no text tells of it.

## Main definitions

* `Failure`, `Failure.chain`, `Failure.explain`
* `Stop`: a failure or an overflow
-/
namespace Uninit

/-- What is wrong at the first fault of a text. -/
inductive Fault.Cause where
  /-- A token is not there where it has to be. -/
  | missing (token : String)
  /-- A part of the text has no place, given by the start of its first line. -/
  | unexpected (text : String)
deriving Repr, DecidableEq

/-- The first fault of a text. Lines and columns are numbered from one, columns by bytes. -/
structure Fault where
  line : Nat
  column : Nat
  cause : Fault.Cause
deriving Repr, DecidableEq

namespace Fault

def Cause.message : Cause → String
  | missing token => "missing \x60" ++ token ++ "\x60"
  | unexpected text => "unexpected \x60" ++ text ++ "\x60"

def message (f : Fault) : String :=
  "syntax error at line " ++ toString f.line ++ ", column " ++ toString f.column ++ ": " ++
    f.cause.message

end Fault

/-- Why an analysis fails. -/
inductive Failure where
  /-- A file cannot be read. -/
  | unreadable (path : String) (cause : OsError)
  /-- There is no regular file to hand to the preprocessor. -/
  | noFile (path : String)
  /-- The preprocessor is not installed. -/
  | noPreprocessor (command : String)
  /-- The preprocessor cannot be started. -/
  | notStarted (command : String) (cause : OsError)
  /-- The preprocessor ended without success. -/
  | unsuccessful (command : String) (code : Option Nat) (errors : String)
  /-- The text is no C. -/
  | unparsable (path : String) (fault : Fault)
  /-- The output did not take the whole report. -/
  | unwritten
deriving Repr, DecidableEq

namespace Failure

/-- An exit code as it is shown. -/
def showCode : Option Nat → String
  | some code => "Some(" ++ toString code ++ ")"
  | none => "None"

/-- What an output says that takes no more. -/
def noRoom : String := "failed to write whole buffer"

/-- The texts of a failure, the outermost first. -/
def chain : Failure → List String
  | unreadable path cause => ["Failed to read file " ++ path, cause.message]
  | noFile path => ["Failed to read file " ++ path ++ ": not found"]
  | noPreprocessor command => ["Preprocessor \x60" ++ command ++ "\x60 not found in PATH"]
  | notStarted command cause => ["Failed to execute " ++ command, cause.message]
  | unsuccessful command code errors =>
    [command ++ " failed with exit code " ++ showCode code ++ ": " ++ errors]
  | unparsable path fault => ["Failed to parse " ++ path, fault.message]
  | unwritten => ["Failed to write report", noRoom]

def message (f : Failure) : String :=
  f.chain.headD ""

def indent (text : String) : String :=
  "    " ++ String.ofList (text.toList.flatMap fun c =>
    if c = '\n' then '\n' :: List.replicate 4 ' ' else [c])

/-- The whole chain as it is told to the user: the outermost text, then, set off by an empty
line, what caused it. -/
def explain (f : Failure) : String :=
  f.message ++ String.join
    ((f.chain.drop 1).map fun cause => "\n\nCaused by:\n" ++ indent cause)

end Failure

/-- What keeps a program from its result. -/
inductive Stop where
  | failed (failure : Failure)
  /-- A line number would get beyond the greatest there is. -/
  | overflow
deriving Repr, DecidableEq

end Uninit
