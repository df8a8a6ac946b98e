import Uninit.CommandLine
import Uninit.Grammar.Syntax

/-!
# The program

Reads the named file, carries out the command line and prints what it gives. No command can be
launched from here, so every preprocessor counts as not installed, and files are read as they
stand.

## Main definitions

* `Host.withFile`: the host that the program works on
* `main`
-/
namespace Uninit

/-- A host that can read a single file, and launch no command. -/
def Host.withFile (path : String) (found : Except OsError (List UInt8)) : Host where
  isFile p := decide (p = path) && match found with
    | .ok _ => true
    | .error e => !(e.isNotFound || e = .notADirectory || e = .isADirectory)
  read p := if p = path then found else .error .notFound
  launch _ _ := .refused .notFound

/-- The number and the text of an error, if it has a number. -/
def OsError.numbered? : IO.Error → Option (UInt32 × String)
  | .alreadyExists _ n text | .otherError n text | .resourceBusy n text
  | .resourceVanished n text | .unsupportedOperation n text | .hardwareFault n text
  | .unsatisfiedConstraints n text | .illegalOperation n text | .protocolError n text
  | .timeExpired n text | .interrupted _ n text | .noFileOrDirectory _ n text
  | .invalidArgument _ n text | .permissionDenied _ n text | .resourceExhausted _ n text
  | .inappropriateType _ n text | .noSuchThing _ n text => some (n, text)
  | .unexpectedEof | .userError _ => none

/-- The cause that the system gives for a file that cannot be read. Some numbers come with the
opposite sign and another spelling of the text. -/
def OsError.ofSystem (e : IO.Error) : OsError :=
  match numbered? e with
  | some (n, text) =>
    let code := (if n < 2147483648 then n else 0 - n).toNat
    let known := [notFound, permissionDenied, notADirectory, isADirectory]
    (known.find? fun k => k.code = some code).getD ⟨some code, text⟩
  | none => ⟨none, toString e⟩

/-- What is said to a command line that is not carried out, and the exit code. -/
def CommandLine.Refusal.answer : Refusal → String × UInt32
  | .displayHelp => ("Usage: uninitc [-f text|json] [--no-cpp] [--cpp-command COMMAND] " ++
      "[-I DIR]... [-D MACRO]... [-v]... [FILE]\n", 0)
  | .displayVersion => ("uninitc\n", 0)
  | .unknownArgument => ("error: unexpected argument\n", 2)
  | .invalidValue => ("error: invalid or missing value\n", 2)
  | .tooManyValues => ("error: unexpected value\n", 2)
  | .argumentConflict => ("error: an option is given twice\n", 2)

end Uninit

open Uninit in
/-- Carry out the arguments of the program. -/
def main (args : List String) : IO UInt32 := do
  match CommandLine.parse args with
  | .error refusal =>
    let (text, code) := refusal.answer
    (← if code = 0 then IO.getStdout else IO.getStderr).putStr text
    return code
  | .ok line =>
    let path := line.file.getD ""
    let found : Except OsError (List UInt8) ←
      try pure (.ok (← IO.FS.readBinFile path).toList)
      catch e => pure (.error (.ofSystem e))
    let done := line.run Grammar.read (.withFile path found)
    (← IO.getStdout).write done.output
    (← IO.getStderr).putStr done.errors
    return .ofNat done.code
