import Uninit.Analysis

/-!
# The command line

Options may stand before and after the file, in short form (`-I dir`, `-Idir`, `-I=dir`, and
several flags behind one dash) or in long form (`--include dir`, `--include=dir`). A value in
the next argument is looked at only when the argument after it is understood, so of two
mistakes the one that is met first is not always the one that is refused. After `--` every
argument is a file.
-/
namespace Uninit

/-- What a command line asks for. -/
structure CommandLine where
  file : Option String
  /-- The format, if one is asked for. -/
  format : Option Format
  noCpp : Bool
  /-- The preprocessor command, if one is asked for. -/
  cppCommand : Option String
  includeDirs : List String
  defines : List String
  /-- How often more log output is asked for, as far as that is counted. -/
  verbosity : UInt8
deriving Repr, DecidableEq

namespace CommandLine

/-- A command line without arguments. -/
def empty : CommandLine :=
  ⟨none, none, false, none, [], [], 0⟩

/-- Why a command line is not carried out. -/
inductive Refusal where
  | unknownArgument
  | invalidValue
  | tooManyValues
  /-- An option that may stand once stands twice. -/
  | argumentConflict
  | displayHelp
  | displayVersion
deriving Repr, DecidableEq

/-- The options that take a value. -/
inductive ValueOption where
  | format
  | cppCommand
  | includeDir
  | define
deriving Repr, DecidableEq

/-- The options that take no value. -/
inductive Flag where
  | noCpp
  | verbose
  | help
  | version
deriving Repr, DecidableEq

/-- An option. -/
inductive Opt where
  | value (o : ValueOption)
  | flag (f : Flag)
deriving Repr, DecidableEq

def Opt.ofLetter? : Char → Option Opt
  | 'f' => some (.value .format)
  | 'I' => some (.value .includeDir)
  | 'D' => some (.value .define)
  | 'v' => some (.flag .verbose)
  | 'h' => some (.flag .help)
  | 'V' => some (.flag .version)
  | _ => none

def Opt.ofWord? (word : List Char) : Option Opt :=
  if word = "format".toList then some (.value .format)
  else if word = "cpp-command".toList then some (.value .cppCommand)
  else if word = "include".toList then some (.value .includeDir)
  else if word = "define".toList then some (.value .define)
  else if word = "no-cpp".toList then some (.flag .noCpp)
  else if word = "verbose".toList then some (.flag .verbose)
  else if word = "help".toList then some (.flag .help)
  else if word = "version".toList then some (.flag .version)
  else none

def formatOf? (name : String) : Option Format :=
  if name = "text" then some .text
  else if name = "json" then some .json
  else none

/-- Take over the value of an option. The format and the command may be given once, and a
directory may not be empty. -/
def setValue (c : CommandLine) (o : ValueOption) (value : String) : Except Refusal CommandLine :=
  match o with
  | .format =>
    if c.format.isSome then .error .argumentConflict
    else match formatOf? value with
      | some format => .ok { c with format := some format }
      | none => .error .invalidValue
  | .cppCommand =>
    if c.cppCommand.isSome then .error .argumentConflict
    else .ok { c with cppCommand := some value }
  | .includeDir =>
    if value.isEmpty then .error .invalidValue
    else .ok { c with includeDirs := c.includeDirs ++ [value] }
  | .define => .ok { c with defines := c.defines ++ [value] }

/-- One more, up to the greatest count. -/
def oneMore (n : UInt8) : UInt8 :=
  if n = 255 then n else n + 1

/-- Take over an option without a value. -/
def setFlag (c : CommandLine) : Flag → Except Refusal CommandLine
  | .noCpp => if c.noCpp then .error .argumentConflict else .ok { c with noCpp := true }
  | .verbose => .ok { c with verbosity := oneMore c.verbosity }
  | .help => .error .displayHelp
  | .version => .error .displayVersion

/-- An argument that has been read but not yet taken over. -/
inductive Pending where
  | nothing
  /-- An option whose value is to come. -/
  | awaiting (o : ValueOption)
  | value (o : ValueOption) (value : String)
  | file (path : String)
deriving Repr, DecidableEq

/-- Take over what is pending. -/
def settle (c : CommandLine) : Pending → Except Refusal CommandLine
  | .nothing => .ok c
  | .awaiting _ => .error .invalidValue
  | .value o value => c.setValue o value
  | .file path => if path.isEmpty then .error .invalidValue else .ok { c with file := some path }

/-- What one argument leaves: the options taken over so far, and what is pending. -/
abbrev Reading := CommandLine × Pending

/-- Read an option by its word, with the value attached by an equals sign, if any. -/
def readWord (c : CommandLine) (pending : Pending) (word : List Char)
    (attached : Option (List Char)) : Except Refusal Reading :=
  match Opt.ofWord? word, attached with
  | none, _ => .error .unknownArgument
  | some (.flag _), some _ => .error .tooManyValues
  | some (.flag f), none => do
    let c ← c.settle pending
    let c ← c.setFlag f
    return (c, .nothing)
  | some (.value o), some value => do
    let c ← c.settle pending
    let c ← c.setValue o (String.ofList value)
    return (c, .nothing)
  | some (.value o), none => do
    let c ← c.settle pending
    return (c, .awaiting o)

/-- The value behind the letter of an option, without an equals sign in front. -/
def attachedValue? : List Char → Option (List Char)
  | [] => none
  | '=' :: value => some value
  | value => some value

/-- Read the letters behind one dash. The first that takes a value takes the rest for it. -/
def readLetters (c : CommandLine) (pending : Pending) : List Char → Except Refusal Reading
  | [] => .ok (c, pending)
  | letter :: rest =>
    match Opt.ofLetter? letter with
    | none => .error .unknownArgument
    | some (.flag f) => do
      let c ← c.settle pending
      let c ← c.setFlag f
      readLetters c .nothing rest
    | some (.value o) => do
      let c ← c.settle pending
      match attachedValue? rest with
      | some value =>
        let c ← c.setValue o (String.ofList value)
        return (c, .nothing)
      | none => return (c, .awaiting o)

def readFile (c : CommandLine) (pending : Pending) (argument : String) : Except Refusal Reading :=
  match pending with
  | .file _ => .error .unknownArgument
  | _ =>
    if c.file.isSome then .error .unknownArgument
    else do
      let c ← c.settle pending
      return (c, .file argument)

/-- Read arguments; `optionsAllowed` says whether options may still come. -/
def readAll (c : CommandLine) (pending : Pending) (optionsAllowed : Bool) :
    List String → Except Refusal CommandLine
  | [] => c.settle pending
  | argument :: rest => do
    if optionsAllowed then
      match argument.toList, pending with
      | ['-', '-'], _ => c.readAll pending false rest
      | '-' :: '-' :: word, _ =>
        let name := word.takeWhile (· ≠ '=')
        let attached := match word.dropWhile (· ≠ '=') with
          | _ :: value => some value
          | [] => none
        let (c, pending) ← c.readWord pending name attached
        c.readAll pending true rest
      | '-' :: letter :: letters, _ =>
        let (c, pending) ← c.readLetters pending (letter :: letters)
        c.readAll pending true rest
      | _, .awaiting o => c.readAll (.value o argument) true rest
      | _, _ =>
        let (c, pending) ← c.readFile pending argument
        c.readAll pending true rest
    else
      let (c, pending) ← c.readFile pending argument
      c.readAll pending false rest

def parse (arguments : List String) : Except Refusal CommandLine :=
  empty.readAll .nothing true arguments

/-- The settings that a command line asks for. -/
def settings (c : CommandLine) : Settings where
  format := c.format.getD .text
  preprocessor :=
    if c.noCpp then none
    else some
      { command := c.cppCommand.getD Preprocessor.standard.command
        includeDirs := c.includeDirs
        defines := c.defines
        fallback := true }

/-- What is printed if no file is named. -/
def usage : String := "Please provide a file name as an argument"

/-- How a run of the program ends. -/
structure Completion where
  code : Nat
  output : ByteArray
  /-- What the program itself says of its end. -/
  errors : String

/-- The exit code of a program that is broken off. -/
def brokenOff : Nat := 101

/-- Carry out a command line. -/
def run (c : CommandLine) (parse : Reader) (h : Host) : Completion :=
  match c.file with
  | none => ⟨0, (usage ++ "\n").toUTF8, ""⟩
  | some path =>
    match c.settings.run parse h path (.empty none) with
    | (.ok _, out) => ⟨0, out.written, ""⟩
    | (.error (.failed failure), out) => ⟨1, out.written, "Error: " ++ failure.explain ++ "\n"⟩
    | (.error .overflow, out) => ⟨brokenOff, out.written, ""⟩

end CommandLine

end Uninit
