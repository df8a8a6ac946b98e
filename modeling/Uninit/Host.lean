/-!
# Hosts

What a program sees of the machine it runs on: files that can be read and commands that can
be launched.
-/
namespace Uninit

/-- Why a file or a command is refused. -/
structure OsError where
  /-- The number of the error. What is refused before the system is asked has none. -/
  code : Option Nat
  /-- What the error says, without its number. -/
  reason : String
deriving Repr, DecidableEq

namespace OsError

def notFound : OsError := ⟨some 2, "No such file or directory"⟩

def permissionDenied : OsError := ⟨some 13, "Permission denied"⟩

def notADirectory : OsError := ⟨some 20, "Not a directory"⟩

def isADirectory : OsError := ⟨some 21, "Is a directory"⟩

/-- A character with the code zero in the name of a file. -/
def zeroInName : OsError := ⟨none, "file name contained an unexpected NUL byte"⟩

/-- A character with the code zero in a command or an argument. -/
def zeroInCommand : OsError := ⟨none, "nul byte found in provided data"⟩

def isNotFound (e : OsError) : Bool :=
  e.code == some 2

def message (e : OsError) : String :=
  match e.code with
  | some code => e.reason ++ " (os error " ++ toString code ++ ")"
  | none => e.reason

end OsError

/-- What a command leaves behind. -/
structure Exit where
  /-- The exit code; a command that was killed has none. -/
  code : Option Nat
  output : List UInt8
  errors : List UInt8
deriving Repr, DecidableEq

/-- How a command ended, or why it did not start. -/
inductive Launch where
  | refused (cause : OsError)
  | exited (result : Exit)
deriving Repr, DecidableEq

/-- The files and commands of a machine. -/
structure Host where
  /-- Whether a path names a regular file. -/
  isFile : String → Bool
  /-- The bytes of a file. -/
  read : String → Except OsError (List UInt8)
  /-- Launch a command with arguments and wait for its end. -/
  launch : String → List String → Launch

end Uninit
