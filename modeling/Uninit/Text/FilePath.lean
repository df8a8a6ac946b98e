/-!
# File paths

Two spellings of a path are the same path when their components are. Repeated and trailing
slashes and inner `.` do not count; a leading `.` does, and `..` is never resolved.
-/
namespace Uninit.Text.FilePath

/-- A part of a path. -/
inductive Component where
  /-- The slash in front of an absolute path. -/
  | root
  /-- A `.` at the very beginning. -/
  | here
  /-- A `..`. -/
  | parent
  | name (text : List Char)
deriving Repr, DecidableEq

def splitSlashes : List Char → List (List Char)
  | [] => [[]]
  | c :: rest =>
    if c = '/' then [] :: splitSlashes rest
    else match splitSlashes rest with
      | [] => [[c]]
      | piece :: more => (c :: piece) :: more

/-- The component that a piece after the first place stands for, if any. -/
def componentOf (piece : List Char) : Option Component :=
  if piece = [] ∨ piece = ['.'] then none
  else if piece = ['.', '.'] then some .parent
  else some (.name piece)

def components (path : List Char) : List Component :=
  match splitSlashes path with
  | [] => []
  | first :: rest =>
    let inner := rest.filterMap componentOf
    match first with
    | [] => if path.isEmpty then [] else .root :: inner
    | ['.'] => .here :: inner
    | _ => (componentOf first).toList ++ inner

/-- Whether two spellings name the same path. -/
def same (a b : String) : Bool :=
  components a.toList = components b.toList

end Uninit.Text.FilePath
