import Uninit.Host.Script
import Uninit.Text.FilePath
import Uninit.Text.Utf8

/-!
# A host in memory

A working directory that is given as a value, with the commands `cat`, `true` and `false`
installed. A path with a slash in it can name a shell script as a command.
-/
namespace Uninit.Memory

/-- What a directory holds under a name. -/
inductive Entry where
  | file (bytes : List UInt8) (executable : Bool)
  | directory (entries : List (List Char × Entry))

def Entry.empty : Entry :=
  .directory []

def Entry.child? (name : List Char) : List (List Char × Entry) → Option Entry
  | [] => none
  | (n, e) :: rest => if n = name then some e else child? name rest

/-- Put an entry at a path, with the directories on the way. -/
def Entry.insert (value : Entry) : List (List Char) → Entry → Entry
  | [], old =>
    match value, old with
    | .directory [], .directory entries => .directory entries
    | _, _ => value
  | name :: path, old =>
    let entries := match old with
      | .directory entries => entries
      | .file .. => []
    let inner := (child? name entries).getD .empty
    .directory ((name, value.insert path inner) :: entries.filter (·.1 ≠ name))

/-- Follow a path that has been cut at its slashes, from the last of the directories that have
been entered. Where none is left, the path has led out of the working directory. -/
def resolve (entered : List Entry) : List (List Char) → Except OsError Entry
  | [] => .ok (entered.headD .empty)
  | piece :: rest =>
    match entered with
    | .file .. :: _ => .error .notADirectory
    | .directory entries :: outer =>
      if piece = [] ∨ piece = ['.'] then resolve entered rest
      else if piece = ['.', '.'] then resolve outer rest
      else match Entry.child? piece entries with
        | some e => resolve (e :: entered) rest
        | none => .error .notFound
    | [] =>
      if piece = [] ∨ piece = ['.'] ∨ piece = ['.', '.'] then resolve [] rest
      else .error .notFound

/-- What a path names. Nothing stands outside the working directory. -/
def lookup (root : Entry) (path : String) : Except OsError Entry :=
  if path.toList.contains '\x00' then .error .zeroInName
  else match Text.FilePath.splitSlashes path.toList with
    | [[]] | [] :: _ => .error .notFound
    | pieces => resolve [root] pieces

def read (root : Entry) (path : String) : Except OsError (List UInt8) :=
  match lookup root path with
  | .ok (.file bytes _) => .ok bytes
  | .ok (.directory _) => .error .isADirectory
  | .error e => .error e

/-- Launch a command. -/
def launch (root : Entry) (command : String) (arguments : List String) : Launch :=
  if (command :: arguments).any (·.toList.contains '\x00') then .refused .zeroInCommand
  else if command.toList.contains '/' then
    match lookup root command with
    | .ok (.file bytes true) =>
      .exited (Script.run (String.ofList (Text.Utf8.decode bytes)) (read root) arguments)
    | .ok _ => .refused .permissionDenied
    | .error e => .refused e
  else match command with
    | "cat" => .exited (Script.cat (read root) arguments)
    | "true" => .exited ⟨some 0, [], []⟩
    | "false" => .exited ⟨some 1, [], []⟩
    | _ => .refused .notFound

def host (root : Entry) : Host where
  isFile path := match lookup root path with
    | .ok (.file ..) => true
    | _ => false
  read := read root
  launch := launch root

end Uninit.Memory
