import Uninit.Failure
import Uninit.Text.Line
import Uninit.Tree

/-!
# The first fault of a tree

A tree is at fault where it has an error node or a missing token. The search goes down in
source order and passes over every node in which nothing is wrong.
-/
namespace Uninit.Tree

/-- Whether the node itself is an error or a missing token. -/
def isFault (t : Tree) : Bool :=
  t.kind == .error || t.label.missing

mutual

/-- The first error or missing token, an outer one before those inside it. -/
def firstFault : Tree → Option Tree
  | node l cs =>
    if l.kind == .error || l.missing then some (node l cs)
    else if l.flawed then firstFaultIn cs
    else none

def firstFaultIn : List Tree → Option Tree
  | [] => none
  | t :: rest =>
    match firstFault t with
    | some found => some found
    | none => firstFaultIn rest

end

/-- How many characters of an unexpected text are shown. -/
def shownLength : Nat := 40

/-- The start of the first line of a text. -/
def opening (text : String) : String :=
  String.ofList (((Text.lines text.toList).headD []).take shownLength)

def cause (source : String) (t : Tree) : Fault.Cause :=
  if t.label.missing then .missing t.kind.name
  else .unexpected (opening (t.text source))

/-- A faulty node as it is told, with lines and columns from one. -/
def describe (source : String) (t : Tree) : Fault :=
  ⟨t.start.row + 1, t.start.column + 1, t.cause source⟩

/-- The first fault of a tree, if anything is wrong in it. -/
def fault? (source : String) (t : Tree) : Option Fault :=
  if t.label.flawed then some (((firstFault t).getD t).describe source) else none

end Uninit.Tree
