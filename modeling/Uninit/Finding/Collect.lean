import Uninit.Finding
import Uninit.Unit.Walk

/-!
# Collecting findings

The collector is the visitor that notes every declaration without an initializer. Its state
only ever grows, so one collector can be taken over any number of units, items, declarations
and functions.
-/
namespace Uninit

namespace Finding

/-- The visitor that appends a finding for each declaration without an initializer. -/
def collector : Visitor (List Finding) where
  onDecl d found := if d.isInitialized then found else found ++ [ofDecl d]

/-- The findings of a unit, in the order of the walk, which is source order. -/
def ofUnit (u : TranslationUnit) : List Finding :=
  collector.visitUnit [] u

end Finding

/-- The visitor that appends every declaration it meets, initialized or not. -/
def Decl.lister : Visitor (List Decl) where
  onDecl d met := met ++ [d]

/-- The declarations of a unit, in the order of the walk. -/
def Decl.ofUnit (u : TranslationUnit) : List Decl :=
  lister.visitUnit [] u

namespace Finding

/-- One use of a collector. -/
inductive Step where
  | unit (u : TranslationUnit)
  | item (i : Item)
  | decl (d : Decl)
  | function (name : Option String) (line : Nat) (body : List Item)
  /-- Read a text and visit its unit; a text that cannot be read adds nothing. -/
  | text (source : String)
deriving Repr

/-- What a collector holds after one more step, where `parse` reads texts. -/
def Step.apply (parse : String → Option TranslationUnit) (found : List Finding) :
    Step → List Finding
  | unit u => collector.visitUnit found u
  | item i => collector.visit found i
  | decl d => collector.onDecl d found
  | function name line body => collector.visitFunction found name line body
  | text source =>
    match parse source with
    | some u => collector.visitUnit found u
    | none => found

/-- What a collector holds after each of the steps. -/
def Step.states (parse : String → Option TranslationUnit) (found : List Finding) :
    List Step → List (List Finding)
  | [] => []
  | step :: rest =>
    let found := step.apply parse found
    found :: Step.states parse found rest

end Finding

end Uninit
