import Uninit.Unit

/-!
# Findings

A finding names one declaration that has no initializer.
-/
namespace Uninit

/-- A declaration without an initializer. -/
structure Finding where
  line : Nat
  name : Option String
  text : String
deriving Repr, DecidableEq, Inhabited

namespace Finding

/-- The finding of a declaration. -/
def ofDecl (d : Decl) : Finding :=
  ⟨d.line, d.name, d.text⟩

end Finding

end Uninit
