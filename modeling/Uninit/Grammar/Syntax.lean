import Uninit.Analysis
import Uninit.Grammar.Parse
import Uninit.Tree.Lower

/-!
# Trees of C texts

The best derivation of a text is shown as a tree: phrases that are no node of their own give way
to their parts, which then play the part of the phrase.

## Main definitions

* `Grammar.parse`: the tree of a text
* `Grammar.read`: the unit of a text, or its first fault
-/
namespace Uninit.Grammar

namespace Derivation

mutual

/-- The nodes that a derivation makes where it plays a part and may be called by another kind. -/
def shown (field : Option Tree.Field) (kind : Option Tree.Kind) : Derivation → List Tree
  | node s ps =>
    match kind.or s.root.kind? with
    | some k =>
      [.node ⟨k, field, s.start, s.stop.point, s.missing, decide (0 < s.cost)⟩
        (shownAll none s.steps ps)]
    | none => shownAll field s.steps ps

/-- The nodes that the parts of a derivation make, where the whole plays a part and follows the
steps of a production. -/
def shownAll (field : Option Tree.Field) : List Step → List Derivation → List Tree
  | _, [] => []
  | steps, d :: rest =>
    if d.isExtra then shown none none d ++ shownAll field steps rest
    else
      match steps with
      | [] => shown field none d ++ shownAll field [] rest
      | s :: more => shown (s.field.or field) s.kind d ++ shownAll field more rest

end

end Derivation

/-- The tree of a text that could not be read at all. -/
def unread (text : List Char) : Tree :=
  .node ⟨.error, none, .origin, ((Cursor.start text).advance text.length).point, false, true⟩ []

/-- The tree of a text. -/
def parse (source : String) : Tree :=
  let text := source.toList
  match derive text with
  | some d => ((d.shown none none).head?).getD (unread text)
  | none => unread text

/-- The unit of a text, or its first fault. -/
def read : Reader := fun source =>
  (parse source).read source

end Uninit.Grammar
