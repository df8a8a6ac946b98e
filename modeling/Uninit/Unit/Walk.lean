import Uninit.Unit

/-!
# Walking a unit

A `Visitor` is a state with four hooks. A walk calls the hook of each place before it goes
further in, and goes further in only where the hook says so. The default hooks change
nothing and always go on, so a visitor lists only the places it cares about.
-/
namespace Uninit

/-- Hooks over a state `σ`. The flag of a result says whether to walk on into the place. -/
structure Visitor (σ : Type) where
  /-- Called once for a whole unit. -/
  onUnit : TranslationUnit → σ → σ × Bool := fun _ s => (s, true)
  /-- Called for every item, before the hook of its kind. -/
  onItem : Item → σ → σ × Bool := fun _ s => (s, true)
  /-- Called for every declaration. -/
  onDecl : Decl → σ → σ := fun _ s => s
  /-- Called for every function definition with its name, line and body. -/
  onFunction : Option String → Nat → List Item → σ → σ × Bool := fun _ _ _ s => (s, true)

namespace Visitor

variable {σ : Type} (v : Visitor σ)

mutual

/-- Visit one item: its hook first, then what lies inside it. -/
def visit (s : σ) (item : Item) : σ :=
  let (s, onward) := v.onItem item s
  if onward then
    match item with
    | .decl d => v.onDecl d s
    | .function name line body =>
      let (s, onward) := v.onFunction name line body s
      if onward then visitAll s body else s
    | .branch consequence alternative => visitOption (visit s consequence) alternative
    | .forLoop init body => visit (visitAll s init) body
    | .whileLoop body | .doLoop body | .switch body | .label body => visit s body
    | .case stmts | .default stmts | .compound stmts => visitAll s stmts
    | .other => s
  else s

def visitAll (s : σ) : List Item → σ
  | [] => s
  | item :: rest => visitAll (visit s item) rest

def visitOption (s : σ) : Option Item → σ
  | none => s
  | some item => visit s item

end

/-- Visit a function given by its parts. -/
def visitFunction (s : σ) (name : Option String) (line : Nat) (body : List Item) : σ :=
  let (s, onward) := v.onFunction name line body s
  if onward then v.visitAll s body else s

def visitUnit (s : σ) (u : TranslationUnit) : σ :=
  let (s, onward) := v.onUnit u s
  if onward then v.visitAll s u.items else s

end Visitor

/-- What a walk meets, in the order in which it meets it. -/
inductive Event where
  | unit
  | item (kind : Item.Kind)
  | decl (name : Option String) (line : Nat) (isInitialized : Bool)
  | function (name : Option String) (line : Nat) (bodyLength : Nat)
deriving Repr, DecidableEq

/-- The places a walk does not enter. -/
structure Prune where
  /-- Stop after the event of the unit. -/
  unit : Bool := false
  /-- Do not enter the bodies of functions. -/
  functionBodies : Bool := false
  /-- Do not enter items of these kinds; their own hooks are not called either. -/
  kinds : List Item.Kind := []
deriving Repr, DecidableEq

namespace Event

/-- The visitor that appends an event at each hook and then walks on unless `p` forbids it. -/
def recorder (p : Prune) : Visitor (List Event) where
  onUnit _ s := (s ++ [.unit], !p.unit)
  onItem i s := (s ++ [.item i.kind], !p.kinds.contains i.kind)
  onDecl d s := s ++ [.decl d.name d.line d.isInitialized]
  onFunction name line body s := (s ++ [.function name line body.length], !p.functionBodies)

/-- The events of a walk over a unit, without what lies inside the pruned places. -/
def ofUnit (p : Prune) (u : TranslationUnit) : List Event :=
  (recorder p).visitUnit [] u

end Event

end Uninit
