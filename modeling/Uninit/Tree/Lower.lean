import Uninit.Tree.Fault
import Uninit.Tree.Spacing
import Uninit.Unit

/-!
# From trees to units

A tree is lowered to the unit of its declarations, functions and statements. A declaration
gives one item for each of its declarators, a bare tag specifier one without a name. Blocks
of a conditional directive dissolve into the list in which they stand, and comments vanish.
Everything that has no item of its own becomes `Item.other` and is not entered.

## Main definitions

* `Tree.declaredName`: the name that a declarator declares
* `Tree.declarations`: the items of a declaration
* `Tree.unit`: the unit of a whole tree
-/
namespace Uninit.Tree

mutual

/-- The name that a declarator declares: an identifier declares itself, parentheses and attributes
declare what their first named child declares, and every other form what its inner declarator
declares. -/
def declaredName (source : String) : Tree → Option String
  | node l cs =>
    match l.kind with
    | .identifier => some (Text.slice source l.start.byte l.stop.byte)
    | .parenthesizedDeclarator | .attributedDeclarator => firstDeclaredName source cs
    | _ => innerDeclaredName source cs

/-- The name that the first named node declares. -/
def firstDeclaredName (source : String) : List Tree → Option String
  | [] => none
  | t :: rest => if t.isNamed then declaredName source t else firstDeclaredName source rest

/-- The name that the first declarator among the nodes declares. -/
def innerDeclaredName (source : String) : List Tree → Option String
  | [] => none
  | t :: rest =>
    if t.field == some .declarator then declaredName source t else innerDeclaredName source rest

end

/-- The declarators among the parts of a declaration. -/
def declarators (parts : List Tree) : List Tree :=
  parts.filter fun t => t.field == some .declarator

/-- The parts of a declaration that start before its first declarator. -/
def specifiers (parts : List Tree) : List Tree :=
  match declarators parts with
  | [] => []
  | first :: _ => parts.takeWhile fun t => t.start.byte < first.start.byte

/-- The declaration of a declarator behind some specifier tokens. A declarator with an initializer
holds the declarator proper, and declares nothing without it. -/
def declarator? (source : String) (specifierTokens : List Token) (d : Tree) : Option Decl :=
  if d.kind = .initDeclarator then
    (d.child? .declarator).map fun target =>
      ⟨target.declaredName source, target.start.row + 1,
        Spacing.render [specifierTokens, target.tokens source (some d.kind)],
        (d.child? .value).map (Tree.text source)⟩
  else
    some ⟨d.declaredName source, d.start.row + 1,
      Spacing.render [specifierTokens, d.tokens source (some d.kind)], none⟩

/-- The declarations of a node of kind `declaration`, one for each declarator. -/
def declarations (source : String) (t : Tree) : List Decl :=
  (declarators t.children).filterMap
    (declarator? source (tokensOf source (some t.kind) (specifiers t.children)))

/-- The declaration of a tag specifier that stands alone. -/
def tagDeclaration (source : String) (t : Tree) : Decl :=
  ⟨none, t.start.row + 1, Spacing.render [t.tokens source none], none⟩

/-- What a node is lowered to, in every role in which it can stand. -/
structure Lowered where
  /-- The node itself. -/
  tree : Tree
  /-- Its items if it stands in a list of items. -/
  items : List Item
  /-- Its item if it stands as a statement. -/
  statement : Item
  /-- The items of its children, if it is the body of a function. -/
  inner : List Item
  /-- The item of its first named child, if it is an `else` clause. -/
  first : Item

namespace Lowered

/-- The items of the named nodes of a list. Of the nodes that play one of the parts in `skip`,
the first is left out. -/
def itemsOf (skip : List Field) : List Lowered → List Item
  | [] => []
  | p :: rest =>
    let own := if p.tree.isNamed then p.items else []
    match p.tree.field with
    | some f => if f ∈ skip then itemsOf (skip.erase f) rest else own ++ itemsOf skip rest
    | none => own ++ itemsOf skip rest

/-- The first of the nodes that plays a part. -/
def playing? (f : Field) (parts : List Lowered) : Option Lowered :=
  parts.find? fun p => p.tree.field == some f

/-- The statement that plays a part; without one, nothing is descended into. -/
def statementOf (f : Field) (parts : List Lowered) : Item :=
  ((playing? f parts).map statement).getD .other

/-- The first named node as a statement. -/
def firstOf (parts : List Lowered) : Item :=
  ((parts.find? fun p => p.tree.isNamed).map statement).getD .other

/-- The last named node as a statement, unless it is an attribute. -/
def lastOf (parts : List Lowered) : Item :=
  match parts.reverse.find? fun p => p.tree.isNamed with
  | some p => if p.tree.kind = .attributeDeclaration then .other else p.statement
  | none => .other

/-- A node as the other branch of an `if`. -/
def alternative (p : Lowered) : Item :=
  if p.tree.kind = .elseClause then p.first else p.statement

/-- The declarations in the first section of a loop. -/
def loopItems (source : String) (parts : List Lowered) : List Item :=
  match playing? .initializer parts with
  | some p => if p.tree.kind = .declaration then (declarations source p.tree).map .decl else []
  | none => []

/-- The statement of a node with the given parts. -/
def asStatement (source : String) (t : Tree) (parts : List Lowered) : Item :=
  match t.kind with
  | .functionDefinition =>
    .function ((t.child? .declarator).bind (declaredName source)) (t.start.row + 1)
      (((playing? .body parts).map inner).getD [])
  | .compoundStatement => .compound (itemsOf [] parts)
  | .ifStatement =>
    .branch (statementOf .consequence parts) ((playing? .alternative parts).map alternative)
  | .forStatement => .forLoop (loopItems source parts) (statementOf .body parts)
  | .whileStatement => .whileLoop (statementOf .body parts)
  | .doStatement => .doLoop (statementOf .body parts)
  | .switchStatement => .switch (statementOf .body parts)
  | .caseStatement =>
    if (playing? .value parts).isSome then .case (itemsOf [.value] parts)
    else .default (itemsOf [.value] parts)
  | .labeledStatement => .label (.compound (itemsOf [.label] parts))
  | .attributedStatement => lastOf parts
  | .declaration => .compound ((declarations source t).map .decl)
  | _ => .other

/-- The items of a node with the given parts. -/
def asItems (source : String) (t : Tree) (parts : List Lowered) : List Item :=
  match t.kind with
  | .comment => []
  | .declaration => (declarations source t).map .decl
  | .structSpecifier | .unionSpecifier | .enumSpecifier => [.decl (tagDeclaration source t)]
  | .conditionalBlock | .definedBlock | .conditionalBranch | .definedBranch | .lastBranch =>
    itemsOf [.condition, .name] parts
  | _ => [asStatement source t parts]

end Lowered

mutual

/-- Lower a node in every role. -/
def lower (source : String) : Tree → Lowered
  | node l cs =>
    let parts := lowerAll source cs
    ⟨node l cs, Lowered.asItems source (node l cs) parts,
      Lowered.asStatement source (node l cs) parts, Lowered.itemsOf [] parts,
      Lowered.firstOf parts⟩

def lowerAll (source : String) : List Tree → List Lowered
  | [] => []
  | t :: rest => lower source t :: lowerAll source rest

end

/-- The unit of a whole tree. -/
def unit (source : String) (t : Tree) : TranslationUnit :=
  ⟨(t.lower source).inner⟩

/-- Read the unit of a tree, unless something is wrong in it. -/
def read (source : String) (t : Tree) : Except Fault TranslationUnit :=
  match t.fault? source with
  | some fault => .error fault
  | none => .ok (t.unit source)

end Uninit.Tree
