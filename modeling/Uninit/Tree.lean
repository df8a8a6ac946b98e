/-!
# Syntax trees

A syntax tree keeps every token of a C text: a node has a kind, the part it plays in its
parent, the place where it stands, and its children in source order. The text of a node is
the slice of the source between its ends, so a tree holds no text of its own.

Comments can be a child of any node. A tree also tells where the text is no C: as an error
node around what has no place, or as a missing token of no length.

## Main definitions

* `Tree`, `Tree.Kind`, `Tree.Field`, `Tree.Point`
* `Tree.child?`: the child that plays a part
-/
namespace Uninit

/-- A part of a text, given by the bytes where it starts and ends. It is empty if one of these
places is beyond the text or inside a character. -/
def Text.slice (source : String) (start stop : Nat) : String :=
  if String.Pos.Raw.isValid source ⟨start⟩ && String.Pos.Raw.isValid source ⟨stop⟩ then
    String.Pos.Raw.extract source ⟨start⟩ ⟨stop⟩
  else ""

namespace Tree

/-- A place in a text, counted from zero: bytes from the start, line feeds before it, and bytes
from the start of its line. -/
structure Point where
  byte : Nat
  row : Nat
  column : Nat
deriving Repr, DecidableEq, Inhabited

/-- The start of a text. -/
def Point.origin : Point :=
  ⟨0, 0, 0⟩

def Point.next (p : Point) (c : Char) : Point :=
  if c = '\n' then ⟨p.byte + 1, p.row + 1, 0⟩
  else ⟨p.byte + c.utf8Size, p.row, p.column + c.utf8Size⟩

/-- The names of the kinds that have a constructor of their own. -/
def ownNames : List String :=
  ["comment", "identifier", "field_identifier", "declaration", "init_declarator",
    "parenthesized_declarator", "attributed_declarator", "pointer_declarator",
    "abstract_pointer_declarator", "pointer_expression", "struct_specifier", "union_specifier",
    "enum_specifier", "function_definition", "compound_statement", "if_statement", "else_clause",
    "for_statement", "while_statement", "do_statement", "switch_statement", "case_statement",
    "labeled_statement", "attributed_statement", "attribute_declaration", "preproc_if",
    "preproc_ifdef", "preproc_elif", "preproc_elifdef", "preproc_else", "ERROR"]

/-- What a node is. Only the kinds that decide something have a constructor of their own. -/
inductive Kind where
  | comment
  | identifier
  | fieldIdentifier
  | declaration
  | initDeclarator
  | parenthesizedDeclarator
  | attributedDeclarator
  | pointerDeclarator
  | abstractPointerDeclarator
  | pointerExpression
  | structSpecifier
  | unionSpecifier
  | enumSpecifier
  | functionDefinition
  | compoundStatement
  | ifStatement
  | elseClause
  | forStatement
  | whileStatement
  | doStatement
  | switchStatement
  | caseStatement
  | labeledStatement
  | attributedStatement
  | attributeDeclaration
  /-- A block that begins with `#if`. -/
  | conditionalBlock
  /-- A block that begins with `#ifdef` or `#ifndef`. -/
  | definedBlock
  /-- A branch that begins with `#elif`. -/
  | conditionalBranch
  /-- A branch that begins with `#elifdef` or `#elifndef`. -/
  | definedBranch
  /-- A branch that begins with `#else`. -/
  | lastBranch
  /-- Any other kind of node, by its name. -/
  | other (name : String) (own : ownNames.contains name = false := by exact Eq.refl false)
  /-- A token that is known by its text alone. -/
  | token (text : String)
  /-- A part of the text that has no place. -/
  | error
deriving Repr, DecidableEq, Inhabited

namespace Kind

def name : Kind → String
  | comment => "comment"
  | identifier => "identifier"
  | fieldIdentifier => "field_identifier"
  | declaration => "declaration"
  | initDeclarator => "init_declarator"
  | parenthesizedDeclarator => "parenthesized_declarator"
  | attributedDeclarator => "attributed_declarator"
  | pointerDeclarator => "pointer_declarator"
  | abstractPointerDeclarator => "abstract_pointer_declarator"
  | pointerExpression => "pointer_expression"
  | structSpecifier => "struct_specifier"
  | unionSpecifier => "union_specifier"
  | enumSpecifier => "enum_specifier"
  | functionDefinition => "function_definition"
  | compoundStatement => "compound_statement"
  | ifStatement => "if_statement"
  | elseClause => "else_clause"
  | forStatement => "for_statement"
  | whileStatement => "while_statement"
  | doStatement => "do_statement"
  | switchStatement => "switch_statement"
  | caseStatement => "case_statement"
  | labeledStatement => "labeled_statement"
  | attributedStatement => "attributed_statement"
  | attributeDeclaration => "attribute_declaration"
  | conditionalBlock => "preproc_if"
  | definedBlock => "preproc_ifdef"
  | conditionalBranch => "preproc_elif"
  | definedBranch => "preproc_elifdef"
  | lastBranch => "preproc_else"
  | other name _ => name
  | token text => text
  | error => "ERROR"

/-- Whether a kind has a name; a token known by its text alone has none. -/
def isNamed : Kind → Bool
  | token _ => false
  | _ => true

/-- Whether a `*` directly inside makes a pointer, and so belongs to what follows it. -/
def makesPointer : Kind → Bool
  | pointerDeclarator | abstractPointerDeclarator | pointerExpression => true
  | _ => false

end Kind

/-- The part that a node plays in its parent. -/
inductive Field where
  | declarator | body | consequence | alternative | initializer | value | label | condition | name
deriving Repr, DecidableEq, Inhabited

/-- All there is to a node beside its children. -/
structure Label where
  kind : Kind
  /-- The part it plays in its parent, if that part has a name. -/
  field : Option Field
  start : Point
  stop : Point
  /-- It is a token that had to be there and is not. -/
  missing : Bool
  /-- Something is wrong in it, or it is itself wrong. -/
  flawed : Bool
deriving Repr, DecidableEq, Inhabited

end Tree

/-- A node of a syntax tree with everything below it. -/
inductive Tree where
  | node (label : Tree.Label) (children : List Tree)
deriving Repr, Inhabited

namespace Tree

def label : Tree → Label
  | node l _ => l

/-- The nodes directly below, in source order. -/
def children : Tree → List Tree
  | node _ cs => cs

def kind (t : Tree) : Kind :=
  t.label.kind

def field (t : Tree) : Option Field :=
  t.label.field

def start (t : Tree) : Point :=
  t.label.start

def stop (t : Tree) : Point :=
  t.label.stop

/-- Whether the kind of the node has a name. -/
def isNamed (t : Tree) : Bool :=
  t.kind.isNamed

def text (source : String) (t : Tree) : String :=
  Text.slice source t.start.byte t.stop.byte

/-- The first of the nodes that plays a part. -/
def playing? (f : Field) (ts : List Tree) : Option Tree :=
  ts.find? fun t => t.field == some f

/-- The first child that plays a part. -/
def child? (t : Tree) (f : Field) : Option Tree :=
  playing? f t.children

end Tree

end Uninit
