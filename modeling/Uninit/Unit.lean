/-!
# Translation units

A translation unit is a list of items: declarations, function definitions and the
statements that can hold further declarations. Every other statement is `Item.other`.
Lines are numbered from one; a unit built by hand may carry any number.
-/
namespace Uninit

/-- One declared entity. `int a, b;` is two of these, and a bare `struct s { ... };` is one
without a name. -/
structure Decl where
  /-- The declared identifier, if there is one. -/
  name : Option String
  /-- The line on which the declarator starts. -/
  line : Nat
  /-- The declaration as it is reported: specifiers and declarator, without the initializer. -/
  text : String
  /-- The initializer as it stands in the source. -/
  initializer : Option String
deriving Repr, DecidableEq, Inhabited

namespace Decl

/-- A declaration counts as initialized as soon as an initializer is present, be it empty. -/
def isInitialized (d : Decl) : Bool :=
  d.initializer.isSome

end Decl

/-- A declaration, a function definition, or a statement. -/
inductive Item where
  | decl (d : Decl)
  | function (name : Option String) (line : Nat) (body : List Item)
  | branch (consequence : Item) (alternative : Option Item)
  /-- A `for` loop; `init` is empty unless the first section declares something. -/
  | forLoop (init : List Item) (body : Item)
  | whileLoop (body : Item)
  | doLoop (body : Item)
  | switch (body : Item)
  /-- A `case` label with the statements up to the next label. -/
  | case (stmts : List Item)
  /-- A `default` label with the statements up to the next label. -/
  | default (stmts : List Item)
  | compound (stmts : List Item)
  | label (body : Item)
  /-- Anything that is not descended into. -/
  | other
deriving Repr, Inhabited

namespace Item

/-- The kinds of item, one for each constructor. -/
inductive Kind where
  | decl | function | branch | forLoop | whileLoop | doLoop | switch | case | default
  | compound | label | other
deriving Repr, DecidableEq, Inhabited

def kind : Item → Kind
  | decl _ => .decl
  | function .. => .function
  | branch .. => .branch
  | forLoop .. => .forLoop
  | whileLoop _ => .whileLoop
  | doLoop _ => .doLoop
  | switch _ => .switch
  | case _ => .case
  | default _ => .default
  | compound _ => .compound
  | label _ => .label
  | other => .other

def children : Item → List Item
  | decl _ | other => []
  | function _ _ body | case body | default body | compound body => body
  | branch consequence alternative => consequence :: alternative.toList
  | forLoop init body => init ++ [body]
  | whileLoop body | doLoop body | switch body | label body => [body]

end Item

/-- The items of one source file. -/
structure TranslationUnit where
  items : List Item
deriving Repr, Inhabited

end Uninit
