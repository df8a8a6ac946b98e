import Uninit.Proofs.Comments

/-!
# Declarations that are overlooked

A declaration can stand deep inside a node that is not entered: in the braces of a linkage
specification, before the body of an old-style function, or in a block that is used as an
expression. Such a declaration is overlooked. Every other declaration of a tree is declared by
exactly one site, so a unit has all declarations of its tree exactly if the ones that are
overlooked declare nothing.

## Main definitions

* `Tree.declarationNodes`: all declarations of a tree, wherever they stand
* `Site.overlooked`: the declarations that are lost at a site

## Main statements

* `perm_declarationNodes`: a declaration is declared by a site or overlooked at one
* `declsOf_unit_complete_iff`: which trees are lowered to units with all their declarations
-/
namespace Uninit.Tree

variable (source : String)

/-! ## All declarations of a tree -/

mutual

/-- The nodes of a tree, in the order of the document. -/
def nodes : Tree → List Tree
  | node l cs => node l cs :: nodesOf cs

def nodesOf : List Tree → List Tree
  | [] => []
  | t :: rest => nodes t ++ nodesOf rest

end

theorem nodesOf_eq_flatMap (cs : List Tree) : nodesOf cs = cs.flatMap nodes := by
  induction cs with
  | nil => rfl
  | cons c rest ih => rw [nodesOf, ih, List.flatMap_cons]

theorem nodes_node (l : Label) (cs : List Tree) :
    (node l cs).nodes = node l cs :: cs.flatMap nodes := by
  rw [nodes, nodesOf_eq_flatMap]

/-- Whether a node is a declaration. -/
def isDeclaration (t : Tree) : Bool :=
  t.kind == .declaration

/-- The declarations of a tree, wherever they stand in it. -/
def declarationNodes (t : Tree) : List Tree :=
  t.nodes.filter isDeclaration

theorem declarationNodes_node (l : Label) (cs : List Tree) :
    (node l cs).declarationNodes =
      [node l cs].filter isDeclaration ++ cs.flatMap declarationNodes := by
  rw [declarationNodes, nodes_node, ← List.singleton_append, List.filter_append,
    List.filter_flatMap]
  rfl

/-! ## Declared or overlooked -/

/-- The node itself, if it is a declaration and is reached in a role in which it declares. -/
def declaredAs (r : Role) (t : Tree) : List Tree :=
  if r = .body then [] else [t].filter isDeclaration

/-- The declarations that are lost in a slot of a node: all of them if the child plays no role. -/
def Slot.lost (r : Role) (k : Kind) (p : Slot) : List Tree :=
  if (p.role? r k).isNone then p.child.declarationNodes else []

/-- The declarations that are lost where a node is reached in a role: those in children that play
no role, and itself if it stands where a body is due. -/
def overlookedAs (r : Role) (t : Tree) : List Tree :=
  (if r = .body then [t].filter isDeclaration else []) ++
    (slots t.children).flatMap (Slot.lost r t.kind)

/-- The declaration of a tag specifier in a list of items. -/
def tagDeclsAs (r : Role) (t : Tree) : List Decl :=
  if r = .item ∧ t.kind.isTag then [tagDeclaration source t] else []

theorem ownDecls_eq_append (r : Role) (t : Tree) :
    ownDecls source r t =
      tagDeclsAs source r t ++ (declaredAs r t).flatMap (declarations source) := by
  rw [ownDecls, tagDeclsAs, declaredAs]
  by_cases hbody : r = .body
  · simp [hbody]
  · by_cases hk : t.kind = .declaration
    · simp [hbody, hk, isDeclaration, Kind.isTag]
    · simp [hbody, hk, isDeclaration]

namespace Site

/-- The declaration that a site declares, if it is one. -/
def declared (site : Site) : List Tree :=
  declaredAs site.role site.tree

/-- The declarations that are lost at a site. -/
def overlooked (site : Site) : List Tree :=
  overlookedAs site.role site.tree

/-- The declaration of a tag specifier that is a site. -/
def tagDecls (site : Site) : List Decl :=
  tagDeclsAs source site.role site.tree

end Site

/-- What is said of sites by their roles and trees alone can be said of them below a slot. -/
theorem flatMap_sitesThrough {α : Type} (f : Role → Tree → List α) (r : Role) (k : Kind)
    (p : Slot) :
    (sitesThrough r k p).flatMap (fun site => f site.role site.tree) =
      (p.role? r k).elim [] fun r' =>
        (sitesAs r' p.child).flatMap fun site => f site.role site.tree := by
  rw [sitesThrough]
  cases p.role? r k with
  | none => rfl
  | some r' =>
    simp only [Option.elim_some, List.flatMap_map]
    rfl

/-- The declarations at the sites that are reached from a node. -/
def sitedAs (r : Role) (t : Tree) : List Tree :=
  (sitesAs r t).flatMap fun site => site.declared ++ site.overlooked

theorem sitedAs_node (r : Role) (l : Label) (cs : List Tree) :
    sitedAs r (node l cs) = declaredAs r (node l cs) ++ overlookedAs r (node l cs) ++
      (slots cs).flatMap fun p => (p.role? r l.kind).elim [] fun r' => sitedAs r' p.child := by
  rw [sitedAs, sitesAs_node, List.flatMap_cons, List.flatMap_assoc]
  congr 1
  exact List.flatMap_congr fun p _ =>
    flatMap_sitesThrough (fun r t => declaredAs r t ++ overlookedAs r t) r l.kind p

/-- A slot either hands out a role or loses all that is in its child. -/
theorem perm_lost_append {r : Role} {k : Kind} {p : Slot}
    (h : ∀ r', p.child.declarationNodes.Perm (sitedAs r' p.child)) :
    (p.lost r k ++ (p.role? r k).elim [] fun r' => sitedAs r' p.child).Perm
      p.child.declarationNodes := by
  rw [Slot.lost]
  cases p.role? r k with
  | none => simp
  | some r' => simpa using (h r').symm

/-- **A declaration of a tree is declared by a site or overlooked at one**, and only once. -/
theorem perm_declarationNodes (r : Role) (t : Tree) :
    t.declarationNodes.Perm (sitedAs r t) := by
  induction t using induct generalizing r with
  | node l cs ih =>
    have hhere : declaredAs r (node l cs) ++ overlookedAs r (node l cs) =
        [node l cs].filter isDeclaration ++ (slots cs).flatMap (Slot.lost r l.kind) := by
      rw [declaredAs, overlookedAs]
      by_cases hbody : r = .body <;> simp [hbody, kind, label, children]
    have hcs : cs.flatMap declarationNodes =
        (slots cs).flatMap fun p => p.child.declarationNodes := by
      have hmap := List.flatMap_map (f := Slot.child) declarationNodes (slots cs)
      rwa [slots, map_child_slotsFrom] at hmap
    rw [declarationNodes_node, sitedAs_node, hhere, hcs, List.append_assoc]
    refine .append_left _ (.symm ?_)
    refine (List.flatMap_append_perm _ _ _).trans (.flatMap_left _ fun p hp => ?_)
    exact perm_lost_append fun r' => ih p.child (child_mem_of_mem_slots hp) r'

/-- The declarations of a unit: the tags that stand alone, and what the sites declare. -/
theorem perm_declsOf_unit (t : Tree) :
    (Item.declsOf (t.unit source).items).Perm
      (t.sites.flatMap (Site.tagDecls source) ++
        (t.sites.flatMap Site.declared).flatMap (declarations source)) := by
  have hsites : t.sites.flatMap (Site.decls source) = t.sites.flatMap fun site =>
      site.tagDecls source ++ site.declared.flatMap (declarations source) :=
    List.flatMap_congr fun site _ => ownDecls_eq_append source site.role site.tree
  rw [List.flatMap_assoc]
  refine (declsOf_unit source t).1.trans ?_
  rw [hsites]
  exact (List.flatMap_append_perm _ _ _).symm

/-- **A unit has all declarations of its tree exactly if the overlooked ones declare nothing.** The
unit has each declarator of each declaration, wherever it stands in the tree, and beside these only
the tags that stand alone, exactly if no declaration with a declarator stands in a child that plays
no role. -/
theorem declsOf_unit_complete_iff (t : Tree) :
    (Item.declsOf (t.unit source).items).Perm
        (t.sites.flatMap (Site.tagDecls source) ++
          t.declarationNodes.flatMap (declarations source)) ↔
      ∀ site ∈ t.sites, ∀ d ∈ site.overlooked, declarations source d = [] := by
  have hnodes : (t.declarationNodes.flatMap (declarations source)).Perm
      ((t.sites.flatMap Site.declared).flatMap (declarations source) ++
        (t.sites.flatMap Site.overlooked).flatMap (declarations source)) := by
    rw [← List.flatMap_append]
    exact (((perm_declarationNodes .body t).trans
      (List.flatMap_append_perm _ _ _).symm).flatMap_right _)
  have hlost : (t.sites.flatMap Site.overlooked).flatMap (declarations source) = [] ↔
      ∀ site ∈ t.sites, ∀ d ∈ site.overlooked, declarations source d = [] := by
    simp only [List.flatMap_eq_nil_iff, List.mem_flatMap, forall_exists_index, and_imp]
    exact ⟨fun h site hsite d hd => h d site hsite hd, fun h d site hsite hd => h site hsite d hd⟩
  rw [← hlost]
  constructor
  · intro h
    have hlength := (((perm_declsOf_unit source t).symm.trans h).trans
      (hnodes.append_left _)).length_eq
    simp only [List.length_append] at hlength
    exact List.eq_nil_of_length_eq_zero (by omega)
  · intro h
    rw [h, List.append_nil] at hnodes
    exact (perm_declsOf_unit source t).trans (hnodes.symm.append_left _)

example : ∀ site ∈ branchTree.sites, site.overlooked = [] := by decide +kernel

/-- The tree of `extern "C"{int x;}`. -/
def linkageTree : Tree :=
  oneLine (.other "translation_unit") none 0 18 [
    oneLine (.other "linkage_specification") none 0 18 [
      oneLine (.token "extern") none 0 6 [],
      oneLine (.other "string_literal") (some .value) 7 10 [
        oneLine (.token "\"") none 7 8 [],
        oneLine (.other "string_content") none 8 9 [],
        oneLine (.token "\"") none 9 10 []],
      oneLine (.other "declaration_list") (some .body) 10 18 [
        oneLine (.token "\x7b") none 10 11 [],
        oneLine .declaration none 11 17 [
          oneLine (.other "primitive_type") none 11 14 [],
          oneLine .identifier (some .declarator) 15 16 [],
          oneLine (.token ";") none 16 17 []],
        oneLine (.token "\x7d") none 17 18 []]]]

/-- The text of `linkageTree`. -/
def linkageText : String :=
  "extern \"C\"\x7bint x;\x7d"

/-- The declaration in a linkage specification is overlooked. -/
theorem declsOf_linkageTree_incomplete :
    linkageTree.fault? linkageText = none ∧ linkageTree.withoutComments = linkageTree ∧
      linkageTree.declarationNodes.flatMap (declarations linkageText) =
        [⟨some "x", 1, "int x", none⟩] ∧
      Item.declsOf (linkageTree.unit linkageText).items = [] ∧
      Finding.ofUnit (linkageTree.unit linkageText) = [] := by
  refine ⟨rfl, rfl, ?_, ?_, ?_⟩ <;> decide +kernel

end Uninit.Tree
