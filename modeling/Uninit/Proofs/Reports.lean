import Uninit.Proofs.Lowering

/-!
# The findings of a tree

The findings of a unit that a tree is lowered to can be read off the tree: each site that is a
declaration gives one for every declarator without an initializer, and each site that is a tag
specifier in a list of items gives one without a name.

## Main definitions

* `Site.findings`: the findings of a site, read off its node

## Main statements

* `findings_unit_exact`: the findings of a tree are those of its sites
-/
namespace Uninit.Tree

variable (source : String)

/-- The declarator proper: a declarator with an initializer holds it, any other is it. -/
def proper? (d : Tree) : Option Tree :=
  if d.kind = .initDeclarator then d.child? .declarator else some d

def hasInitializer (d : Tree) : Bool :=
  d.kind == .initDeclarator && (d.child? .value).isSome

/-- The finding of a declarator of the declaration `t`, unless it comes with an initializer: the
row of the declarator proper, counted from one, the name that it declares, and the specifiers of
the declaration before it. -/
def declaratorFinding? (t d : Tree) : Option Finding :=
  if d.hasInitializer then none
  else d.proper?.map fun target =>
    ⟨target.start.row + 1, target.declaredName source,
      Spacing.render [tokensOf source (some t.kind) (specifiers t.children),
        target.tokens source (some d.kind)]⟩

/-- The findings of a declaration, one for each declarator without an initializer. -/
def declarationFindings (t : Tree) : List Finding :=
  (declarators t.children).filterMap (declaratorFinding? source t)

def tagFinding (t : Tree) : Finding :=
  ⟨t.start.row + 1, none, Spacing.render [t.tokens source none]⟩

/-- The findings of a site. A body is no item itself, and a tag specifier counts only in a list of
items. -/
def Site.findings (site : Site) : List Finding :=
  if site.role = .body then []
  else if site.tree.kind = .declaration then declarationFindings source site.tree
  else if site.role = .item ∧ site.tree.kind.isTag then [tagFinding source site.tree]
  else []

theorem ofDecls_declarator? (t d : Tree) :
    Finding.ofDecls (declarator? source (tokensOf source (some t.kind) (specifiers t.children))
      d).toList = (declaratorFinding? source t d).toList := by
  by_cases hk : d.kind = .initDeclarator
  · cases hd : d.child? .declarator <;> cases hv : d.child? .value <;>
      simp [declarator?, declaratorFinding?, hasInitializer, proper?, hk, hd, hv,
        Finding.ofDecls, Finding.ofDecl, Decl.isInitialized]
  · simp [declarator?, declaratorFinding?, hasInitializer, proper?, hk, Finding.ofDecls,
      Finding.ofDecl, Decl.isInitialized]

theorem ofDecls_declarations (t : Tree) :
    Finding.ofDecls (declarations source t) = declarationFindings source t := by
  rw [declarations, declarationFindings, List.filterMap_eq_flatMap_toList,
    List.filterMap_eq_flatMap_toList, Finding.ofDecls_flatMap]
  exact List.flatMap_congr fun d _ => ofDecls_declarator? source t d

theorem ofDecls_decls (site : Site) :
    Finding.ofDecls (site.decls source) = site.findings source := by
  rw [Site.decls, ownDecls, Site.findings, ← ofDecls_declarations]
  split_ifs <;> rfl

/-- **The findings of a tree are exactly those of its sites.** The sites are the nodes that are
reached from the root, each once and in the order of the document. The findings come in that order
too, provided that no alternative stands before its consequence and no body of a loop before its
first section; whatever the order of these, no finding is lost, repeated or invented. -/
theorem findings_unit_exact (t : Tree) :
    (∀ site, site ∈ t.sites ↔ Reaches .body t site) ∧
      (t.sites.Pairwise fun a b => a.path < b.path) ∧
      (Finding.ofUnit (t.unit source)).Perm (t.sites.flatMap (Site.findings source)) ∧
      (t.partsInOrder = true →
        Finding.ofUnit (t.unit source) = t.sites.flatMap (Site.findings source)) := by
  have hdecls := declsOf_unit source t
  have hsites : Finding.ofDecls (t.sites.flatMap (Site.decls source)) =
      t.sites.flatMap (Site.findings source) := by
    rw [Finding.ofDecls_flatMap]
    exact List.flatMap_congr fun site _ => ofDecls_decls source site
  refine ⟨fun site => mem_sitesAs_iff, pairwise_sitesAs .body t, ?_, fun h => ?_⟩
  · rw [Finding.ofUnit_eq_ofDecls, ← hsites]
    exact (hdecls.1.filter _).map _
  · rw [Finding.ofUnit_eq_ofDecls, hdecls.2 h, hsites]

/-- A node of a text of one line, from byte `start` to byte `stop`. -/
def oneLine (k : Kind) (f : Option Field) (start stop : ℕ) (cs : List Tree) : Tree :=
  node ⟨k, f, ⟨start, 0, start⟩, ⟨stop, 0, stop⟩, false, false⟩ cs

/-- A node in one line of a text, from byte `start` to byte `stop`, where the line is behind `row`
others and starts at byte `first`. -/
def inLine (row first : ℕ) (k : Kind) (f : Option Field) (start stop : ℕ) (cs : List Tree) :
    Tree :=
  node ⟨k, f, ⟨start, row, start - first⟩, ⟨stop, row, stop - first⟩, false, false⟩ cs

/-- The tree of `if(x)for(int i;;);else{int b=0,c;}`. -/
def branchTree : Tree :=
  oneLine (.other "translation_unit") none 0 34 [
    oneLine .ifStatement none 0 34 [
      oneLine (.token "if") none 0 2 [],
      oneLine (.other "parenthesized_expression") (some .condition) 2 5 [
        oneLine (.token "(") none 2 3 [],
        oneLine .identifier none 3 4 [],
        oneLine (.token ")") none 4 5 []],
      oneLine .forStatement (some .consequence) 5 18 [
        oneLine (.token "for") none 5 8 [],
        oneLine (.token "(") none 8 9 [],
        oneLine .declaration (some .initializer) 9 15 [
          oneLine (.other "primitive_type") none 9 12 [],
          oneLine .identifier (some .declarator) 13 14 [],
          oneLine (.token ";") none 14 15 []],
        oneLine (.token ";") none 15 16 [],
        oneLine (.token ")") none 16 17 [],
        oneLine (.other "expression_statement") (some .body) 17 18 [
          oneLine (.token ";") none 17 18 []]],
      oneLine .elseClause (some .alternative) 18 34 [
        oneLine (.token "else") none 18 22 [],
        oneLine .compoundStatement none 22 34 [
          oneLine (.token "\x7b") none 22 23 [],
          oneLine .declaration none 23 33 [
            oneLine (.other "primitive_type") none 23 26 [],
            oneLine .initDeclarator (some .declarator) 27 30 [
              oneLine .identifier (some .declarator) 27 28 [],
              oneLine (.token "=") none 28 29 [],
              oneLine (.other "number_literal") (some .value) 29 30 []],
            oneLine (.token ",") none 30 31 [],
            oneLine .identifier (some .declarator) 31 32 [],
            oneLine (.token ";") none 32 33 []],
          oneLine (.token "\x7d") none 33 34 []]]]]

theorem findings_unit_exact_branchTree :
    branchTree.partsInOrder = true ∧
      Finding.ofUnit (branchTree.unit "if(x)for(int i;;);else\x7bint b=0,c;\x7d") =
        [⟨1, some "i", "int i"⟩, ⟨1, some "c", "int c"⟩] := by
  have horder : branchTree.partsInOrder = true := by decide
  refine ⟨horder, ?_⟩
  rw [(findings_unit_exact _ branchTree).2.2.2 horder]
  decide +kernel

end Uninit.Tree
