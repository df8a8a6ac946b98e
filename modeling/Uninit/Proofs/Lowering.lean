import Uninit.Proofs.Reach
import Uninit.Proofs.Walk
import Uninit.Tree.Lower

/-!
# The declarations of a lowered tree

Lowering computes what a node gives in every role at once and leaves it to the parent to choose.
Here the choice is made first: what a node gives in a role is its own declarations and what its
children give in the roles that it hands to them. So the declarations of a lowered tree are those
of its sites.

An `if` whose consequence stands behind its alternative, and a loop whose first section stands
behind its body, would be walked against the order of the document. `partsInOrder` rules that out;
without it the declarations are still the same up to their order.

## Main definitions

* `Tree.itemsAs`, `Tree.declsAs`: the items that a node gives in a role, and their declarations
* `Tree.ownDecls`: those of them that it declares itself
* `Tree.partsInOrder`: the parts of every node stand in the order in which they are walked

## Main statements

* `declsAs_node`: what a node gives in a role, by its slots
* `declsAs_eq_flatMap_sites`: what a node gives in a role, by the sites below it
-/
namespace Uninit.Tree

variable (source : String)

/-! ## Lowering a list of children -/

theorem lowerAll_eq_map (cs : List Tree) : lowerAll source cs = cs.map (lower source) := by
  induction cs with
  | nil => rfl
  | cons c rest ih => rw [lowerAll, ih, List.map_cons]

@[simp] theorem tree_lower (t : Tree) : (t.lower source).tree = t := by
  cases t
  rfl

theorem playing?_lowerAll (f : Field) (cs : List Tree) :
    Lowered.playing? f (lowerAll source cs) = (playing? f cs).map (lower source) := by
  simp only [Lowered.playing?, lowerAll_eq_map, List.find?_map, Function.comp_def, tree_lower]
  rfl

theorem statementOf_lowerAll (f : Field) (cs : List Tree) :
    Lowered.statementOf f (lowerAll source cs) =
      (playing? f cs).elim .other fun c => (c.lower source).statement := by
  rw [Lowered.statementOf, playing?_lowerAll]
  cases playing? f cs <;> rfl

theorem firstOf_lowerAll (cs : List Tree) :
    Lowered.firstOf (lowerAll source cs) =
      (cs.find? isNamed).elim .other fun c => (c.lower source).statement := by
  simp only [Lowered.firstOf, lowerAll_eq_map, List.find?_map, Function.comp_def, tree_lower]
  cases cs.find? isNamed <;> rfl

/-- An attribute is no statement, so nothing has to be said of it where the last child is asked
for. -/
theorem lastOf_lowerAll (cs : List Tree) :
    Lowered.lastOf (lowerAll source cs) =
      (cs.reverse.find? isNamed).elim .other fun c => (c.lower source).statement := by
  simp only [Lowered.lastOf, lowerAll_eq_map, ← List.map_reverse, List.find?_map,
    Function.comp_def, tree_lower]
  cases cs.reverse.find? isNamed with
  | none => rfl
  | some c =>
    by_cases hc : c.kind = .attributeDeclaration
    · obtain ⟨l, ds⟩ := c
      simp only [kind, label] at hc
      simp [lower, Lowered.asStatement, kind, label, hc]
    · simp [hc]

theorem itemsOf_lowerAll_from {skip : List Field} (hskip : skip.Nodup) (before cs : List Tree) :
    Lowered.itemsOf (skip.filter fun f => !before.any (plays f)) (lowerAll source cs) =
      (slotsFrom before cs).flatMap fun p =>
        if p.isListed skip then (p.child.lower source).items else [] := by
  induction cs generalizing before with
  | nil => rfl
  | cons c after ih =>
    rw [lowerAll, Lowered.itemsOf, slotsFrom, List.flatMap_cons, ← ih, tree_lower]
    cases hc : c.field with
    | none =>
      have hplays : ∀ f, c.plays f = false := fun f => by simp [plays, hc]
      simp [Slot.isListed, Slot.isFirst, hplays]
    | some g =>
      -- the parts that are left to skip behind `c` lose `g`
      have hplays : ∀ f, c.plays f = decide (f = g) := fun f => by
        rw [Bool.eq_iff_iff, plays_iff, hc, Option.some_inj, decide_eq_true_iff, eq_comm]
      have hrest : (skip.filter fun f => !(before ++ [c]).any (plays f)) =
          (skip.filter fun f => !before.any (plays f)).erase g := by
        rw [(hskip.filter _).erase_eq_filter, List.filter_filter]
        refine List.filter_congr fun f _ => ?_
        simp only [List.any_append, List.any_cons, List.any_nil, hplays]
        by_cases hf : f = g <;> simp [hf]
      rw [hrest]
      by_cases hg : g ∈ skip.filter fun f => !before.any (plays f)
      · have hlisted : (Slot.mk before c after).isListed skip = false := by
          rw [List.mem_filter] at hg
          simp only [Slot.isListed, Slot.isFirst, hplays, Bool.and_eq_false_iff,
            List.all_eq_false]
          exact .inr ⟨g, hg.1, by simpa using hg.2⟩
        simp [hg, hlisted]
      · have hlisted : (Slot.mk before c after).isListed skip = c.isNamed := by
          simp only [Slot.isListed, Slot.isFirst, hplays, Bool.and_eq_left_iff_imp,
            List.all_eq_true]
          intro _ f hf
          by_cases hfg : f = g
          · subst f
            simpa [List.mem_filter, hf] using hg
          · simp [hfg]
        simp [hg, hlisted, List.erase_of_not_mem hg]

/-- The items of some children are those of the listed ones. -/
theorem itemsOf_lowerAll {skip : List Field} (hskip : skip.Nodup) (cs : List Tree) :
    Lowered.itemsOf skip (lowerAll source cs) =
      (slots cs).flatMap fun p =>
        if p.isListed skip then (p.child.lower source).items else [] := by
  simpa [slots] using itemsOf_lowerAll_from source hskip [] cs

/-! ## Declarations by roles -/

/-- The items that a node gives in a role. -/
def itemsAs : Role → Tree → List Item
  | .item, t => (t.lower source).items
  | .statement, t => [(t.lower source).statement]
  | .alternative, t => [(t.lower source).alternative]
  | .body, t => (t.lower source).inner
  | .initializer, t => if t.kind = .declaration then (declarations source t).map .decl else []

theorem itemsAs_alternative_of_elseClause {l : Label} (hk : l.kind = .elseClause)
    (cs : List Tree) : itemsAs source .alternative (node l cs) =
      [Lowered.firstOf (lowerAll source cs)] := by
  simp [itemsAs, lower, Lowered.alternative, kind, label, hk]

/-- The other branch of an `if` is a statement, unless it is an `else` clause. -/
theorem itemsAs_alternative_of_ne {l : Label} (hk : l.kind ≠ .elseClause) (cs : List Tree) :
    itemsAs source .alternative (node l cs) = itemsAs source .statement (node l cs) := by
  simp [itemsAs, lower, Lowered.alternative, kind, label, hk]

/-- The declarations that a node gives in a role. -/
def declsAs (r : Role) (t : Tree) : List Decl :=
  (itemsAs source r t).flatMap Item.decls

@[simp] theorem declsAs_statement (t : Tree) :
    declsAs source .statement t = (t.lower source).statement.decls :=
  List.flatMap_singleton _ _

@[simp] theorem declsAs_alternative (t : Tree) :
    declsAs source .alternative t = (t.lower source).alternative.decls :=
  List.flatMap_singleton _ _

@[simp] theorem declsAs_initializer (t : Tree) : declsAs source .initializer t =
    if t.kind = .declaration then declarations source t else [] := by
  rw [declsAs, itemsAs]
  split
  · exact Item.flatMap_decls_map_decl _
  · rfl

/-- A kind of specifier that declares a tag. -/
def Kind.isTag : Kind → Bool
  | structSpecifier | unionSpecifier | enumSpecifier => true
  | _ => false

/-- The declarations that a node declares itself in a role. A body is no item itself, and a tag
specifier declares something only in a list of items. -/
def ownDecls (r : Role) (t : Tree) : List Decl :=
  if r = .body then []
  else if t.kind = .declaration then declarations source t
  else if r = .item ∧ t.kind.isTag then [tagDeclaration source t]
  else []

/-- The parts of a node of kind `k` stand in the order in which they are walked. -/
def childrenInOrder : Kind → List Tree → Bool
  | .ifStatement, cs => precedes .consequence .alternative cs
  | .forStatement, cs => precedes .initializer .body cs
  | _, _ => true

mutual

/-- The parts of every node of a tree stand in the order in which they are walked. -/
def partsInOrder : Tree → Bool
  | node l cs => childrenInOrder l.kind cs && allPartsInOrder cs

def allPartsInOrder : List Tree → Bool
  | [] => true
  | t :: rest => partsInOrder t && allPartsInOrder rest

end

theorem allPartsInOrder_iff {cs : List Tree} :
    allPartsInOrder cs = true ↔ ∀ c ∈ cs, c.partsInOrder = true := by
  induction cs with
  | nil => simp [allPartsInOrder]
  | cons c rest ih => simp [allPartsInOrder, ih]

theorem partsInOrder_node {l : Label} {cs : List Tree} :
    (node l cs).partsInOrder = true ↔
      childrenInOrder l.kind cs = true ∧ ∀ c ∈ cs, c.partsInOrder = true := by
  rw [partsInOrder, Bool.and_eq_true, allPartsInOrder_iff]

theorem flatMap_decls_itemsOf {skip : List Field} (hskip : skip.Nodup) (cs : List Tree) :
    (Lowered.itemsOf skip (lowerAll source cs)).flatMap Item.decls =
      (slots cs).flatMap fun p =>
        if p.isListed skip then declsAs source .item p.child else [] := by
  rw [itemsOf_lowerAll source hskip, List.flatMap_assoc]
  refine List.flatMap_congr fun p _ => ?_
  split <;> rfl

theorem decls_elim_statement (o : Option Tree) :
    (o.elim Item.other fun c => (c.lower source).statement).decls =
      o.elim [] (declsAs source .statement) := by
  cases o with
  | none => rfl
  | some c => exact (declsAs_statement source c).symm

theorem decls_statementOf (f : Field) (cs : List Tree) :
    (Lowered.statementOf f (lowerAll source cs)).decls =
      (playing? f cs).elim [] (declsAs source .statement) := by
  rw [statementOf_lowerAll, decls_elim_statement]

theorem declsOfOption_alternative (cs : List Tree) :
    Item.declsOfOption ((Lowered.playing? .alternative (lowerAll source cs)).map
      Lowered.alternative) = (playing? .alternative cs).elim [] (declsAs source .alternative) := by
  rw [playing?_lowerAll]
  cases playing? .alternative cs with
  | none => rfl
  | some c => exact (declsAs_alternative source c).symm

theorem declsOf_loopItems (cs : List Tree) :
    Item.declsOf (Lowered.loopItems source (lowerAll source cs)) =
      (playing? .initializer cs).elim [] (declsAs source .initializer) := by
  rw [Lowered.loopItems, playing?_lowerAll]
  cases playing? .initializer cs with
  | none => rfl
  | some c =>
    simp only [Option.map_some, tree_lower, Option.elim_some, declsAs_initializer]
    split
    · rw [Item.declsOf_eq_flatMap, Item.flatMap_decls_map_decl]
    · rfl

theorem declsOf_functionBody (cs : List Tree) :
    Item.declsOf (((Lowered.playing? .body (lowerAll source cs)).map Lowered.inner).getD []) =
      (playing? .body cs).elim [] (declsAs source .body) := by
  rw [playing?_lowerAll]
  cases playing? .body cs with
  | none => rfl
  | some c => exact Item.declsOf_eq_flatMap _

/-- A role that is handed out on a condition. -/
theorem elim_ite_some {α : Type} (c : Prop) [Decidable c] (r : Role) (o : Option Role)
    (f : Role → List α) :
    (if c then some r else o).elim [] f = if c then f r else o.elim [] f := by
  split <;> rfl

/-- What a statement declares: what it declares itself, and what its children give. -/
theorem declsAs_statement_node (l : Label) (cs : List Tree) :
    SameIf (childrenInOrder l.kind cs) (declsAs source .statement (node l cs))
      (ownDecls source .statement (node l cs) ++
        (slots cs).flatMap fun p =>
          (p.roleInStatement l.kind).elim [] fun r => declsAs source r p.child) := by
  have hlower : declsAs source .statement (node l cs) =
      (Lowered.asStatement source (node l cs) (lowerAll source cs)).decls :=
    declsAs_statement source _
  rw [hlower]
  cases hk : l.kind <;>
    simp only [kind, label, hk, Lowered.asStatement, ownDecls, reduceCtorEq, false_and, if_false,
      if_true, childrenInOrder, Slot.roleInStatement, Item.decls, elim_ite_some, Option.elim_none,
      List.nil_append]
  case functionDefinition =>
    refine .of_eq ?_
    rw [declsOf_functionBody, flatMap_slots_isFirst, playing?_eq_find?]
  case compoundStatement =>
    refine .of_eq ?_
    rw [Item.declsOf_eq_flatMap, flatMap_decls_itemsOf source List.nodup_nil]
  case ifStatement =>
    have hparts : Field.consequence ≠ .alternative := by decide
    rw [decls_statementOf, declsOfOption_alternative]
    exact sameIf_flatMap_slots_two hparts _ _ cs
  case forStatement =>
    have hparts : Field.initializer ≠ .body := by decide
    rw [decls_statementOf, declsOf_loopItems]
    exact sameIf_flatMap_slots_two hparts _ _ cs
  case whileStatement | doStatement | switchStatement =>
    refine .of_eq ?_
    rw [decls_statementOf, flatMap_slots_isFirst, playing?_eq_find?]
  case caseStatement =>
    refine .of_eq ?_
    rw [← flatMap_decls_itemsOf source (List.nodup_singleton _)]
    split <;> exact Item.declsOf_eq_flatMap _
  case labeledStatement =>
    refine .of_eq ?_
    rw [Item.declsOf_eq_flatMap, flatMap_decls_itemsOf source (List.nodup_singleton _)]
  case attributedStatement =>
    refine .of_eq ?_
    rw [lastOf_lowerAll, flatMap_slots_isLast, decls_elim_statement]
  case declaration =>
    refine .of_eq ?_
    rw [Item.declsOf_eq_flatMap, Item.flatMap_decls_map_decl]
    simp
  all_goals
    refine .of_eq ?_
    simp

/-- What a node of a list of items declares. A conditional block gives way to its own children, and
every node that is no declaration counts as a statement. -/
theorem declsAs_item_node (l : Label) (cs : List Tree) :
    SameIf (childrenInOrder l.kind cs) (declsAs source .item (node l cs))
      (ownDecls source .item (node l cs) ++
        (slots cs).flatMap fun p =>
          (p.roleInItem l.kind).elim [] fun r => declsAs source r p.child) := by
  have hlower : declsAs source .item (node l cs) =
      (Lowered.asItems source (node l cs) (lowerAll source cs)).flatMap Item.decls := rfl
  have hitem : ([Lowered.asStatement source (node l cs) (lowerAll source cs)]).flatMap Item.decls =
      declsAs source .statement (node l cs) := rfl
  have hstatement := declsAs_statement_node source l cs
  rw [hlower]
  cases hk : l.kind <;>
    simp only [kind, label, hk, Lowered.asItems, ownDecls, Kind.isTag, reduceCtorEq,
      Bool.false_eq_true, and_false, false_and, and_self, if_false, if_true, childrenInOrder,
      Slot.roleInItem, elim_ite_some, Option.elim_none, List.nil_append] at hstatement ⊢
  case comment =>
    exact .of_eq (by simp [Slot.roleInStatement])
  case declaration =>
    rw [Item.flatMap_decls_map_decl]
    exact .of_eq (by simp [Slot.roleInStatement])
  case structSpecifier | unionSpecifier | enumSpecifier =>
    exact .of_eq (by simp [Slot.roleInStatement, Item.decls])
  case conditionalBlock | definedBlock | conditionalBranch | definedBranch | lastBranch =>
    exact .of_eq (flatMap_decls_itemsOf source (by decide) cs)
  all_goals
    rw [hitem]
    exact hstatement

/-- **What a node gives in a role**: what it declares itself, and what its children give in the
roles that it hands to them. -/
theorem declsAs_node (r : Role) (l : Label) (cs : List Tree) :
    SameIf (childrenInOrder l.kind cs) (declsAs source r (node l cs))
      (ownDecls source r (node l cs) ++
        (slots cs).flatMap fun p =>
          (p.role? r l.kind).elim [] fun r' => declsAs source r' p.child) := by
  cases r with
  | item => exact declsAs_item_node source l cs
  | statement => exact declsAs_statement_node source l cs
  | alternative =>
    by_cases hk : l.kind = .elseClause
    · have hlower : declsAs source .alternative (node l cs) =
          (Lowered.firstOf (lowerAll source cs)).decls := by
        rw [declsAs, itemsAs_alternative_of_elseClause source hk, List.flatMap_singleton]
      have hown : ownDecls source .alternative (node l cs) = [] := by
        simp [ownDecls, kind, label, hk]
      refine .of_eq ?_
      simp only [hlower, hown, Slot.role?, hk, if_true, elim_ite_some,
        Option.elim_none, List.nil_append]
      rw [firstOf_lowerAll, flatMap_slots_isFirst, decls_elim_statement]
    · have hlower : declsAs source .alternative (node l cs) =
          declsAs source .statement (node l cs) := by
        rw [declsAs, itemsAs_alternative_of_ne source hk, declsAs]
      have hown : ownDecls source .alternative (node l cs) =
          ownDecls source .statement (node l cs) := by
        simp [ownDecls]
      rw [hlower, hown]
      simpa only [Slot.role?, hk, if_false] using declsAs_statement_node source l cs
  | body =>
    refine .of_eq ?_
    have hlower : declsAs source .body (node l cs) =
        (Lowered.itemsOf [] (lowerAll source cs)).flatMap Item.decls := rfl
    simp only [hlower, ownDecls, if_true, Slot.role?, elim_ite_some, Option.elim_none,
      List.nil_append]
    exact flatMap_decls_itemsOf source List.nodup_nil cs
  | initializer =>
    refine .of_eq ?_
    simp only [declsAs_initializer, Slot.role?, Option.elim_none]
    by_cases hk : (node l cs).kind = .declaration <;> simp [ownDecls, hk]

/-! ## Declarations by sites -/

/-- The declarations that a site declares itself. -/
def Site.decls (site : Site) : List Decl :=
  ownDecls source site.role site.tree

/-- The declarations of the sites that are reached through a slot. -/
theorem flatMap_decls_sitesThrough (r : Role) (k : Kind) (p : Slot) :
    (sitesThrough r k p).flatMap (Site.decls source) =
      (p.role? r k).elim [] fun r' => (sitesAs r' p.child).flatMap (Site.decls source) := by
  rw [sitesThrough]
  cases p.role? r k with
  | none => rfl
  | some r' =>
    simp only [Option.elim_some, List.flatMap_map]
    rfl

/-- **What a node gives in a role is what its sites declare**, in the order of the document if the
parts of every node stand in order. -/
theorem declsAs_eq_flatMap_sites (r : Role) (t : Tree) :
    SameIf t.partsInOrder (declsAs source r t) ((sitesAs r t).flatMap (Site.decls source)) := by
  induction t using induct generalizing r with
  | node l cs ih =>
    have hsites : (sitesAs r (node l cs)).flatMap (Site.decls source) =
        ownDecls source r (node l cs) ++ (slots cs).flatMap fun p =>
          (sitesThrough r l.kind p).flatMap (Site.decls source) := by
      rw [sitesAs_node, List.flatMap_cons, List.flatMap_assoc]
      rfl
    rw [hsites]
    refine ((declsAs_node source r l cs).mono fun h => (partsInOrder_node.mp h).1).trans
      (.append_left (.flatMap fun p hp => ?_) _)
    have hchild := child_mem_of_mem_slots hp
    rw [flatMap_decls_sitesThrough]
    cases p.role? r l.kind with
    | none => exact .of_eq rfl
    | some r' => exact (ih p.child hchild r').mono fun h => (partsInOrder_node.mp h).2 _ hchild

/-- The declarations of the unit of a tree are those of its sites. -/
theorem declsOf_unit (t : Tree) :
    SameIf t.partsInOrder (Item.declsOf (t.unit source).items)
      (t.sites.flatMap (Site.decls source)) := by
  rw [Item.declsOf_eq_flatMap]
  exact declsAs_eq_flatMap_sites source .body t

end Uninit.Tree
