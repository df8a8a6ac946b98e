import Uninit.Proofs.Comments

/-!
# What comments hide

Three places of a tree are read by the number of the named child that stands there: what an `else`
clause leads to, the statement behind some attributes, and the name in a parenthesized or attributed
declarator. A comment in such a place hides what stands behind it. Everywhere else a comment
changes nothing, so a tree is lowered to the same unit without its comments exactly if none of its
sites hides something.

## Main definitions

* `Tree.hides`: a comment among the children of a node hides something from its role
* `Tree.KeepsAs`: a node gives the same items in a role without its comments

## Main statements

* `keepsAs_node_iff`: which nodes do, by their children
* `unit_withoutComments_iff`: which trees are lowered to the same unit
-/
namespace Uninit.Tree

/-! ## Lists of equal parts -/

section Parts

variable {α β : Type}

/-- Lists that are joined from parts of equal lengths are equal exactly if the parts are. -/
theorem flatMap_eq_flatMap_iff {f g : α → List β} {ps : List α}
    (h : ∀ p ∈ ps, (f p).length = (g p).length) :
    ps.flatMap f = ps.flatMap g ↔ ∀ p ∈ ps, f p = g p := by
  refine ⟨fun heq => ?_, List.flatMap_congr⟩
  induction ps with
  | nil => simp
  | cons p rest ih =>
    rw [List.flatMap_cons, List.flatMap_cons] at heq
    obtain ⟨hp, hrest⟩ := List.append_inj heq (h p List.mem_cons_self)
    exact List.forall_mem_cons.mpr
      ⟨hp, ih (fun q hq => h q (List.mem_cons_of_mem p hq)) hrest⟩

theorem filterMap_eq_filterMap_iff {f g : α → Option β} {ps : List α}
    (h : ∀ p ∈ ps, (f p).isSome = (g p).isSome) :
    ps.filterMap f = ps.filterMap g ↔ ∀ p ∈ ps, f p = g p := by
  have hlength : ∀ p ∈ ps, (f p).toList.length = (g p).toList.length := by
    intro p hp
    have hp' := h p hp
    cases hf : f p <;> cases hg : g p <;> simp [hf, hg] at hp' ⊢
  have htoList : ∀ p, (f p).toList = (g p).toList ↔ f p = g p := by
    intro p
    cases f p <;> cases g p <;> simp
  rw [List.filterMap_eq_flatMap_toList, List.filterMap_eq_flatMap_toList,
    flatMap_eq_flatMap_iff hlength]
  simp only [htoList]

theorem elim_map_eq_elim_iff (o : Option α) (g : α → α) (b : β) (f : α → β) :
    (o.map g).elim b f = o.elim b f ↔ ∀ a, o = some a → f (g a) = f a := by
  cases o <;> simp

end Parts

/-! ## Slots without comments -/

theorem withoutCommentsIn_reverse (cs : List Tree) :
    withoutCommentsIn cs.reverse = (withoutCommentsIn cs).reverse := by
  simp only [withoutCommentsIn_eq_map, List.filter_reverse, List.map_reverse]

section Picking

variable {P : Tree → Prop} {cs : List Tree}

/-- What holds of a picked child, said of its slot. -/
theorem forall_slot_iff {q : Slot → Bool} {o : Option Tree}
    (h : ((slots cs).flatMap fun p => if q p then [p.child] else []) = o.elim [] fun c => [c]) :
    (∀ p ∈ slots cs, q p = true → P p.child) ↔ ∀ c, o = some c → P c := by
  have hpicked : ∀ c, o = some c ↔ ∃ p ∈ slots cs, q p = true ∧ p.child = c := by
    intro c
    have hmem : c ∈ o.elim [] (fun c => [c]) ↔ o = some c := by
      cases o <;> simp [eq_comm]
    rw [← hmem, ← h, List.mem_flatMap]
    refine exists_congr fun p => and_congr_right fun _ => ?_
    cases q p <;> simp [eq_comm]
  constructor
  · intro hslots c hc
    obtain ⟨p, hp, hq, rfl⟩ := (hpicked c).mp hc
    exact hslots p hp hq
  · intro hchild p hp hq
    exact hchild p.child ((hpicked p.child).mpr ⟨p, hp, hq, rfl⟩)

theorem forall_isFirst_iff (q : Tree → Bool) :
    (∀ p ∈ slots cs, p.isFirst q = true → P p.child) ↔ ∀ c, cs.find? q = some c → P c :=
  forall_slot_iff (flatMap_slots_isFirst q (fun c => [c]) cs)

theorem forall_isLast_iff (q : Tree → Bool) :
    (∀ p ∈ slots cs, p.isLast q = true → P p.child) ↔ ∀ c, cs.reverse.find? q = some c → P c :=
  forall_slot_iff (flatMap_slots_isLast q (fun c => [c]) cs)

end Picking

/-- A slot whose node and siblings are changed one by one. -/
def Slot.map (g : Tree → Tree) (p : Slot) : Slot :=
  ⟨p.before.map g, g p.child, p.after.map g⟩

theorem slotsFrom_map (g : Tree → Tree) (before cs : List Tree) :
    slotsFrom (before.map g) (cs.map g) = (slotsFrom before cs).map (Slot.map g) := by
  induction cs generalizing before with
  | nil => rfl
  | cons c after ih =>
    have hbefore : before.map g ++ [g c] = (before ++ [c]).map g := by simp
    rw [List.map_cons, slotsFrom, hbefore, ih, slotsFrom, List.map_cons]
    rfl

theorem isListed_map_withoutComments (p : Slot) (skip : List Field) :
    (p.map withoutComments).isListed skip = p.isListed skip := by
  simp [Slot.isListed, Slot.isFirst, Slot.map, List.all_map, Function.comp_def]

section Lowering

variable (source : String)

theorem items_of_isComment {t : Tree} (h : t.isComment = true) : (t.lower source).items = [] := by
  obtain ⟨l, cs⟩ := t
  simp [lower, Lowered.asItems, kind, label, isComment_node.mp h]

theorem statement_of_isComment {t : Tree} (h : t.isComment = true) :
    (t.lower source).statement = .other := by
  obtain ⟨l, cs⟩ := t
  simp [lower, Lowered.asStatement, kind, label, isComment_node.mp h]

/-- The comments among some children give no items and take nobody's part. -/
theorem itemsOf_lowerAll_withoutCommentsIn {cs : List Tree} (skip : List Field)
    (h : ∀ c ∈ cs, c.isComment = true → c.field = none) :
    Lowered.itemsOf skip (lowerAll source (withoutCommentsIn cs)) =
      Lowered.itemsOf skip (lowerAll source (cs.map withoutComments)) := by
  induction cs generalizing skip with
  | nil => rfl
  | cons c rest ih =>
    have hrest := fun skip => ih skip fun d hd => h d (List.mem_cons_of_mem c hd)
    cases hc : c.isComment with
    | true =>
      have hfield := h c List.mem_cons_self hc
      have hitems : (c.withoutComments.lower source).items = [] :=
        items_of_isComment source (by simpa using hc)
      simp [withoutCommentsIn, hc, lowerAll, Lowered.itemsOf, hfield, hitems, hrest]
    | false => simp [withoutCommentsIn, hc, lowerAll, Lowered.itemsOf, hrest]

/-- The items of some children without their comments, by the slots of the children. -/
theorem itemsOf_withoutCommentsIn {skip : List Field} (hskip : skip.Nodup) {cs : List Tree}
    (h : areLaidOut cs = true) :
    Lowered.itemsOf skip (lowerAll source (withoutCommentsIn cs)) =
      (slots cs).flatMap fun p =>
        if p.isListed skip then (p.child.withoutComments.lower source).items else [] := by
  have hslots : slots (cs.map withoutComments) = (slots cs).map (Slot.map withoutComments) :=
    slotsFrom_map withoutComments [] cs
  have hfield : ∀ c ∈ cs, c.isComment = true → c.field = none := fun c hc hcomment =>
    (token_of_isComment h hc hcomment).1
  rw [itemsOf_lowerAll_withoutCommentsIn source skip hfield,
    itemsOf_lowerAll source hskip, hslots, List.flatMap_map]
  refine List.flatMap_congr fun p _ => ?_
  rw [isListed_map_withoutComments]
  rfl

theorem length_declarations_withoutComments {t : Tree} (h : t.isLaidOut = true) :
    (declarations source t.withoutComments).length = (declarations source t).length := by
  rw [declarations_withoutComments source h, declarations, List.length_filterMap_eq_countP,
    List.length_filterMap_eq_countP]
  refine List.countP_congr fun d hd => ?_
  rw [isSome_declarator?_withoutComments source
    (isLaidOut_of_mem_children h (List.mem_of_mem_filter hd))]

theorem length_itemsOf_withoutCommentsIn {skip : List Field} (hskip : skip.Nodup) {cs : List Tree}
    (h : areLaidOut cs = true) (hcs : ∀ c ∈ cs,
      (c.withoutComments.lower source).items.length = (c.lower source).items.length) :
    (Lowered.itemsOf skip (lowerAll source (withoutCommentsIn cs))).length =
      (Lowered.itemsOf skip (lowerAll source cs)).length := by
  rw [itemsOf_withoutCommentsIn source hskip h, itemsOf_lowerAll source hskip,
    List.length_flatMap, List.length_flatMap]
  congr 1
  refine List.map_congr_left fun p hp => ?_
  split
  · exact hcs p.child (child_mem_of_mem_slots hp)
  · rfl

/-- A node gives as many items without its comments. -/
theorem length_items_withoutComments {t : Tree} (h : t.isLaidOut = true) :
    (t.withoutComments.lower source).items.length = (t.lower source).items.length := by
  induction t using induct with
  | node l cs ih =>
    obtain ⟨hout, hbelow⟩ := isLaidOut_node.mp h
    have hcs := fun c hc => ih c hc (hbelow c hc)
    have hdeclarations := length_declarations_withoutComments source h
    rw [withoutComments] at hdeclarations ⊢
    cases hk : l.kind <;> simp only [lower, Lowered.asItems, kind, label, hk, List.length_map,
      List.length_cons, List.length_nil, hdeclarations]
    case node.conditionalBlock | node.definedBlock | node.conditionalBranch | node.definedBranch |
        node.lastBranch =>
      exact length_itemsOf_withoutCommentsIn source (by decide) hout hcs

/-! ## What is hidden -/

/-- A comment stands in the way of the first statement of a list: it is the first named node, and
the one behind it is more than nothing as a statement. -/
def hidesFirst (cs : List Tree) : Bool :=
  (cs.find? isNamed).any isComment &&
    decide ((Lowered.firstOf (lowerAll source (withoutCommentsIn cs))).kind ≠ .other)

/-- A comment among the children of a node hides something from the role of the node: a name that
it declares, the statement behind its attributes, or what it leads to as an `else` clause. -/
def hides (r : Role) (t : Tree) : Bool :=
  if r = .body then false
  else if t.kind = .declaration then hidesDeclared source t
  else if r = .initializer then false
  else if t.kind = .functionDefinition then (t.child? .declarator).any (hidesName source)
  else if t.kind = .attributedStatement then hidesFirst source t.children.reverse
  else if r = .alternative ∧ t.kind = .elseClause then hidesFirst source t.children
  else false

/-- A node gives the same items in a role without its comments. -/
def KeepsAs (r : Role) (t : Tree) : Prop :=
  itemsAs source r t.withoutComments = itemsAs source r t

theorem keepsAs_statement {t : Tree} : KeepsAs source .statement t ↔
    (t.withoutComments.lower source).statement = (t.lower source).statement := by
  simp [KeepsAs, itemsAs]

theorem keepsAs_alternative {t : Tree} : KeepsAs source .alternative t ↔
    (t.withoutComments.lower source).alternative = (t.lower source).alternative := by
  simp [KeepsAs, itemsAs]

theorem map_decl_declarations_iff {t : Tree} (h : t.isLaidOut = true) :
    (declarations source t.withoutComments).map Item.decl = (declarations source t).map .decl ↔
      hidesDeclared source t = false := by
  have hd : ∀ d ∈ declarators t.children, d.isLaidOut = true := fun d hd =>
    isLaidOut_of_mem_children h (List.mem_of_mem_filter hd)
  have hinj : Function.Injective Item.decl := fun _ _ heq => Item.decl.inj heq
  rw [hinj.list_map.eq_iff, declarations_withoutComments source h, declarations,
    filterMap_eq_filterMap_iff fun d hd' => isSome_declarator?_withoutComments source (hd d hd') _,
    hidesDeclared, List.any_eq_false]
  refine forall₂_congr fun d hd' => ?_
  rw [declarator?_withoutComments_iff source (hd d hd')]
  simp

theorem kind_eq_other_iff {i : Item} : i.kind = .other ↔ i = .other := by
  cases i <;> simp [Item.kind]

/-- A first named node that is no comment is found without the comments too. -/
theorem find?_isNamed_withoutCommentsIn {cs : List Tree}
    (h : (cs.find? isNamed).any isComment = false) :
    (withoutCommentsIn cs).find? isNamed = (cs.find? isNamed).map withoutComments := by
  induction cs with
  | nil => rfl
  | cons c rest ih =>
    cases hcomment : c.isComment with
    | true => simp [isNamed_of_isComment hcomment, hcomment] at h
    | false =>
      cases hnamed : c.isNamed with
      | true => simp [withoutCommentsIn, hcomment, hnamed]
      | false =>
        have hrest : (rest.find? isNamed).any isComment = false := by simpa [hnamed] using h
        simpa [withoutCommentsIn, hcomment, hnamed] using ih hrest

/-- The first statement of a list stays what it is exactly if no comment hides it and it stays what
it is itself. -/
theorem firstOf_withoutCommentsIn_iff (cs : List Tree) :
    Lowered.firstOf (lowerAll source (withoutCommentsIn cs)) =
        Lowered.firstOf (lowerAll source cs) ↔
      hidesFirst source cs = false ∧
        ∀ c, cs.find? isNamed = some c → KeepsAs source .statement c := by
  cases hcomment : (cs.find? isNamed).any isComment with
  | true =>
    obtain ⟨c, hfind, hc⟩ := (Option.any_eq_true _ _).mp hcomment
    have hkeeps : KeepsAs source .statement c := by
      rw [keepsAs_statement, statement_of_isComment source hc, statement_of_isComment]
      rwa [isComment_withoutComments]
    have hnothing : Lowered.firstOf (lowerAll source cs) = .other := by
      rw [firstOf_lowerAll, hfind]
      exact statement_of_isComment source hc
    simp [hidesFirst, hfind, hc, hkeeps, hnothing, kind_eq_other_iff]
  | false =>
    rw [firstOf_lowerAll, firstOf_lowerAll, find?_isNamed_withoutCommentsIn hcomment,
      elim_map_eq_elim_iff]
    simp [hidesFirst, hcomment, keepsAs_statement]

/-- The last statement of a list is the first of the reversed list. -/
theorem lastOf_withoutCommentsIn_iff (cs : List Tree) :
    Lowered.lastOf (lowerAll source (withoutCommentsIn cs)) =
        Lowered.lastOf (lowerAll source cs) ↔
      hidesFirst source cs.reverse = false ∧
        ∀ c, cs.reverse.find? isNamed = some c → KeepsAs source .statement c := by
  rw [← firstOf_withoutCommentsIn_iff, lastOf_lowerAll, lastOf_lowerAll, firstOf_lowerAll,
    firstOf_lowerAll, withoutCommentsIn_reverse]

section Parts

variable {cs : List Tree}

theorem itemsOf_withoutCommentsIn_iff {skip : List Field} (hskip : skip.Nodup)
    (h : areLaidOut cs = true) (hcs : ∀ c ∈ cs, c.isLaidOut = true) :
    Lowered.itemsOf skip (lowerAll source (withoutCommentsIn cs)) =
        Lowered.itemsOf skip (lowerAll source cs) ↔
      ∀ p ∈ slots cs, p.isListed skip = true → KeepsAs source .item p.child := by
  have hlength : ∀ p ∈ slots cs,
      (if p.isListed skip then (p.child.withoutComments.lower source).items else []).length =
        (if p.isListed skip then (p.child.lower source).items else []).length := by
    intro p hp
    split
    · exact length_items_withoutComments source (hcs p.child (child_mem_of_mem_slots hp))
    · rfl
  rw [itemsOf_withoutCommentsIn source hskip h, itemsOf_lowerAll source hskip,
    flatMap_eq_flatMap_iff hlength]
  refine forall₂_congr fun p _ => ?_
  cases p.isListed skip <;> simp [KeepsAs, itemsAs]

theorem statementOf_withoutCommentsIn_iff (h : areLaidOut cs = true) (f : Field) :
    Lowered.statementOf f (lowerAll source (withoutCommentsIn cs)) =
        Lowered.statementOf f (lowerAll source cs) ↔
      ∀ c, playing? f cs = some c → KeepsAs source .statement c := by
  rw [statementOf_lowerAll, statementOf_lowerAll, playing?_withoutCommentsIn h,
    elim_map_eq_elim_iff]
  simp only [keepsAs_statement]

theorem alternative_withoutCommentsIn_iff (h : areLaidOut cs = true) :
    (Lowered.playing? .alternative (lowerAll source (withoutCommentsIn cs))).map
          Lowered.alternative =
        (Lowered.playing? .alternative (lowerAll source cs)).map Lowered.alternative ↔
      ∀ c, playing? .alternative cs = some c → KeepsAs source .alternative c := by
  rw [playing?_lowerAll, playing?_lowerAll, playing?_withoutCommentsIn h]
  cases playing? .alternative cs <;> simp [keepsAs_alternative]

theorem functionBody_withoutCommentsIn_iff (h : areLaidOut cs = true) :
    ((Lowered.playing? .body (lowerAll source (withoutCommentsIn cs))).map
          Lowered.inner).getD [] =
        ((Lowered.playing? .body (lowerAll source cs)).map Lowered.inner).getD [] ↔
      ∀ c, playing? .body cs = some c → KeepsAs source .body c := by
  rw [playing?_lowerAll, playing?_lowerAll, playing?_withoutCommentsIn h]
  cases playing? .body cs <;> simp [KeepsAs, itemsAs]

theorem loopItems_withoutCommentsIn_iff (h : areLaidOut cs = true) :
    Lowered.loopItems source (lowerAll source (withoutCommentsIn cs)) =
        Lowered.loopItems source (lowerAll source cs) ↔
      ∀ c, playing? .initializer cs = some c → KeepsAs source .initializer c := by
  rw [Lowered.loopItems, Lowered.loopItems, playing?_lowerAll, playing?_lowerAll,
    playing?_withoutCommentsIn h]
  cases playing? .initializer cs <;> simp [KeepsAs, itemsAs]

end Parts

/-! ## What is kept -/

/-- What holds of a role that is handed out on a condition. -/
theorem forall_ite_role {c : Prop} [Decidable c] {r : Role} {o : Option Role} {P : Role → Prop} :
    (∀ r', (if c then some r else o) = some r' → P r') ↔
      (c → P r) ∧ (¬ c → ∀ r', o = some r' → P r') := by
  by_cases hc : c <;> simp [hc]

/-- What holds of the two children that play two parts, said of their slots. -/
theorem forall_two_parts_iff {f g : Field} (hfg : f ≠ g) {P Q : Tree → Prop} {cs : List Tree} :
    (∀ p ∈ slots cs, (p.isFirst (plays f) = true → P p.child) ∧
        (¬ p.isFirst (plays f) = true → p.isFirst (plays g) = true → Q p.child)) ↔
      (∀ c, playing? f cs = some c → P c) ∧ ∀ c, playing? g cs = some c → Q c := by
  rw [playing?_eq_find?, playing?_eq_find?, ← forall_isFirst_iff, ← forall_isFirst_iff]
  constructor
  · intro h
    refine ⟨fun p hp => (h p hp).1, fun p hp hg => (h p hp).2 ?_ hg⟩
    simp [Slot.isFirst_plays_eq_false hfg.symm hg]
  · intro h p hp
    exact ⟨h.1 p hp, fun _ => h.2 p hp⟩

theorem isSome_playing?_withoutCommentsIn {cs : List Tree} (h : areLaidOut cs = true)
    (f : Field) :
    (Lowered.playing? f (lowerAll source (withoutCommentsIn cs))).isSome =
      (Lowered.playing? f (lowerAll source cs)).isSome := by
  rw [playing?_lowerAll, playing?_lowerAll, playing?_withoutCommentsIn h]
  simp only [Option.isSome_map]

/-- The name of a function stays what it is exactly if no comment hides it. -/
theorem name_withoutCommentsIn_iff {l : Label} {cs : List Tree}
    (h : (node l cs).isLaidOut = true) :
    ((node l (withoutCommentsIn cs)).child? .declarator).bind (declaredName source) =
        ((node l cs).child? .declarator).bind (declaredName source) ↔
      ((node l cs).child? .declarator).any (hidesName source) = false := by
  have hchild := child?_withoutComments h .declarator
  rw [withoutComments] at hchild
  rw [hchild]
  cases hd : (node l cs).child? .declarator with
  | none => simp
  | some d =>
    have hd' := isLaidOut_of_mem_children h (List.mem_of_find?_eq_some hd)
    simpa using declaredName_withoutComments_iff source hd'

/-- What is kept of a statement: nothing is hidden from it, and what it takes from its children is
kept. -/
theorem keepsAs_statement_node_iff {l : Label} {cs : List Tree}
    (h : (node l cs).isLaidOut = true) :
    KeepsAs source .statement (node l cs) ↔
      hides source .statement (node l cs) = false ∧
        ∀ p ∈ slots cs, ∀ r, p.roleInStatement l.kind = some r → KeepsAs source r p.child := by
  obtain ⟨hout, hcs⟩ := isLaidOut_node.mp h
  have hlower : KeepsAs source .statement (node l cs) ↔
      Lowered.asStatement source (node l (withoutCommentsIn cs))
          (lowerAll source (withoutCommentsIn cs)) =
        Lowered.asStatement source (node l cs) (lowerAll source cs) := keepsAs_statement source
  rw [hlower]
  -- each kind of statement is an injective function of the parts that it takes
  cases hk : l.kind <;> simp only [kind, label, hk, Lowered.asStatement, hides, reduceCtorEq,
    and_false, if_false, if_true, Slot.roleInStatement, forall_ite_role, implies_true, and_true,
    true_and, false_implies]
  case functionDefinition =>
    rw [Item.function.injEq, name_withoutCommentsIn_iff source h,
      functionBody_withoutCommentsIn_iff source hout, forall_isFirst_iff, ← playing?_eq_find?]
    simp [start, label]
  case compoundStatement =>
    rw [Item.compound.injEq, itemsOf_withoutCommentsIn_iff source List.nodup_nil hout hcs]
  case ifStatement =>
    have hparts : Field.consequence ≠ .alternative := by decide
    rw [Item.branch.injEq, statementOf_withoutCommentsIn_iff source hout,
      alternative_withoutCommentsIn_iff source hout, forall_two_parts_iff hparts]
  case forStatement =>
    have hparts : Field.initializer ≠ .body := by decide
    rw [Item.forLoop.injEq, statementOf_withoutCommentsIn_iff source hout,
      loopItems_withoutCommentsIn_iff source hout, forall_two_parts_iff hparts]
  case whileStatement | doStatement | switchStatement =>
    simp only [Item.whileLoop.injEq, Item.doLoop.injEq, Item.switch.injEq]
    rw [statementOf_withoutCommentsIn_iff source hout, forall_isFirst_iff, ← playing?_eq_find?]
  case caseStatement =>
    have hvalue : [Field.value].Nodup := List.nodup_singleton _
    rw [isSome_playing?_withoutCommentsIn source hout,
      ← itemsOf_withoutCommentsIn_iff source hvalue hout hcs]
    split <;> simp only [Item.case.injEq, Item.default.injEq]
  case labeledStatement =>
    have hlabel : [Field.label].Nodup := List.nodup_singleton _
    rw [Item.label.injEq, Item.compound.injEq,
      itemsOf_withoutCommentsIn_iff source hlabel hout hcs]
  case attributedStatement =>
    rw [lastOf_withoutCommentsIn_iff, forall_isLast_iff]
    rfl
  case declaration =>
    have hdeclarations := map_decl_declarations_iff source h
    rw [withoutComments] at hdeclarations
    rw [Item.compound.injEq, hdeclarations]

/-- What is kept of an item. A conditional block gives way to its own children. -/
theorem keepsAs_item_node_iff {l : Label} {cs : List Tree} (h : (node l cs).isLaidOut = true) :
    KeepsAs source .item (node l cs) ↔
      hides source .item (node l cs) = false ∧
        ∀ p ∈ slots cs, ∀ r, p.roleInItem l.kind = some r → KeepsAs source r p.child := by
  obtain ⟨hout, hcs⟩ := isLaidOut_node.mp h
  have hstatement : [Lowered.asStatement source (node l (withoutCommentsIn cs))
          (lowerAll source (withoutCommentsIn cs))] =
        [Lowered.asStatement source (node l cs) (lowerAll source cs)] ↔
      hides source .statement (node l cs) = false ∧
        ∀ p ∈ slots cs, ∀ r, p.roleInStatement l.kind = some r → KeepsAs source r p.child :=
    keepsAs_statement_node_iff source h
  have hitem : KeepsAs source .item (node l cs) ↔
      Lowered.asItems source (node l (withoutCommentsIn cs))
          (lowerAll source (withoutCommentsIn cs)) =
        Lowered.asItems source (node l cs) (lowerAll source cs) := .rfl
  have hsame : hides source .item (node l cs) = hides source .statement (node l cs) := by
    simp [hides]
  rw [hitem, hsame]
  cases hk : l.kind <;> 
    simp only [kind, label, hk, Lowered.asItems, Slot.roleInItem] at hstatement ⊢
  case comment => simp [hides, kind, label, hk, Slot.roleInStatement]
  case declaration =>
    simpa [withoutComments, hides, kind, label, hk, Slot.roleInStatement]
      using map_decl_declarations_iff source h
  case structSpecifier | unionSpecifier | enumSpecifier =>
    have htag : tagDeclaration source (node l (withoutCommentsIn cs)) =
        tagDeclaration source (node l cs) := by
      have htokens := tokens_withoutComments source h none
      rw [withoutComments] at htokens
      rw [tagDeclaration, tagDeclaration, htokens]
      rfl
    simp [htag, hides, kind, label, hk, Slot.roleInStatement]
  case conditionalBlock | definedBlock | conditionalBranch | definedBranch | lastBranch =>
    have hskip : [Field.condition, .name].Nodup := by decide
    rw [itemsOf_withoutCommentsIn_iff source hskip hout hcs]
    simp [hides, kind, label, hk]
  all_goals exact hstatement

/-- **What a node keeps in a role without its comments**: everything, exactly if nothing is hidden
from it and its children keep everything in the roles that it hands to them. -/
theorem keepsAs_node_iff (r : Role) {l : Label} {cs : List Tree}
    (h : (node l cs).isLaidOut = true) :
    KeepsAs source r (node l cs) ↔
      hides source r (node l cs) = false ∧
        ∀ p ∈ slots cs, ∀ r', p.role? r l.kind = some r' → KeepsAs source r' p.child := by
  obtain ⟨hout, hcs⟩ := isLaidOut_node.mp h
  cases r with
  | item => exact keepsAs_item_node_iff source h
  | statement => exact keepsAs_statement_node_iff source h
  | alternative =>
    rw [keepsAs_alternative]
    by_cases hk : l.kind = .elseClause
    · have hfirst := firstOf_withoutCommentsIn_iff source cs
      rw [← forall_isFirst_iff] at hfirst
      simpa [withoutComments, lower, Lowered.alternative, hides, Slot.role?, kind, label, children,
        hk, forall_ite_role] using hfirst
    · have hstatement := keepsAs_statement_node_iff source h
      rw [keepsAs_statement] at hstatement
      simpa [withoutComments, lower, Lowered.alternative, hides, Slot.role?, kind, label, hk]
        using hstatement
  | body =>
    have hitems := itemsOf_withoutCommentsIn_iff source List.nodup_nil hout hcs
    simpa [KeepsAs, itemsAs, withoutComments, lower, hides, Slot.role?, forall_ite_role]
      using hitems
  | initializer =>
    by_cases hk : (node l cs).kind = .declaration
    · simpa [KeepsAs, itemsAs, hides, Slot.role?, hk] using map_decl_declarations_iff source h
    · simp [KeepsAs, itemsAs, hides, Slot.role?, hk]

/-- A comment at a site hides something. -/
def Site.hides (site : Site) : Bool :=
  Tree.hides source site.role site.tree

/-- **A node keeps everything in a role exactly if none of its sites hides something.** -/
theorem keepsAs_iff (r : Role) {t : Tree} (h : t.isLaidOut = true) :
    KeepsAs source r t ↔ ∀ site ∈ sitesAs r t, site.hides source = false := by
  induction t using induct generalizing r with
  | node l cs ih =>
    have hchild : ∀ p ∈ slots cs, ∀ r', KeepsAs source r' p.child ↔
        ∀ site ∈ sitesAs r' p.child, site.hides source = false := by
      intro p hp r'
      have hc := child_mem_of_mem_slots hp
      exact ih p.child hc r' ((isLaidOut_node.mp h).2 p.child hc)
    rw [keepsAs_node_iff source r h, sitesAs_node, List.forall_mem_cons]
    refine and_congr_right fun _ => ?_
    simp only [List.mem_flatMap, mem_sitesThrough]
    constructor
    · rintro hslots site ⟨p, hp, r', hr, below, hbelow, rfl⟩
      exact (hchild p hp r').mp (hslots p hp r' hr) below hbelow
    · intro hsites p hp r' hr
      rw [hchild p hp r']
      intro below hbelow
      exact hsites (below.under p.before.length) ⟨p, hp, r', hr, below, hbelow, rfl⟩

/-- **A tree is lowered to the same unit without its comments exactly if none of its sites hides
something.** Comments that stand elsewhere change no name, no line and no text. -/
theorem unit_withoutComments_iff {t : Tree} (h : t.isLaidOut = true) :
    t.withoutComments.unit source = t.unit source ↔
      ∀ site ∈ t.sites, site.hides source = false := by
  rw [sites, ← keepsAs_iff source .body h, unit, unit, TranslationUnit.mk.injEq]
  rfl

end Lowering

/-- The tree of `if(x);else{int(*/**/p);/**/}`. -/
def commentedTree : Tree :=
  oneLine (.other "translation_unit") none 0 28 [
    oneLine .ifStatement none 0 28 [
      oneLine (.token "if") none 0 2 [],
      oneLine (.other "parenthesized_expression") (some .condition) 2 5 [
        oneLine (.token "(") none 2 3 [],
        oneLine .identifier none 3 4 [],
        oneLine (.token ")") none 4 5 []],
      oneLine (.other "expression_statement") (some .consequence) 5 6 [
        oneLine (.token ";") none 5 6 []],
      oneLine .elseClause (some .alternative) 6 28 [
        oneLine (.token "else") none 6 10 [],
        oneLine .compoundStatement none 10 28 [
          oneLine (.token "\x7b") none 10 11 [],
          oneLine .declaration none 11 23 [
            oneLine (.other "primitive_type") none 11 14 [],
            oneLine .parenthesizedDeclarator (some .declarator) 14 22 [
              oneLine (.token "(") none 14 15 [],
              oneLine .pointerDeclarator none 15 21 [
                oneLine (.token "*") none 15 16 [],
                oneLine .comment none 16 20 [],
                oneLine .identifier (some .declarator) 20 21 []],
              oneLine (.token ")") none 21 22 []],
            oneLine (.token ";") none 22 23 []],
          oneLine .comment none 23 27 [],
          oneLine (.token "\x7d") none 27 28 []]]]]

def commentedText : String :=
  "if(x);else\x7bint(*/**/p);/**/\x7d"

theorem unit_withoutComments_iff_commentedTree :
    commentedTree.isLaidOut = true ∧
      commentedTree.withoutComments.unit commentedText = commentedTree.unit commentedText := by
  have hout : commentedTree.isLaidOut = true := by decide +kernel
  refine ⟨hout, (unit_withoutComments_iff _ hout).mpr ?_⟩
  decide +kernel

/-- The tree of `void f(){if(x);else/**/{int z;}}`, where a comment hides the block. -/
def hiddenTree : Tree :=
  oneLine (.other "translation_unit") none 0 32 [
    oneLine .functionDefinition none 0 32 [
      oneLine (.other "primitive_type") none 0 4 [],
      oneLine (.other "function_declarator") (some .declarator) 5 8 [
        oneLine .identifier (some .declarator) 5 6 [],
        oneLine (.other "parameter_list") none 6 8 [
          oneLine (.token "(") none 6 7 [],
          oneLine (.token ")") none 7 8 []]],
      oneLine .compoundStatement (some .body) 8 32 [
        oneLine (.token "\x7b") none 8 9 [],
        oneLine .ifStatement none 9 31 [
          oneLine (.token "if") none 9 11 [],
          oneLine (.other "parenthesized_expression") (some .condition) 11 14 [
            oneLine (.token "(") none 11 12 [],
            oneLine .identifier none 12 13 [],
            oneLine (.token ")") none 13 14 []],
          oneLine (.other "expression_statement") (some .consequence) 14 15 [
            oneLine (.token ";") none 14 15 []],
          oneLine .elseClause (some .alternative) 15 31 [
            oneLine (.token "else") none 15 19 [],
            oneLine .comment none 19 23 [],
            oneLine .compoundStatement none 23 31 [
              oneLine (.token "\x7b") none 23 24 [],
              oneLine .declaration none 24 30 [
                oneLine (.other "primitive_type") none 24 27 [],
                oneLine .identifier (some .declarator) 28 29 [],
                oneLine (.token ";") none 29 30 []],
              oneLine (.token "\x7d") none 30 31 []]]],
        oneLine (.token "\x7d") none 31 32 []]]]

def hiddenText : String :=
  "void f()\x7bif(x);else/**/\x7bint z;\x7d\x7d"

theorem findings_hiddenTree_withoutComments :
    hiddenTree.fault? hiddenText = none ∧ hiddenTree.isLaidOut = true ∧
      Finding.ofUnit (hiddenTree.unit hiddenText) = [] ∧
      Finding.ofUnit (hiddenTree.withoutComments.unit hiddenText) =
        [⟨1, some "z", "int z"⟩] := by
  refine ⟨rfl, ?_, ?_, ?_⟩ <;> decide +kernel

end Uninit.Tree
