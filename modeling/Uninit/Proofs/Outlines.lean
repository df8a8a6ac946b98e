import Mathlib.Data.List.Forall2
import Uninit.Proofs.Alike

/-!
# Units up to lines and values

The outline of a unit is all there is to it beside the lines of its items and the values of its
declarations: which items hold which, and the name, the text and the initialization of each
declaration. Two trees that are spelled alike are reached at the same places in the same roles, so
they are lowered to units with the same outline as soon as the nodes at these places declare the
same.

## Main definitions

* `Decl.outline`, `Item.outline`, `TranslationUnit.outline`: what is left without lines and values
* `Tree.SlotAlike`: two children at the same place in trees that are spelled alike

## Main statements

* `Decl.outline_eq_iff`: the outline of a declaration is its name, its text and its initialization
* `Tree.outline_itemsAs`: trees that are spelled alike and declare alike have the same outline
-/
namespace Uninit

/-! ## Outlines -/

/-- A declaration without its line and its value. It stays initialized. -/
def Decl.outline (d : Decl) : Decl :=
  { d with line := 0, initializer := d.initializer.map fun _ => "" }

/-- The outline of a declaration is its name, its text and whether it is initialized. -/
theorem Decl.outline_eq_iff {d e : Decl} :
    d.outline = e.outline ↔
      d.name = e.name ∧ d.text = e.text ∧ d.isInitialized = e.isInitialized := by
  obtain ⟨name, line, text, initializer⟩ := d
  obtain ⟨name', line', text', initializer'⟩ := e
  cases initializer <;> cases initializer' <;> simp [outline, isInitialized]

namespace Item

mutual

/-- An item without the lines of its functions and the lines and values of its declarations. -/
def outline : Item → Item
  | decl d => decl d.outline
  | function name _ body => function name 0 (outlineAll body)
  | branch consequence alternative => branch (outline consequence) (outlineOption alternative)
  | forLoop init body => forLoop (outlineAll init) (outline body)
  | whileLoop body => whileLoop (outline body)
  | doLoop body => doLoop (outline body)
  | switch body => switch (outline body)
  | case stmts => case (outlineAll stmts)
  | default stmts => default (outlineAll stmts)
  | compound stmts => compound (outlineAll stmts)
  | label body => label (outline body)
  | other => other

def outlineAll : List Item → List Item
  | [] => []
  | item :: rest => outline item :: outlineAll rest

def outlineOption : Option Item → Option Item
  | none => none
  | some item => some (outline item)

end

theorem outlineAll_eq_map (items : List Item) : outlineAll items = items.map outline := by
  induction items with
  | nil => rfl
  | cons item rest ih => rw [outlineAll, ih, List.map_cons]

theorem outline_headD (items : List Item) :
    (items.headD other).outline = (items.map outline).headD other := by
  cases items <;> rfl

theorem outlineOption_head? (items : List Item) :
    outlineOption items.head? = (items.map outline).head? := by
  cases items <;> rfl

theorem map_outline_map_decl (ds : List Decl) :
    (ds.map decl).map outline = (ds.map Decl.outline).map decl := by
  simp [outline]

mutual

/-- A walk meets the outlines of the declarations in the outline of an item. -/
theorem decls_outline : ∀ item : Item, item.outline.decls = item.decls.map Decl.outline
  | .decl d => by simp [outline, decls]
  | .function _ _ body => by simpa [outline, decls] using declsOf_outlineAll body
  | .branch consequence alternative => by
    simp [outline, decls, decls_outline consequence, declsOfOption_outlineOption alternative]
  | .forLoop init body => by
    simp [outline, decls, declsOf_outlineAll init, decls_outline body]
  | .whileLoop body | .doLoop body | .switch body | .label body => by
    simpa [outline, decls] using decls_outline body
  | .case stmts | .default stmts | .compound stmts => by
    simpa [outline, decls] using declsOf_outlineAll stmts
  | .other => by simp [outline, decls]

theorem declsOf_outlineAll : ∀ items : List Item,
    declsOf (outlineAll items) = (declsOf items).map Decl.outline
  | [] => rfl
  | item :: rest => by
    simp [outlineAll, declsOf, decls_outline item, declsOf_outlineAll rest]

theorem declsOfOption_outlineOption : ∀ o : Option Item,
    declsOfOption (outlineOption o) = (declsOfOption o).map Decl.outline
  | none => rfl
  | some item => by simpa [outlineOption, declsOfOption] using decls_outline item

end

end Item

/-- A unit without lines and values. -/
def TranslationUnit.outline (u : TranslationUnit) : TranslationUnit :=
  ⟨Item.outlineAll u.items⟩

theorem Decl.ofUnit_outline (u : TranslationUnit) :
    Decl.ofUnit u.outline = (Decl.ofUnit u).map Decl.outline := by
  rw [Decl.ofUnit_eq_declsOf, Decl.ofUnit_eq_declsOf]
  exact Item.declsOf_outlineAll u.items

namespace Tree

variable {source source' : String}

/-! ## Places in trees that are spelled alike -/

/-- What a sort of nodes finds in two lists that agree node by node agrees. -/
theorem find?_of_forall₂ {R : Tree → Tree → Prop} {q : Tree → Bool}
    (hq : ∀ c d, R c d → q c = q d) {cs ds : List Tree} (h : List.Forall₂ R cs ds) :
    Option.Rel R (cs.find? q) (ds.find? q) := by
  induction h with
  | nil => exact .none
  | @cons c d cs ds hcd _ ih =>
    rw [List.find?_cons, List.find?_cons, hq c d hcd]
    cases q d with
    | true => exact .some hcd
    | false => exact ih

theorem all_alike {q : Tree → Bool} (hq : ∀ c d, Alike source source' c d → q c = q d)
    {cs ds : List Tree} (h : List.Forall₂ (Alike source source') cs ds) :
    (cs.all fun c => !q c) = ds.all fun d => !q d := by
  induction h with
  | nil => rfl
  | @cons c d cs ds hcd _ ih => rw [List.all_cons, List.all_cons, hq c d hcd, ih]

theorem plays_alike (f : Field) (c d : Tree) (h : Alike source source' c d) :
    c.plays f = d.plays f := by
  rw [plays, plays, h.field_eq]

theorem isNamed_alike (c d : Tree) (h : Alike source source' c d) : c.isNamed = d.isNamed :=
  h.isNamed_eq

theorem playing?_alike (f : Field) {cs ds : List Tree}
    (h : List.Forall₂ (Alike source source') cs ds) :
    Option.Rel (Alike source source') (playing? f cs) (playing? f ds) :=
  find?_of_forall₂ (plays_alike f) h

/-- Two children, each among siblings, are spelled alike, and so are the siblings. -/
structure SlotAlike (source source' : String) (p q : Slot) : Prop where
  before : List.Forall₂ (Alike source source') p.before q.before
  child : Alike source source' p.child q.child
  after : List.Forall₂ (Alike source source') p.after q.after

theorem slotsFrom_alike {before before' cs ds : List Tree}
    (hbefore : List.Forall₂ (Alike source source') before before')
    (h : List.Forall₂ (Alike source source') cs ds) :
    List.Forall₂ (SlotAlike source source') (slotsFrom before cs) (slotsFrom before' ds) := by
  induction h generalizing before before' with
  | nil => exact .nil
  | cons hcd hrest ih =>
    exact .cons ⟨hbefore, hcd, hrest⟩ (ih (List.rel_append hbefore (.cons hcd .nil)))

namespace SlotAlike

variable {p q : Slot} (h : SlotAlike source source' p q)
include h

theorem isFirst_eq {s : Tree → Bool} (hs : ∀ c d, Alike source source' c d → s c = s d) :
    p.isFirst s = q.isFirst s := by
  rw [Slot.isFirst, Slot.isFirst, hs _ _ h.child, all_alike hs h.before]

theorem isLast_eq {s : Tree → Bool} (hs : ∀ c d, Alike source source' c d → s c = s d) :
    p.isLast s = q.isLast s := by
  rw [Slot.isLast, Slot.isLast, hs _ _ h.child, all_alike hs h.after]

theorem isListed_eq (skip : List Field) : p.isListed skip = q.isListed skip := by
  have hfirst : ∀ f, p.isFirst (plays f) = q.isFirst (plays f) :=
    fun f => h.isFirst_eq (plays_alike f)
  simp only [Slot.isListed, hfirst, h.child.isNamed_eq]

theorem roleInStatement_eq (k : Kind) : p.roleInStatement k = q.roleInStatement k := by
  have hfirst : ∀ f, p.isFirst (plays f) = q.isFirst (plays f) :=
    fun f => h.isFirst_eq (plays_alike f)
  cases k <;>
    simp only [Slot.roleInStatement, hfirst, h.isListed_eq, h.isLast_eq isNamed_alike]

/-- **Children at the same place have the same role.** -/
theorem role?_eq (r : Role) (k : Kind) : p.role? r k = q.role? r k := by
  cases r with
  | item =>
    cases k <;>
      simp only [Slot.role?, Slot.roleInItem, h.isListed_eq, h.roleInStatement_eq]
  | statement => exact h.roleInStatement_eq k
  | alternative =>
    simp only [Slot.role?, h.isFirst_eq isNamed_alike, h.roleInStatement_eq]
  | body => simp only [Slot.role?, h.isListed_eq]
  | initializer => rfl

end SlotAlike

/-! ## What a node takes from its children -/

theorem statementOf_eq_headD (source : String) (f : Field) (cs : List Tree) :
    Lowered.statementOf f (lowerAll source cs) =
      ((playing? f cs).elim [] (itemsAs source .statement)).headD .other := by
  rw [statementOf_lowerAll]
  cases playing? f cs <;> rfl

theorem firstOf_eq_headD (source : String) (cs : List Tree) :
    Lowered.firstOf (lowerAll source cs) =
      ((cs.find? isNamed).elim [] (itemsAs source .statement)).headD .other := by
  rw [firstOf_lowerAll]
  cases cs.find? isNamed <;> rfl

theorem lastOf_eq_headD (source : String) (cs : List Tree) :
    Lowered.lastOf (lowerAll source cs) =
      ((cs.reverse.find? isNamed).elim [] (itemsAs source .statement)).headD .other := by
  rw [lastOf_lowerAll]
  cases cs.reverse.find? isNamed <;> rfl

theorem alternative_eq_head? (source : String) (cs : List Tree) :
    (Lowered.playing? .alternative (lowerAll source cs)).map Lowered.alternative =
      ((playing? .alternative cs).elim [] (itemsAs source .alternative)).head? := by
  rw [playing?_lowerAll]
  cases playing? .alternative cs <;> rfl

theorem loopItems_eq_elim (source : String) (cs : List Tree) :
    Lowered.loopItems source (lowerAll source cs) =
      (playing? .initializer cs).elim [] (itemsAs source .initializer) := by
  rw [Lowered.loopItems, playing?_lowerAll]
  cases playing? .initializer cs with
  | none => rfl
  | some c => simp only [Option.map_some, tree_lower, Option.elim_some, itemsAs]

theorem functionBody_eq_elim (source : String) (cs : List Tree) :
    ((Lowered.playing? .body (lowerAll source cs)).map Lowered.inner).getD [] =
      (playing? .body cs).elim [] (itemsAs source .body) := by
  rw [playing?_lowerAll]
  cases playing? .body cs <;> rfl

/-- Two children of nodes of kind `k` in role `r` are at the same place, and give items with the
same outlines in the role that they have there. -/
structure GiveAlike (source source' : String) (r : Role) (k : Kind) (p q : Slot) : Prop where
  alike : SlotAlike source source' p q
  outline : ∀ r', p.role? r k = some r' →
    (itemsAs source r' p.child).map Item.outline = (itemsAs source' r' q.child).map Item.outline

/-- Only the role that a child has is of account. -/
theorem GiveAlike.congr {r s : Role} {k : Kind} {p q : Slot} (h : GiveAlike source source' r k p q)
    (hrole : p.role? r k = p.role? s k) : GiveAlike source source' s k p q :=
  ⟨h.alike, fun r' hr => h.outline r' (hrole.trans hr)⟩

section Taking

variable {r : Role} {k : Kind}

theorem outline_flatMap_slots {ps qs : List Slot} {r' : Role}
    (h : List.Forall₂ (GiveAlike source source' r k) ps qs) {s : Slot → Bool}
    (hs : ∀ p q, SlotAlike source source' p q → s p = s q)
    (hrole : ∀ p : Slot, s p = true → p.role? r k = some r') :
    (ps.flatMap fun p => if s p then itemsAs source r' p.child else []).map Item.outline =
      (qs.flatMap fun q => if s q then itemsAs source' r' q.child else []).map Item.outline := by
  induction h with
  | nil => rw [List.flatMap_nil, List.flatMap_nil]
  | @cons p q ps qs hpq _ ih =>
    have hone : (if s p then itemsAs source r' p.child else []).map Item.outline =
        (if s q then itemsAs source' r' q.child else []).map Item.outline := by
      rw [← hs p q hpq.alike]
      by_cases hp : s p = true
      · rw [if_pos hp, if_pos hp, hpq.outline r' (hrole p hp)]
      · rw [if_neg hp, if_neg hp]
    rw [List.flatMap_cons, List.flatMap_cons, List.map_append, List.map_append, hone, ih]

variable {cs ds : List Tree} (h : List.Forall₂ (GiveAlike source source' r k) (slots cs) (slots ds))
include h

theorem outline_first {s : Tree → Bool} (r' : Role)
    (hs : ∀ c d, Alike source source' c d → s c = s d)
    (hrole : ∀ p : Slot, p.isFirst s = true → p.role? r k = some r') :
    ((cs.find? s).elim [] (itemsAs source r')).map Item.outline =
      ((ds.find? s).elim [] (itemsAs source' r')).map Item.outline := by
  rw [← flatMap_slots_isFirst, ← flatMap_slots_isFirst]
  exact outline_flatMap_slots h (fun p q hpq => hpq.isFirst_eq hs) hrole

theorem outline_playing (f : Field) (r' : Role)
    (hrole : ∀ p : Slot, p.isFirst (plays f) = true → p.role? r k = some r') :
    ((playing? f cs).elim [] (itemsAs source r')).map Item.outline =
      ((playing? f ds).elim [] (itemsAs source' r')).map Item.outline :=
  outline_first h r' (plays_alike f) hrole

theorem outline_last {s : Tree → Bool} (r' : Role)
    (hs : ∀ c d, Alike source source' c d → s c = s d)
    (hrole : ∀ p : Slot, p.isLast s = true → p.role? r k = some r') :
    ((cs.reverse.find? s).elim [] (itemsAs source r')).map Item.outline =
      ((ds.reverse.find? s).elim [] (itemsAs source' r')).map Item.outline := by
  rw [← flatMap_slots_isLast, ← flatMap_slots_isLast]
  exact outline_flatMap_slots h (fun p q hpq => hpq.isLast_eq hs) hrole

theorem outline_itemsOf {skip : List Field} (hskip : skip.Nodup)
    (hrole : ∀ p : Slot, p.isListed skip = true → p.role? r k = some .item) :
    (Lowered.itemsOf skip (lowerAll source cs)).map Item.outline =
      (Lowered.itemsOf skip (lowerAll source' ds)).map Item.outline := by
  have hitems := outline_flatMap_slots h (fun p q hpq => hpq.isListed_eq skip) hrole
  simp only [itemsAs] at hitems
  rw [itemsOf_lowerAll source hskip, itemsOf_lowerAll source' hskip, hitems]

theorem outline_statementOf (f : Field)
    (hrole : ∀ p : Slot, p.isFirst (plays f) = true → p.role? r k = some .statement) :
    (Lowered.statementOf f (lowerAll source cs)).outline =
      (Lowered.statementOf f (lowerAll source' ds)).outline := by
  rw [statementOf_eq_headD, statementOf_eq_headD, Item.outline_headD, Item.outline_headD,
    outline_playing h f .statement hrole]

end Taking

/-! ## Lowering -/

variable {l m : Label} {cs ds : List Tree}

theorem outline_asStatement (h : Alike source source' (node l cs) (node m ds))
    (hgive : List.Forall₂ (GiveAlike source source' .statement l.kind) (slots cs) (slots ds))
    (hown : (ownDecls source .statement (node l cs)).map Decl.outline =
      (ownDecls source' .statement (node m ds)).map Decl.outline) :
    (Lowered.asStatement source (node l cs) (lowerAll source cs)).outline =
      (Lowered.asStatement source' (node m ds) (lowerAll source' ds)).outline := by
  have hkind : l.kind = m.kind := h.kind_eq
  have hchildren : List.Forall₂ (Alike source source') cs ds := h.children
  simp only [Lowered.asStatement, kind, label, ← hkind]
  cases hk : l.kind <;>
    simp only [kind, label, hk, ← hkind, ownDecls, reduceCtorEq, false_and, if_true, if_false]
      at hgive hown ⊢
  case functionDefinition =>
    have hbody := outline_playing hgive .body .body fun p hp => by
      simp [Slot.role?, Slot.roleInStatement, hp]
    have hname : ((node l cs).child? .declarator).bind (declaredName source) =
        ((node m ds).child? .declarator).bind (declaredName source') := by
      have hfound := playing?_alike .declarator hchildren
      rw [child?, child?, children, children]
      generalize playing? .declarator cs = c, playing? .declarator ds = d at hfound
      cases hfound with
      | none => rfl
      | some hcd => exact declaredName_alike hcd
    simp only [Item.outline, functionBody_eq_elim, Item.outlineAll_eq_map, hbody, hname]
  case compoundStatement =>
    have hitems := outline_itemsOf hgive List.nodup_nil fun p hp => by
      simp [Slot.role?, Slot.roleInStatement, hp]
    simp only [Item.outline, Item.outlineAll_eq_map, hitems]
  case ifStatement =>
    have hconsequence := outline_statementOf hgive .consequence fun p hp => by
      simp [Slot.role?, Slot.roleInStatement, hp]
    have halternative := outline_playing hgive .alternative .alternative
      fun p hp => by
        have hne : p.isFirst (plays .consequence) = false :=
          Slot.isFirst_plays_eq_false (by decide) hp
        simp [Slot.role?, Slot.roleInStatement, hp, hne]
    simp only [Item.outline, alternative_eq_head?, Item.outlineOption_head?, hconsequence,
      halternative]
  case forStatement =>
    have hinit := outline_playing hgive .initializer .initializer fun p hp => by
      simp [Slot.role?, Slot.roleInStatement, hp]
    have hbody := outline_statementOf hgive .body fun p hp => by
      have hne : p.isFirst (plays .initializer) = false :=
        Slot.isFirst_plays_eq_false (by decide) hp
      simp [Slot.role?, Slot.roleInStatement, hp, hne]
    simp only [Item.outline, loopItems_eq_elim, Item.outlineAll_eq_map, hinit, hbody]
  case whileStatement | doStatement | switchStatement =>
    have hbody := outline_statementOf hgive .body fun p hp => by
      simp [Slot.role?, Slot.roleInStatement, hp]
    simp only [Item.outline, hbody]
  case caseStatement =>
    have hitems := outline_itemsOf hgive (List.nodup_singleton Field.value) fun p hp => by
      simp [Slot.role?, Slot.roleInStatement, hp]
    have hvalue : (playing? .value cs).isSome = (playing? .value ds).isSome := by
      have hfound := playing?_alike .value hchildren
      generalize playing? .value cs = c, playing? .value ds = d at hfound
      cases hfound <;> rfl
    simp only [playing?_lowerAll, Option.isSome_map, hvalue]
    split <;> simp only [Item.outline, Item.outlineAll_eq_map, hitems]
  case labeledStatement =>
    have hitems := outline_itemsOf hgive (List.nodup_singleton Field.label) fun p hp => by
      simp [Slot.role?, Slot.roleInStatement, hp]
    simp only [Item.outline, Item.outlineAll_eq_map, hitems]
  case attributedStatement =>
    have hlast := outline_last hgive .statement isNamed_alike fun p hp => by
      simp [Slot.role?, Slot.roleInStatement, hp]
    rw [lastOf_eq_headD, lastOf_eq_headD, Item.outline_headD, Item.outline_headD, hlast]
  case declaration =>
    simp only [Item.outline, Item.outlineAll_eq_map, Item.map_outline_map_decl, hown]

theorem outline_itemsAs_statement (h : Alike source source' (node l cs) (node m ds))
    (hgive : List.Forall₂ (GiveAlike source source' .statement l.kind) (slots cs) (slots ds))
    (hown : (ownDecls source .statement (node l cs)).map Decl.outline =
      (ownDecls source' .statement (node m ds)).map Decl.outline) :
    (itemsAs source .statement (node l cs)).map Item.outline =
      (itemsAs source' .statement (node m ds)).map Item.outline :=
  congrArg (fun item => [item]) (outline_asStatement h hgive hown)

theorem outline_itemsAs_item (h : Alike source source' (node l cs) (node m ds))
    (hgive : List.Forall₂ (GiveAlike source source' .item l.kind) (slots cs) (slots ds))
    (hown : (ownDecls source .item (node l cs)).map Decl.outline =
      (ownDecls source' .item (node m ds)).map Decl.outline) :
    (itemsAs source .item (node l cs)).map Item.outline =
      (itemsAs source' .item (node m ds)).map Item.outline := by
  have hkind : l.kind = m.kind := h.kind_eq
  -- most items are statements that stand in a list
  have hstatement : (∀ p : Slot, p.roleInItem l.kind = p.roleInStatement l.kind) →
      (ownDecls source .statement (node l cs)).map Decl.outline =
        (ownDecls source' .statement (node m ds)).map Decl.outline →
      ([Lowered.asStatement source (node l cs) (lowerAll source cs)]).map Item.outline =
        ([Lowered.asStatement source' (node m ds) (lowerAll source' ds)]).map Item.outline :=
    fun hroles hown' =>
      outline_itemsAs_statement h (hgive.imp fun p _ hpq => hpq.congr (hroles p)) hown'
  change (Lowered.asItems source (node l cs) (lowerAll source cs)).map Item.outline =
    (Lowered.asItems source' (node m ds) (lowerAll source' ds)).map Item.outline
  simp only [Lowered.asItems, kind, label, ← hkind]
  cases hk : l.kind <;>
    simp only [kind, label, hk, ← hkind, ownDecls, Kind.isTag, Slot.roleInItem, reduceCtorEq,
      Bool.false_eq_true, and_false, false_and, and_self, if_true, if_false, forall_const]
      at hgive hown hstatement ⊢
  case declaration => rw [Item.map_outline_map_decl, Item.map_outline_map_decl, hown]
  case structSpecifier | unionSpecifier | enumSpecifier =>
    exact congrArg (List.map Item.decl) hown
  case conditionalBlock | definedBlock | conditionalBranch | definedBranch | lastBranch =>
    exact outline_itemsOf hgive (by decide) fun p hp => by
      simp [Slot.role?, Slot.roleInItem, hp]
  all_goals exact hstatement

/-- **What a node gives has the same outline**, if it declares the same itself and its children
give what has the same outline. -/
theorem outline_itemsAs_node {r : Role} (h : Alike source source' (node l cs) (node m ds))
    (hgive : List.Forall₂ (GiveAlike source source' r l.kind) (slots cs) (slots ds))
    (hown : (ownDecls source r (node l cs)).map Decl.outline =
      (ownDecls source' r (node m ds)).map Decl.outline) :
    (itemsAs source r (node l cs)).map Item.outline =
      (itemsAs source' r (node m ds)).map Item.outline := by
  have hkind : l.kind = m.kind := h.kind_eq
  cases r with
  | item => exact outline_itemsAs_item h hgive hown
  | statement => exact outline_itemsAs_statement h hgive hown
  | alternative =>
    by_cases hk : l.kind = .elseClause
    · have hfirst := outline_first hgive .statement isNamed_alike fun p hp => by
        simp [Slot.role?, hk, hp]
      simp only [itemsAs_alternative_of_elseClause source hk,
        itemsAs_alternative_of_elseClause source' (hkind ▸ hk), List.map_singleton,
        firstOf_eq_headD, Item.outline_headD, hfirst]
    · rw [itemsAs_alternative_of_ne source hk, itemsAs_alternative_of_ne source' (hkind ▸ hk)]
      have hroles : ∀ p : Slot, p.role? .alternative l.kind = p.role? .statement l.kind :=
        fun p => by simp only [Slot.role?, if_neg hk]
      refine outline_itemsAs_statement h (hgive.imp fun p _ hpq => hpq.congr (hroles p)) ?_
      simpa only [ownDecls, reduceCtorEq, false_and, if_false] using hown
  | body =>
    exact outline_itemsOf hgive List.nodup_nil fun p hp => by
      simp [Slot.role?, hp]
  | initializer =>
    have hkind' : (node l cs).kind = (node m ds).kind := hkind
    rw [itemsAs, itemsAs, ← hkind']
    rw [ownDecls, ownDecls, ← hkind'] at hown
    by_cases hk : (node l cs).kind = .declaration
    · simp only [hk, if_true, reduceCtorEq, if_false, Item.map_outline_map_decl] at hown ⊢
      rw [hown]
    · simp only [hk, if_false]

/-- **Trees that are spelled alike give items with the same outlines**, if the sites at the same
places declare the same, up to lines and values. These sites have the same role, and what stands
there is spelled alike. -/
theorem outline_itemsAs {t u : Tree} (h : Alike source source' t u) {r : Role}
    (hdecls : ∀ a ∈ sitesAs r t, ∀ b ∈ sitesAs r u, a.path = b.path → a.role = b.role →
      Alike source source' a.tree b.tree →
      (a.decls source).map Decl.outline = (b.decls source').map Decl.outline) :
    (itemsAs source r t).map Item.outline = (itemsAs source' r u).map Item.outline := by
  induction t using induct generalizing u r with
  | node l cs ih =>
    obtain ⟨m, ds⟩ := u
    have hkind : l.kind = m.kind := h.kind_eq
    have hown := hdecls ⟨[], r, node l cs⟩ (by simp [sitesAs_node]) ⟨[], r, node m ds⟩
      (by simp [sitesAs_node]) rfl rfl h
    refine outline_itemsAs_node h (forall₂_imp_of_mem (slotsFrom_alike .nil h.children) ?_) hown
    refine fun p hp q hq hpq =>
      ⟨hpq, fun r' hr => ih p.child (child_mem_of_mem_slots hp) hpq.child ?_⟩
    -- a site of the child is one of the node, behind one more step of its path
    intro a ha b hb hpath
    have hr' : q.role? r m.kind = some r' := by
      rw [← hpq.role?_eq, ← hkind, hr]
    refine hdecls (a.under p.before.length) ?_ (b.under q.before.length) ?_ ?_
    · rw [sitesAs_node, List.mem_cons, List.mem_flatMap]
      exact .inr ⟨p, hp, mem_sitesThrough.mpr ⟨r', hr, a, ha, rfl⟩⟩
    · rw [sitesAs_node, List.mem_cons, List.mem_flatMap]
      exact .inr ⟨q, hq, mem_sitesThrough.mpr ⟨r', hr', b, hb, rfl⟩⟩
    · rw [Site.under, Site.under, hpq.before.length_eq, hpath]

/-- The units of trees that are spelled alike have the same outline, if the sites at the same places
declare the same. -/
theorem outline_unit {t u : Tree} (h : Alike source source' t u)
    (hdecls : ∀ a ∈ t.sites, ∀ b ∈ u.sites, a.path = b.path → a.role = b.role →
      Alike source source' a.tree b.tree →
      (a.decls source).map Decl.outline = (b.decls source').map Decl.outline) :
    (t.unit source).outline = (u.unit source').outline := by
  have hitems := outline_itemsAs h (r := .body) hdecls
  rw [TranslationUnit.outline, TranslationUnit.outline, Item.outlineAll_eq_map,
    Item.outlineAll_eq_map]
  exact congrArg TranslationUnit.mk hitems

end Tree

end Uninit
