import Mathlib.Data.List.Flatten
import Mathlib.Logic.Relation
import Uninit.Proofs.Overlooked

/-!
# Conditional blocks give way

A conditional block in a list of items gives way to its branches: whether it stands in the list or
its own nodes stand there in its place, the unit is the same. An alternative is itself a
conditional block inside the branch before it, so a chain of alternatives gives way step by step.
Each step leaves a smaller tree, and where none is left, no list of items has a conditional block.

A node plays its part in its parent, so what part it plays is open where it moves to another
parent; it only must not take the part of a node that the new parent leaves out of its items.

## Main definitions

* `Tree.listing?`: the parts that are left out where the children of a node are a list of items
* `Tree.Splices`: one conditional block gives way to its branch
* `Tree.entriesIn`: the nodes of a list of items and of all branches in it

## Main statements

* `Splices.itemsAs_eq`: what a node gives in a role is the same after a step
* `itemsOf_eq_flatMap_entriesIn`: the items of a list are those of its entries
* `unit_splices_exact`: all steps leave the unit as it is
-/
namespace Uninit.Tree

variable (source : String)

/-! ## Filling a slot -/

namespace Slot

variable {p : Slot} {q : Tree → Bool} {c : Tree}

/-- The children of the node after its child has given way to some nodes. -/
def fill (p : Slot) (ts : List Tree) : List Tree :=
  p.before ++ (ts ++ p.after)

theorem mem_slots_fill (p : Slot) : p ∈ slots (p.fill [p.child]) :=
  mem_slots.mpr rfl

theorem find?_fill_of_isFirst (h : p.isFirst q = true) (hc : q c = q p.child) :
    (p.fill [c]).find? q = some c := by
  simp only [isFirst, Bool.and_eq_true, List.all_eq_true] at h
  have hbefore : p.before.find? q = none :=
    List.find?_eq_none.mpr fun t ht => by simpa using h.2 t ht
  simp [fill, List.find?_append, hbefore, hc, h.1]

theorem find?_fill_of_not_isFirst (h : p.isFirst q = false) (hc : q c = q p.child) :
    (p.fill [c]).find? q = (p.fill [p.child]).find? q := by
  simp only [fill, List.find?_append]
  cases hbefore : p.before.find? q with
  | some d => rfl
  | none =>
    have hnone : p.before.all (fun t => !q t) = true := by simpa using hbefore
    have hchild : q p.child = false := by simpa [isFirst, hnone] using h
    simp [hc, hchild]

theorem find?_reverse_fill_of_isLast (h : p.isLast q = true) (hc : q c = q p.child) :
    (p.fill [c]).reverse.find? q = some c := by
  simp only [isLast, Bool.and_eq_true, List.all_eq_true] at h
  have hafter : p.after.reverse.find? q = none :=
    List.find?_eq_none.mpr fun t ht => by simpa using h.2 t (List.mem_reverse.mp ht)
  simp [fill, List.find?_append, hafter, hc, h.1]

end Slot

/-! ## Lists of items -/

/-- A kind of conditional block, or of a branch of one. -/
def Kind.isConditional : Kind → Bool
  | conditionalBlock | definedBlock | conditionalBranch | definedBranch | lastBranch => true
  | _ => false

/-- The parts that a statement of kind `k` leaves out, if its other children are a list of items. -/
def Kind.listing? : Kind → Option (List Field)
  | compoundStatement => some []
  | caseStatement => some [.value]
  | labeledStatement => some [.label]
  | _ => none

/-- The parts that a node of kind `k` in role `r` leaves out, if its other children are a list of
items. -/
def listing? (r : Role) (k : Kind) : Option (List Field) :=
  match r with
  | .body => some []
  | .initializer => none
  | .item => if k.isConditional then some [.condition, .name] else k.listing?
  | .statement | .alternative => k.listing?

theorem nodup_of_listing? {r : Role} {k : Kind} {skip : List Field}
    (h : listing? r k = some skip) : skip.Nodup := by
  have hmem : skip ∈ [[], [.value], [.label], [.condition, .name]] := by
    cases r <;> cases k <;> simp_all [listing?, Kind.listing?, Kind.isConditional]
  have hnodup : ∀ skip ∈ [[], [Field.value], [.label], [.condition, .name]], skip.Nodup := by
    decide
  exact hnodup skip hmem

/-- A child is an item exactly if it is listed in a list of items. -/
theorem role?_eq_item_iff {p : Slot} {r : Role} {k : Kind} :
    p.role? r k = some .item ↔ ∃ skip, listing? r k = some skip ∧ p.isListed skip = true := by
  cases r <;> cases k <;>
    simp [Slot.role?, Slot.roleInItem, Slot.roleInStatement, listing?, Kind.listing?,
      Kind.isConditional] <;> split_ifs <;> simp_all

/-- Where the children of a node are a list of items, what the node gives depends on these items
alone, and on whether there is a value, if that part is left out. -/
theorem itemsAs_congr {r : Role} {l : Label} {skip : List Field}
    (h : listing? r l.kind = some skip) {cs ds : List Tree}
    (hitems : Lowered.itemsOf skip (lowerAll source cs) =
      Lowered.itemsOf skip (lowerAll source ds))
    (hvalue : .value ∈ skip → (playing? .value cs).isSome = (playing? .value ds).isSome) :
    itemsAs source r (node l cs) = itemsAs source r (node l ds) := by
  have hlowered : .value ∈ skip → (Lowered.playing? .value (lowerAll source cs)).isSome =
      (Lowered.playing? .value (lowerAll source ds)).isSome := by
    simpa only [playing?_lowerAll, Option.isSome_map] using hvalue
  cases r <;> cases hk : l.kind <;>
    simp only [listing?, Kind.listing?, Kind.isConditional, hk, Option.some.injEq, reduceCtorEq,
      if_true, if_false, Bool.false_eq_true] at h <;> subst h <;>
    simp only [itemsAs, lower, Lowered.asItems, Lowered.asStatement, Lowered.alternative, kind,
      label, hk, hitems, reduceCtorEq, if_false]
  case item.caseStatement | statement.caseStatement | alternative.caseStatement =>
    rw [hlowered (List.mem_singleton_self _)]

/-! ## Items of a list that is changed in one place -/

/-- The items of a node that is not left out. -/
def namedItems (t : Tree) : List Item :=
  if t.isNamed then (t.lower source).items else []

theorem plays_eq_decide {t : Tree} {g : Field} (h : t.field = some g) (f : Field) :
    t.plays f = decide (f = g) := by
  rw [Bool.eq_iff_iff, plays_iff, h, Option.some_inj, decide_eq_true_iff, eq_comm]

theorem itemsOf_lowerAll_append {skip : List Field} (hskip : skip.Nodup) (cs ds : List Tree) :
    Lowered.itemsOf skip (lowerAll source (cs ++ ds)) =
      Lowered.itemsOf skip (lowerAll source cs) ++
        Lowered.itemsOf (skip.filter fun f => !cs.any (plays f)) (lowerAll source ds) := by
  induction cs generalizing skip with
  | nil => simp [lowerAll, Lowered.itemsOf]
  | cons c rest ih =>
    rw [List.cons_append, lowerAll, lowerAll, Lowered.itemsOf, Lowered.itemsOf, tree_lower]
    cases hc : c.field with
    | none =>
      have hplays : ∀ f, c.plays f = false := fun f => by simp [plays, hc]
      simp [ih hskip, hplays]
    | some g =>
      have hplays := plays_eq_decide hc
      by_cases hg : g ∈ skip
      · have hrest : ((skip.erase g).filter fun f => !rest.any (plays f)) =
            skip.filter fun f => !(c :: rest).any (plays f) := by
          rw [hskip.erase_eq_filter, List.filter_filter]
          refine List.filter_congr fun f _ => ?_
          by_cases hf : f = g <;> simp [hplays, hf]
        simp only [if_pos hg, ih (hskip.erase g), hrest]
      · have hrest : (skip.filter fun f => !rest.any (plays f)) =
            skip.filter fun f => !(c :: rest).any (plays f) := by
          refine List.filter_congr fun f hf => ?_
          have hne : f ≠ g := fun h => hg (h ▸ hf)
          simp [hplays, hne]
        simp only [if_neg hg, ih hskip, hrest, List.append_assoc]

theorem itemsOf_lowerAll_of_free {skip : List Field} {ts : List Tree}
    (h : ∀ t ∈ ts, ∀ f ∈ skip, t.plays f = false) :
    Lowered.itemsOf skip (lowerAll source ts) = ts.flatMap (namedItems source) := by
  induction ts with
  | nil => rfl
  | cons t rest ih =>
    have hrest := ih fun d hd => h d (List.mem_cons_of_mem t hd)
    rw [lowerAll, Lowered.itemsOf, tree_lower, List.flatMap_cons, ← hrest]
    cases ht : t.field with
    | none => rfl
    | some g =>
      have hg : g ∉ skip := fun hg => by
        simpa [plays, ht] using h t List.mem_cons_self g hg
      simp only [if_neg hg]
      rfl

/-- In the place of the child, none of some nodes is left out for the part that it plays. -/
def Slot.Admits (p : Slot) (skip : List Field) (ts : List Tree) : Prop :=
  ∀ t ∈ ts, ∀ f ∈ skip, t.plays f = true → p.before.any (plays f) = true

theorem itemsOf_fill {p : Slot} {skip : List Field} (hskip : skip.Nodup) {ts : List Tree}
    (h : p.Admits skip ts) :
    Lowered.itemsOf skip (lowerAll source (p.fill ts)) =
      Lowered.itemsOf skip (lowerAll source p.before) ++ (ts.flatMap (namedItems source) ++
        Lowered.itemsOf (skip.filter fun f => !p.before.any (plays f))
          (lowerAll source p.after)) := by
  have hfree : ∀ t ∈ ts, ∀ f ∈ skip.filter fun f => !p.before.any (plays f),
      t.plays f = false := by
    intro t ht f hf
    rw [List.mem_filter] at hf
    by_contra hplays
    simp [h t ht f hf.1 (by simpa using hplays)] at hf
  -- what is still to be left out behind the nodes does not depend on them
  have hafter : ((skip.filter fun f => !p.before.any (plays f)).filter fun f =>
      !ts.any (plays f)) = skip.filter fun f => !p.before.any (plays f) := by
    refine List.filter_eq_self.mpr fun f hf => ?_
    simpa using fun t ht => hfree t ht f hf
  rw [Slot.fill, itemsOf_lowerAll_append source hskip,
    itemsOf_lowerAll_append source (hskip.filter _), hafter, itemsOf_lowerAll_of_free source hfree]

theorem isSome_playing?_fill {p : Slot} {skip : List Field} {ts : List Tree}
    (h : p.Admits skip ts) {f : Field} (hf : f ∈ skip) :
    (playing? f (p.fill ts)).isSome = (p.before.any (plays f) || p.after.any (plays f)) := by
  have hts : ts.any (plays f) = true → p.before.any (plays f) = true := by
    rw [List.any_eq_true]
    rintro ⟨t, ht, hplays⟩
    exact h t ht f hf hplays
  rw [playing?_eq_find?, List.isSome_find?, Slot.fill, List.any_append, List.any_append]
  cases hbefore : p.before.any (plays f) with
  | true => rfl
  | false =>
    have hnone : ts.any (plays f) = false := by simpa [hbefore] using hts
    rw [hnone, Bool.false_or]

/-- **A list of items can be changed in one place** for nodes with the same items. -/
theorem itemsAs_fill {p : Slot} {r : Role} {l : Label} {skip : List Field}
    (hskip : listing? r l.kind = some skip) {ts us : List Tree} (hts : p.Admits skip ts)
    (hus : p.Admits skip us)
    (h : ts.flatMap (namedItems source) = us.flatMap (namedItems source)) :
    itemsAs source r (node l (p.fill ts)) = itemsAs source r (node l (p.fill us)) := by
  have hnodup := nodup_of_listing? hskip
  refine itemsAs_congr source hskip ?_ fun hvalue => ?_
  · rw [itemsOf_fill source hnodup hts, itemsOf_fill source hnodup hus, h]
  · rw [isSome_playing?_fill hts hvalue, isSome_playing?_fill hus hvalue]

theorem isNamed_of_isListed {p : Slot} {skip : List Field} (h : p.isListed skip = true) :
    p.child.isNamed = true := by
  rw [Slot.isListed, Bool.and_eq_true] at h
  exact h.1

theorem plays_of_label_eq {c d : Tree} (h : c.label = d.label) (f : Field) :
    c.plays f = d.plays f := by
  rw [plays, plays, field, field, h]

theorem isNamed_of_label_eq {c d : Tree} (h : c.label = d.label) : c.isNamed = d.isNamed := by
  rw [isNamed, isNamed, kind, kind, h]

/-- In the place of a listed child, no node with its label is left out. -/
theorem admits_of_isListed {p : Slot} {skip : List Field} (h : p.isListed skip = true) {c : Tree}
    (hc : c.label = p.child.label) : p.Admits skip [c] := by
  intro t ht f hf hplays
  obtain rfl := List.mem_singleton.mp ht
  rw [plays_of_label_eq hc] at hplays
  simp only [Slot.isListed, Bool.and_eq_true, List.all_eq_true] at h
  have hfirst := h.2 f hf
  simpa [Slot.isFirst, hplays] using hfirst

theorem flatMap_ite {α β : Type} (q : α → Bool) (f : α → List β) (xs : List α) :
    (xs.flatMap fun x => if q x then f x else []) = (xs.filter q).flatMap f := by
  induction xs with
  | nil => rfl
  | cons x rest ih => cases hq : q x <;> simp [hq, ih]

/-! ## Steps -/

/-- A node without the part that it plays. -/
def unplayed : Tree → Tree
  | node l cs => node { l with field := none } cs

/-- What a conditional block gives way to: its named children without its condition and its
name. -/
def branch (t : Tree) : List Tree :=
  ((slots t.children).filter fun p => p.isListed [.condition, .name]).map Slot.child

/-- One conditional block in the lists of items that are reached from a node in a role gives way to
its branch. What has moved may play any part but one that is left out of the list. -/
inductive Splices : Role → Tree → Tree → Prop
  | here {r : Role} {l : Label} {p : Slot} {skip : List Field} {moved : List Tree}
      (hskip : listing? r l.kind = some skip) (hlisted : p.isListed skip = true)
      (hchild : p.child.kind.isConditional = true)
      (hmoved : moved.map unplayed = p.child.branch.map unplayed)
      (hadmits : p.Admits skip moved) :
      Splices r (node l (p.fill [p.child])) (node l (p.fill moved))
  | inside {r r' : Role} {l : Label} {p : Slot} {c : Tree}
      (hrole : p.role? r l.kind = some r') (h : Splices r' p.child c) :
      Splices r (node l (p.fill [p.child])) (node l (p.fill [c]))

theorem Splices.label_eq {r : Role} {t u : Tree} (h : Splices r t u) : u.label = t.label := by
  cases h <;> rfl

@[simp] theorem unplayed_unplayed (t : Tree) : t.unplayed.unplayed = t.unplayed := by
  cases t
  rfl

@[simp] theorem plays_unplayed (f : Field) (t : Tree) : t.unplayed.plays f = false := by
  cases t
  rfl

theorem tagDeclaration_unplayed (t : Tree) :
    tagDeclaration source t.unplayed = tagDeclaration source t := by
  obtain ⟨l, _ | ⟨c, rest⟩⟩ := t <;>
    simp [tagDeclaration, unplayed, tokens, leafToken, start, label]

theorem namedItems_unplayed (t : Tree) : namedItems source t.unplayed = namedItems source t := by
  have htag := tagDeclaration_unplayed source t
  obtain ⟨⟨k, _, _, _, _, _⟩, cs⟩ := t
  cases k
  case structSpecifier | unionSpecifier | enumSpecifier =>
    exact congrArg (fun d => [Item.decl d]) htag
  all_goals rfl

/-- What does not look at the parts that nodes play is the same of what has moved. -/
theorem map_eq_of_moved {β : Type} {f : Tree → β} (hf : ∀ t : Tree, f t.unplayed = f t)
    {ts ds : List Tree} (h : ts.map unplayed = ds.map unplayed) : ts.map f = ds.map f := by
  have hmap : ∀ ts : List Tree, (ts.map unplayed).map f = ts.map f := by
    intro ts
    rw [List.map_map]
    exact List.map_congr_left fun t _ => hf t
  rw [← hmap ts, h, hmap]

/-- What has moved has the items of the branch. -/
theorem flatMap_namedItems_of_moved {ts ds : List Tree}
    (h : ts.map unplayed = ds.map unplayed) :
    ts.flatMap (namedItems source) = ds.flatMap (namedItems source) := by
  rw [List.flatMap_def, List.flatMap_def, map_eq_of_moved (namedItems_unplayed source) h]

theorem items_eq_itemsOf {t : Tree} (h : t.kind.isConditional = true) :
    (t.lower source).items = Lowered.itemsOf [.condition, .name] (lowerAll source t.children) := by
  obtain ⟨l, cs⟩ := t
  cases hk : l.kind <;> simp_all [Kind.isConditional, lower, Lowered.asItems, kind, label, children]

/-- The items of a conditional block are those of its branch. -/
theorem items_of_isConditional {t : Tree} (h : t.kind.isConditional = true) :
    (t.lower source).items = t.branch.flatMap (namedItems source) := by
  rw [items_eq_itemsOf source h, itemsOf_lowerAll source (by decide), flatMap_ite, branch,
    List.flatMap_map]
  refine List.flatMap_congr fun p hp => ?_
  rw [namedItems, if_pos (isNamed_of_isListed (List.mem_filter.mp hp).2)]

/-- A statement gives the same if the child that it takes gives the same. -/
theorem statement_fill {p : Slot} {l : Label} {r : Role} {c : Tree}
    (hrole : p.roleInStatement l.kind = some r) (hr : r ≠ .item)
    (hlabel : c.label = p.child.label)
    (h : itemsAs source r c = itemsAs source r p.child) :
    ((node l (p.fill [c])).lower source).statement =
      ((node l (p.fill [p.child])).lower source).statement := by
  -- the child is found for the part that it plays, and every other part is found where it was
  have hplays := plays_of_label_eq hlabel
  have hfirst : ∀ {f : Field}, p.isFirst (plays f) = true → playing? f (p.fill [c]) = some c ∧
      playing? f (p.fill [p.child]) = some p.child := fun hf =>
    ⟨Slot.find?_fill_of_isFirst hf (hplays _), Slot.find?_fill_of_isFirst hf rfl⟩
  have hother : ∀ {f : Field}, p.isFirst (plays f) = false →
      playing? f (p.fill [c]) = playing? f (p.fill [p.child]) := fun hf =>
    Slot.find?_fill_of_not_isFirst hf (hplays _)
  change Lowered.asStatement source (node l (p.fill [c])) (lowerAll source (p.fill [c])) =
    Lowered.asStatement source (node l (p.fill [p.child])) (lowerAll source (p.fill [p.child]))
  cases hk : l.kind <;>
    simp only [Slot.roleInStatement, hk, reduceCtorEq] at hrole <;>
    simp only [Lowered.asStatement, kind, label, hk]
  case functionDefinition =>
    split_ifs at hrole with hf
    obtain rfl := Option.some.inj hrole
    have hdeclarator := hother (Slot.isFirst_plays_eq_false (g := .declarator) (by decide) hf)
    have hinner : (c.lower source).inner = (p.child.lower source).inner := h
    simp only [child?, children, playing?_lowerAll, hdeclarator, hfirst hf, Option.map_some, hinner]
    rfl
  case ifStatement =>
    split_ifs at hrole with hf hg <;> obtain rfl := Option.some.inj hrole <;>
      have hstatement := List.singleton_inj.mp h
    · have halternative := hother (Slot.isFirst_plays_eq_false (g := .alternative) (by decide) hf)
      simp only [playing?_lowerAll, statementOf_lowerAll, halternative, hfirst hf,
        Option.elim_some, hstatement]
    · simp only [playing?_lowerAll, statementOf_lowerAll, hother (Bool.eq_false_iff.mpr hf),
        hfirst hg, Option.map_some, hstatement]
  case forStatement =>
    split_ifs at hrole with hf hg <;> obtain rfl := Option.some.inj hrole
    · have hbody := hother (Slot.isFirst_plays_eq_false (g := .body) (by decide) hf)
      have hitems : (if c.kind = .declaration then (declarations source c).map Item.decl else []) =
          if p.child.kind = .declaration then (declarations source p.child).map .decl else [] := h
      simp only [Lowered.loopItems, playing?_lowerAll, statementOf_lowerAll, hbody, hfirst hf,
        Option.map_some, tree_lower, hitems]
    · have hstatement := List.singleton_inj.mp h
      simp only [Lowered.loopItems, playing?_lowerAll, statementOf_lowerAll,
        hother (Bool.eq_false_iff.mpr hf), hfirst hg, Option.elim_some, hstatement]
  case whileStatement | doStatement | switchStatement =>
    split_ifs at hrole with hf
    obtain rfl := Option.some.inj hrole
    have hstatement := List.singleton_inj.mp h
    simp only [statementOf_lowerAll, hfirst hf, Option.elim_some, hstatement]
  case attributedStatement =>
    split_ifs at hrole with hf
    obtain rfl := Option.some.inj hrole
    have hstatement := List.singleton_inj.mp h
    have hnamed := isNamed_of_label_eq hlabel
    simp only [lastOf_lowerAll, Slot.find?_reverse_fill_of_isLast hf hnamed,
      Slot.find?_reverse_fill_of_isLast hf rfl, Option.elim_some, hstatement]
  all_goals
    split_ifs at hrole
    exact absurd (Option.some.inj hrole).symm hr

/-- What a node gives in a role, if it takes one child for what that child gives. -/
theorem itemsAs_fill_of_ne_item {p : Slot} {l : Label} {r r' : Role} {c : Tree}
    (hrole : p.role? r l.kind = some r') (hr : r' ≠ .item) (hlabel : c.label = p.child.label)
    (h : itemsAs source r' c = itemsAs source r' p.child) :
    itemsAs source r (node l (p.fill [c])) = itemsAs source r (node l (p.fill [p.child])) := by
  cases r with
  | item =>
    have hitems : ∀ cs, itemsAs source .item (node l cs) = itemsAs source .statement (node l cs) ∧
        p.roleInStatement l.kind = some r' := by
      intro cs
      cases hk : l.kind <;>
        simp_all [Slot.role?, Slot.roleInItem, Slot.roleInStatement, itemsAs, lower,
          Lowered.asItems, kind, label]
    rw [(hitems _).1, (hitems _).1]
    exact congrArg (fun i => [i]) (statement_fill source (hitems []).2 hr hlabel h)
  | statement => exact congrArg (fun i => [i]) (statement_fill source hrole hr hlabel h)
  | alternative =>
    simp only [Slot.role?] at hrole
    by_cases hk : l.kind = .elseClause
    · rw [if_pos hk] at hrole
      split_ifs at hrole with hf
      obtain rfl := Option.some.inj hrole
      have hstatement := List.singleton_inj.mp h
      have hnamed := isNamed_of_label_eq hlabel
      simp only [itemsAs_alternative_of_elseClause source hk, firstOf_lowerAll,
        Slot.find?_fill_of_isFirst hf hnamed, Slot.find?_fill_of_isFirst hf rfl, Option.elim_some,
        hstatement]
    · rw [if_neg hk] at hrole
      rw [itemsAs_alternative_of_ne source hk, itemsAs_alternative_of_ne source hk]
      exact congrArg (fun i => [i]) (statement_fill source hrole hr hlabel h)
  | body =>
    simp only [Slot.role?] at hrole
    split_ifs at hrole
    exact absurd (Option.some.inj hrole).symm hr
  | initializer => cases hrole

/-- **What a node gives in a role is the same after a step.** -/
theorem Splices.itemsAs_eq {r : Role} {t u : Tree} (h : Splices r t u) :
    itemsAs source r u = itemsAs source r t := by
  induction h with
  | @here r l p skip moved hskip hlisted hchild hmoved hadmits =>
    refine itemsAs_fill source hskip hadmits (admits_of_isListed hlisted rfl) ?_
    rw [flatMap_namedItems_of_moved source hmoved, ← items_of_isConditional source hchild,
      List.flatMap_singleton, namedItems, if_pos (isNamed_of_isListed hlisted)]
  | @inside r r' l p c hrole h ih =>
    have hlabel := h.label_eq
    -- an item is one of many in its list, and any other child is the one that is taken
    by_cases hr : r' = .item
    · subst hr
      obtain ⟨skip, hskip, hlisted⟩ := role?_eq_item_iff.mp hrole
      refine itemsAs_fill source hskip (admits_of_isListed hlisted hlabel)
        (admits_of_isListed hlisted rfl) ?_
      rw [List.flatMap_singleton, List.flatMap_singleton, namedItems, namedItems,
        isNamed_of_label_eq hlabel]
      exact congrArg (fun xs => if p.child.isNamed then xs else []) ih
    · exact itemsAs_fill_of_ne_item source hrole hr hlabel ih

/-! ## Steps come to an end -/

theorem length_nodes_unplayed (t : Tree) : t.unplayed.nodes.length = t.nodes.length := by
  obtain ⟨l, cs⟩ := t
  rw [unplayed, nodes_node, nodes_node, List.length_cons, List.length_cons]

/-- What has moved has as many nodes as the branch. -/
theorem length_nodes_of_moved {ts ds : List Tree} (h : ts.map unplayed = ds.map unplayed) :
    (ts.flatMap nodes).length = (ds.flatMap nodes).length := by
  rw [List.length_flatMap, List.length_flatMap, map_eq_of_moved length_nodes_unplayed h]

/-- A branch is a part of its block. -/
theorem branch_sublist (t : Tree) : t.branch.Sublist t.children := by
  have hsublist : t.branch.Sublist ((slots t.children).map Slot.child) :=
    List.filter_sublist.map Slot.child
  rwa [slots, map_child_slotsFrom] at hsublist

theorem length_nodes_branch_lt (t : Tree) :
    (t.branch.flatMap nodes).length < t.nodes.length := by
  have hbranch := ((branch_sublist t).flatMap nodes).length_le
  obtain ⟨l, cs⟩ := t
  rw [nodes_node, List.length_cons]
  exact Nat.lt_succ_of_le hbranch

/-- A tree gets smaller where a child gives way to fewer nodes. -/
theorem length_nodes_fill_lt {p : Slot} {ts : List Tree}
    (h : (ts.flatMap nodes).length < p.child.nodes.length) (l : Label) :
    (node l (p.fill ts)).nodes.length < (node l (p.fill [p.child])).nodes.length := by
  simp only [nodes_node, Slot.fill, List.length_cons, List.flatMap_append, List.length_append,
    List.flatMap_singleton]
  omega

/-- **Each step leaves a smaller tree.** -/
theorem Splices.length_nodes_lt {r : Role} {t u : Tree} (h : Splices r t u) :
    u.nodes.length < t.nodes.length := by
  induction h with
  | @here r l p skip moved hskip hlisted hchild hmoved hadmits =>
    refine length_nodes_fill_lt ?_ l
    rw [length_nodes_of_moved hmoved]
    exact length_nodes_branch_lt p.child
  | @inside r r' l p c hrole h ih =>
    refine length_nodes_fill_lt ?_ l
    rwa [List.flatMap_singleton]

/-- No list of items of a tree has a conditional block. -/
def IsDissolved (t : Tree) : Prop :=
  ∀ site ∈ t.sites, site.role = .item → site.tree.kind.isConditional = false

instance (t : Tree) : Decidable t.IsDissolved :=
  inferInstanceAs (Decidable (∀ site ∈ t.sites, _ → _))

/-- Only the node itself is reached by no step down. -/
theorem Reaches.eq_of_path {r : Role} {t : Tree} {site : Site} (h : Reaches r t site)
    (hpath : site.path = []) : site = ⟨[], r, t⟩ := by
  cases h with
  | here => rfl
  | child => cases hpath

/-- Where a list of items has a conditional block, it can give way. -/
theorem exists_splices {r : Role} {t : Tree} {site : Site} (h : Reaches r t site)
    (hpath : site.path ≠ []) (hrole : site.role = .item)
    (hkind : site.tree.kind.isConditional = true) : ∃ u, Splices r t u := by
  induction h with
  | here r t => exact absurd rfl hpath
  | @child r r' l cs p below hp hr h ih =>
    rw [mem_slots.mp hp]
    -- the block is this child, or stands further down
    by_cases hbelow : below.path = []
    · obtain rfl := h.eq_of_path hbelow
      obtain rfl : r' = .item := hrole
      obtain ⟨skip, hskip, hlisted⟩ := role?_eq_item_iff.mp hr
      have hmoved : (p.child.branch.map unplayed).map unplayed = p.child.branch.map unplayed := by
        simp
      have hadmits : p.Admits skip (p.child.branch.map unplayed) := by
        intro t ht f hf hplays
        obtain ⟨d, -, rfl⟩ := List.mem_map.mp ht
        simp at hplays
      exact ⟨_, .here hskip hlisted hkind hmoved hadmits⟩
    · obtain ⟨c, hc⟩ := ih hbelow hrole hkind
      exact ⟨_, .inside hr hc⟩

/-- What gives way in a step is a conditional block in a list of items. -/
theorem Splices.exists_site {r : Role} {t u : Tree} (h : Splices r t u) :
    ∃ site, Reaches r t site ∧ site.role = .item ∧ site.tree.kind.isConditional = true := by
  induction h with
  | @here r l p skip moved hskip hlisted hchild hmoved hadmits =>
    have hrole : p.role? r l.kind = some .item := role?_eq_item_iff.mpr ⟨skip, hskip, hlisted⟩
    exact ⟨_, .child p.mem_slots_fill hrole (.here .item p.child), rfl, hchild⟩
  | @inside r r' l p c hrole h ih =>
    obtain ⟨site, hsite, hitem, hkind⟩ := ih
    exact ⟨_, .child p.mem_slots_fill hrole hsite, hitem, hkind⟩

/-- **The steps stop exactly where no list of items has a conditional block.** -/
theorem isDissolved_iff {t : Tree} : t.IsDissolved ↔ ∀ u, ¬ Splices .body t u := by
  constructor
  · intro h u hu
    obtain ⟨site, hsite, hitem, hkind⟩ := hu.exists_site
    simp [h site (mem_sitesAs_iff.mpr hsite) hitem] at hkind
  · intro h site hsite hitem
    by_contra hkind
    have hreaches := mem_sitesAs_iff.mp hsite
    have hpath : site.path ≠ [] := by
      intro hpath
      rw [hreaches.eq_of_path hpath] at hitem
      cases hitem
    obtain ⟨u, hu⟩ := exists_splices hreaches hpath hitem (by simpa using hkind)
    exact h u hu

/-- **Every tree comes to a tree without conditional blocks in lists of items.** -/
theorem exists_isDissolved (t : Tree) :
    ∃ u, Relation.ReflTransGen (Splices .body) t u ∧ u.IsDissolved := by
  induction hn : t.nodes.length using Nat.strongRecOn generalizing t with
  | ind n ih =>
    by_cases hdone : ∃ u, Splices .body t u
    · obtain ⟨u, hu⟩ := hdone
      obtain ⟨v, hv, hdissolved⟩ := ih u.nodes.length (hn ▸ hu.length_nodes_lt) u rfl
      exact ⟨v, .head hu hv, hdissolved⟩
    · exact ⟨t, .refl, isDissolved_iff.mpr fun u hu => hdone ⟨u, hu⟩⟩

/-! ## All branches of a list -/

/-- A node stands in a list of items or, through conditional blocks, in a branch of one. -/
inductive StandsIn : List Field → List Tree → Site → Prop
  | plain {skip : List Field} {cs : List Tree} {p : Slot} (hp : p ∈ slots cs)
      (hlisted : p.isListed skip = true) (hkind : p.child.kind.isConditional = false) :
      StandsIn skip cs ⟨[p.before.length], .item, p.child⟩
  | branch {skip : List Field} {cs : List Tree} {p : Slot} {site : Site} (hp : p ∈ slots cs)
      (hlisted : p.isListed skip = true) (hkind : p.child.kind.isConditional = true)
      (h : StandsIn [.condition, .name] p.child.children site) :
      StandsIn skip cs (site.under p.before.length)

mutual

/-- What stands in the place of a node of a list of items: the node itself, or everything in the
branches of a conditional block. -/
def entries : Tree → List Site
  | node l cs =>
    if l.kind.isConditional then entriesAmong [.condition, .name] [] cs
    else [⟨[], .item, node l cs⟩]

/-- The nodes of a list of items and of all branches in it, of which `before` are done. -/
def entriesAmong (skip : List Field) (before : List Tree) : List Tree → List Site
  | [] => []
  | c :: after =>
    (if (Slot.mk before c after).isListed skip then (entries c).map (Site.under before.length)
      else []) ++ entriesAmong skip (before ++ [c]) after

end

/-- The nodes of a list of items and of all branches in it, in the order of the document. -/
def entriesIn (skip : List Field) (cs : List Tree) : List Site :=
  entriesAmong skip [] cs

theorem entriesAmong_eq_flatMap (skip : List Field) (before cs : List Tree) :
    entriesAmong skip before cs = (slotsFrom before cs).flatMap fun p =>
      if p.isListed skip then (entries p.child).map (Site.under p.before.length) else [] := by
  induction cs generalizing before with
  | nil => rfl
  | cons c after ih => rw [entriesAmong, ih, slotsFrom, List.flatMap_cons]

theorem entriesIn_eq_flatMap (skip : List Field) (cs : List Tree) :
    entriesIn skip cs = (slots cs).flatMap fun p =>
      if p.isListed skip then (entries p.child).map (Site.under p.before.length) else [] :=
  entriesAmong_eq_flatMap skip [] cs

theorem entries_of_isConditional {t : Tree} (h : t.kind.isConditional = true) :
    t.entries = entriesIn [.condition, .name] t.children := by
  obtain ⟨l, cs⟩ := t
  have hkind : l.kind.isConditional = true := h
  rw [entries, if_pos hkind]
  rfl

theorem entries_of_plain {t : Tree} (h : t.kind.isConditional = false) :
    t.entries = [⟨[], .item, t⟩] := by
  obtain ⟨l, cs⟩ := t
  have hkind : ¬ l.kind.isConditional = true := Bool.eq_false_iff.mp h
  rw [entries, if_neg hkind]

theorem mem_entriesIn {skip : List Field} {cs : List Tree} {site : Site} :
    site ∈ entriesIn skip cs ↔ ∃ p ∈ slots cs, p.isListed skip = true ∧
      ∃ below ∈ p.child.entries, below.under p.before.length = site := by
  rw [entriesIn_eq_flatMap, List.mem_flatMap]
  refine exists_congr fun p => and_congr_right fun _ => ?_
  by_cases hlisted : p.isListed skip = true
  · rw [if_pos hlisted, List.mem_map, and_iff_right hlisted]
  · simp [hlisted]

/-- What holds of a list of items as soon as it holds of the branches in it holds of every list. -/
theorem induct_branches {P : List Field → List Tree → Prop}
    (list : ∀ skip cs, (∀ p ∈ slots cs, p.child.kind.isConditional = true →
      P [.condition, .name] p.child.children) → P skip cs) (skip : List Field) (cs : List Tree) :
    P skip cs := by
  have hchildren : ∀ t : Tree, ∀ skip, P skip t.children := by
    intro t
    induction t using induct with
    | node l ds ih =>
      intro skip
      exact list skip ds fun p hp _ => ih p.child (child_mem_of_mem_slots hp) _
  exact hchildren (node default cs) skip

/-- **The entries of a list are the nodes that stand in it or in a branch.** -/
theorem mem_entriesIn_iff {skip : List Field} {cs : List Tree} {site : Site} :
    site ∈ entriesIn skip cs ↔ StandsIn skip cs site := by
  constructor
  · induction skip, cs using induct_branches generalizing site with
    | list skip cs ih =>
      intro h
      obtain ⟨p, hp, hlisted, below, hbelow, rfl⟩ := mem_entriesIn.mp h
      cases hkind : p.child.kind.isConditional with
      | false =>
        rw [entries_of_plain hkind] at hbelow
        obtain rfl := List.mem_singleton.mp hbelow
        exact .plain hp hlisted hkind
      | true =>
        rw [entries_of_isConditional hkind] at hbelow
        exact .branch hp hlisted hkind (ih p hp hkind hbelow)
  · intro h
    induction h with
    | @plain skip cs p hp hlisted hkind =>
      have hself : (⟨[], .item, p.child⟩ : Site) ∈ p.child.entries := by
        rw [entries_of_plain hkind]
        exact List.mem_singleton_self _
      exact mem_entriesIn.mpr ⟨p, hp, hlisted, _, hself, rfl⟩
    | @branch skip cs p site hp hlisted hkind h ih =>
      rw [← entries_of_isConditional hkind] at ih
      exact mem_entriesIn.mpr ⟨p, hp, hlisted, site, ih, rfl⟩

/-- **The entries of a list stand in the order of the document**, each once. -/
theorem pairwise_entriesIn (skip : List Field) (cs : List Tree) :
    (entriesIn skip cs).Pairwise fun a b => a.path < b.path := by
  induction skip, cs using induct_branches with
  | list skip cs ih =>
    rw [entriesIn_eq_flatMap, List.pairwise_flatMap]
    constructor
    · intro p hp
      split_ifs with hlisted
      · have hchild : p.child.entries.Pairwise fun a b => a.path < b.path := by
          cases hkind : p.child.kind.isConditional with
          | false =>
            rw [entries_of_plain hkind]
            exact List.pairwise_singleton _ _
          | true =>
            rw [entries_of_isConditional hkind]
            exact ih p hp hkind
        refine List.pairwise_map.mpr (hchild.imp ?_)
        intro a b hab
        simpa [Site.under] using hab
      · exact .nil
    · refine (pairwise_slotsFrom [] cs).imp fun {p q} hpq a ha b hb => ?_
      split_ifs at ha hb
      · obtain ⟨a', -, rfl⟩ := List.mem_map.mp ha
        obtain ⟨b', -, rfl⟩ := List.mem_map.mp hb
        exact List.cons_lt_cons_iff.mpr (.inl hpq)
      all_goals simp at ha hb

/-- **The items of a list are those of its entries.** -/
theorem itemsOf_eq_flatMap_entriesIn {skip : List Field} (hskip : skip.Nodup) (cs : List Tree) :
    Lowered.itemsOf skip (lowerAll source cs) =
      (entriesIn skip cs).flatMap fun e => itemsAs source .item e.tree := by
  induction skip, cs using induct_branches with
  | list skip cs ih =>
    rw [itemsOf_lowerAll source hskip, entriesIn_eq_flatMap, List.flatMap_assoc]
    refine List.flatMap_congr fun p hp => ?_
    split_ifs with hlisted
    · have hchild : (p.child.lower source).items =
          p.child.entries.flatMap fun e => itemsAs source .item e.tree := by
        cases hkind : p.child.kind.isConditional with
        | false =>
          rw [entries_of_plain hkind, List.flatMap_singleton]
          rfl
        | true =>
          rw [entries_of_isConditional hkind, ← ih p hp hkind (by decide),
            items_eq_itemsOf source hkind]
      rw [List.flatMap_map, hchild]
      rfl
    · rfl

/-- **Conditional blocks are transparent.** Whatever blocks in lists of items give way to their
branches, in any order and at any depth, the unit is the same; this ends where no list has a block.
So each list has the items of all nodes that stand in it or, through blocks, in a branch of one. -/
theorem unit_splices_exact (t : Tree) :
    (∀ u, Relation.ReflTransGen (Splices .body) t u → u.unit source = t.unit source) ∧
      (∀ u v, Splices .body u v → v.nodes.length < u.nodes.length) ∧
      (∀ u : Tree, u.IsDissolved ↔ ∀ v, ¬ Splices .body u v) ∧
      (∃ u, Relation.ReflTransGen (Splices .body) t u ∧ u.IsDissolved) ∧
      ∀ site ∈ t.sites, ∀ skip, listing? site.role site.tree.kind = some skip →
        (∀ e, e ∈ entriesIn skip site.tree.children ↔ StandsIn skip site.tree.children e) ∧
        ((entriesIn skip site.tree.children).Pairwise fun a b => a.path < b.path) ∧
        Lowered.itemsOf skip (lowerAll source site.tree.children) =
          (entriesIn skip site.tree.children).flatMap fun e => itemsAs source .item e.tree := by
  refine ⟨fun u hu => ?_, fun u v h => h.length_nodes_lt, fun u => isDissolved_iff,
    exists_isDissolved t, fun site _ skip hskip => ⟨fun e => mem_entriesIn_iff,
      pairwise_entriesIn skip _, itemsOf_eq_flatMap_entriesIn source (nodup_of_listing? hskip) _⟩⟩
  induction hu with
  | refl => rfl
  | tail _ hstep ih => exact (congrArg TranslationUnit.mk (hstep.itemsAs_eq source)).trans ih

/-- A conditional block with two branches. -/
def conditionalText : String :=
  "#if A\nint x;\n#else\nint y;\n#endif\n"

/-- A line of a text that declares one integer. -/
def integerLine (row first : ℕ) : Tree :=
  inLine row first .declaration none first (first + 6) [
    inLine row first (.other "primitive_type") none first (first + 3) [],
    inLine row first .identifier (some .declarator) (first + 4) (first + 5) [],
    inLine row first (.token ";") none (first + 5) (first + 6) []]

/-- The last branch of `conditionalText`. -/
def elseTree : Tree :=
  node ⟨.lastBranch, some .alternative, ⟨13, 2, 0⟩, ⟨25, 3, 6⟩, false, false⟩ [
    inLine 2 13 (.token "#else") none 13 18 [], integerLine 3 19]

/-- The conditional block of `conditionalText`. -/
def blockTree : Tree :=
  node ⟨.conditionalBlock, none, .origin, ⟨32, 4, 6⟩, false, false⟩ [
    inLine 0 0 (.token "#if") none 0 3 [],
    inLine 0 0 .identifier (some .condition) 4 5 [],
    node ⟨.token "\n", none, ⟨5, 0, 5⟩, ⟨6, 1, 0⟩, false, false⟩ [],
    integerLine 1 6,
    elseTree,
    inLine 4 26 (.token "#endif") none 26 32 []]

/-- A translation unit of five lines. -/
def unitTree (cs : List Tree) : Tree :=
  node ⟨.other "translation_unit", none, .origin, ⟨33, 5, 0⟩, false, false⟩ cs

/-- The tree of `conditionalText` comes to a tree with both declarations in two steps. -/
theorem unit_splices_exact_blockTree :
    Relation.ReflTransGen (Splices .body) (unitTree [blockTree])
        (unitTree [integerLine 1 6, integerLine 3 19]) ∧
      (unitTree [integerLine 1 6, integerLine 3 19]).IsDissolved ∧
      Finding.ofUnit ((unitTree [blockTree]).unit conditionalText) =
        [⟨2, some "x", "int x"⟩, ⟨4, some "y", "int y"⟩] := by
  have hblock : Splices .body (unitTree [blockTree]) (unitTree [integerLine 1 6, elseTree]) :=
    .here (p := ⟨[], blockTree, []⟩) rfl rfl rfl rfl (by simp [Slot.Admits])
  have helse : Splices .body (unitTree [integerLine 1 6, elseTree])
      (unitTree [integerLine 1 6, integerLine 3 19]) :=
    @Splices.here _ _ ⟨[integerLine 1 6], elseTree, []⟩ [] [integerLine 3 19] rfl rfl rfl rfl
      (by simp [Slot.Admits])
  have hsteps := Relation.ReflTransGen.head hblock (.single helse)
  refine ⟨hsteps, by decide +kernel, ?_⟩
  rw [← (unit_splices_exact conditionalText (unitTree [blockTree])).1 _ hsteps]
  decide +kernel

end Uninit.Tree
