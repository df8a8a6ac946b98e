import Mathlib.Data.List.Nodup
import Mathlib.Data.List.Perm.Basic
import Uninit.Tree

/-!
# Children and their places

A slot is a child of a node seen with its siblings on both sides, so that it can be asked of a
child whether it is the first or the last of some sort. Picking one child of a list and running
through the slots of the list come to the same, which the theorems of this module say for the
first child, the last child and for two children at once.

## Main definitions

* `Tree.Slot`, `Tree.slots`: a child among its siblings, and all of them
* `Slot.isFirst`, `Slot.isLast`: the child is the first or the last of a sort
-/
namespace Uninit.Tree

/-- What holds of a node as soon as it holds of its children holds of every tree. -/
theorem induct {P : Tree → Prop} (node : ∀ l cs, (∀ c ∈ cs, P c) → P (node l cs)) (t : Tree) :
    P t := by
  refine Tree.rec (motive_1 := P) (motive_2 := fun cs => ∀ c ∈ cs, P c) node ?_ ?_ t
  · simp
  · intro c rest hc hrest d hd
    rcases List.mem_cons.mp hd with rfl | hd
    · exact hc
    · exact hrest d hd

def plays (f : Field) (t : Tree) : Bool :=
  t.field == some f

theorem plays_iff {f : Field} {t : Tree} : t.plays f = true ↔ t.field = some f := by
  simp [plays]

theorem playing?_eq_find? (f : Field) (cs : List Tree) : playing? f cs = cs.find? (plays f) := rfl

/-- A child of a node, with the children before it and behind it. -/
structure Slot where
  before : List Tree
  child : Tree
  after : List Tree

namespace Slot

variable (p : Slot)

/-- The child is the first of a sort. -/
def isFirst (q : Tree → Bool) : Bool :=
  q p.child && p.before.all fun t => !q t

/-- The child is the last of a sort. -/
def isLast (q : Tree → Bool) : Bool :=
  q p.child && p.after.all fun t => !q t

/-- The child is named, and is not the first to play one of the parts in `skip`. -/
def isListed (skip : List Field) : Bool :=
  p.child.isNamed && skip.all fun f => !p.isFirst (plays f)

/-- No child plays two parts. -/
theorem isFirst_plays_eq_false {p : Slot} {f g : Field} (hfg : f ≠ g)
    (hf : p.isFirst (plays f) = true) : p.isFirst (plays g) = false := by
  simp only [isFirst, Bool.and_eq_true, plays_iff] at hf
  simp [isFirst, plays, hf.1, hfg]

end Slot

/-- The slots of some children that stand behind `before`. -/
def slotsFrom (before : List Tree) : List Tree → List Slot
  | [] => []
  | c :: after => ⟨before, c, after⟩ :: slotsFrom (before ++ [c]) after

def slots (cs : List Tree) : List Slot :=
  slotsFrom [] cs

theorem mem_slotsFrom {before cs : List Tree} {p : Slot} :
    p ∈ slotsFrom before cs ↔
      ∃ between, p.before = before ++ between ∧ cs = between ++ p.child :: p.after := by
  induction cs generalizing before with
  | nil => simp [slotsFrom]
  | cons c after ih =>
    rw [slotsFrom, List.mem_cons, ih]
    constructor
    · rintro (rfl | ⟨between, hbefore, rfl⟩)
      · exact ⟨[], by simp, rfl⟩
      · exact ⟨c :: between, by simpa using hbefore, rfl⟩
    · rintro ⟨_ | ⟨d, between⟩, hbefore, hcs⟩
      · left
        obtain ⟨before', child, after'⟩ := p
        simp only [List.nil_append, List.cons.injEq, List.append_nil] at hcs hbefore
        rw [hbefore, hcs.1, hcs.2]
      · right
        simp only [List.cons_append, List.cons.injEq] at hcs
        exact ⟨between, by simpa [hcs.1] using hbefore, hcs.2⟩

theorem mem_slots {cs : List Tree} {p : Slot} :
    p ∈ slots cs ↔ cs = p.before ++ p.child :: p.after := by
  rw [slots, mem_slotsFrom]
  constructor
  · rintro ⟨between, hbefore, rfl⟩
    simp [hbefore]
  · rintro rfl
    exact ⟨p.before, by simp, rfl⟩

theorem child_mem_of_mem_slots {cs : List Tree} {p : Slot} (hp : p ∈ slots cs) :
    p.child ∈ cs := by
  rw [mem_slots.mp hp]
  simp

theorem map_child_slotsFrom (before cs : List Tree) :
    (slotsFrom before cs).map Slot.child = cs := by
  induction cs generalizing before with
  | nil => rfl
  | cons c after ih => rw [slotsFrom, List.map_cons, ih]

/-- The slots of a list stand in the order of their children. -/
theorem pairwise_slotsFrom (before cs : List Tree) :
    (slotsFrom before cs).Pairwise fun p q => p.before.length < q.before.length := by
  induction cs generalizing before with
  | nil => exact .nil
  | cons c after ih =>
    rw [slotsFrom, List.pairwise_cons]
    refine ⟨fun q hq => ?_, ih _⟩
    obtain ⟨between, hbefore, -⟩ := mem_slotsFrom.mp hq
    simp [hbefore]

section Picking

variable {α : Type}

/-! ## One child -/

theorem flatMap_slotsFrom_isFirst (q : Tree → Bool) (f : Tree → List α) (before cs : List Tree) :
    ((slotsFrom before cs).flatMap fun p => if p.isFirst q then f p.child else []) =
      if before.any q then [] else (cs.find? q).elim [] f := by
  induction cs generalizing before with
  | nil => simp [slotsFrom]
  | cons c after ih =>
    rw [slotsFrom, List.flatMap_cons, ih, Slot.isFirst]
    by_cases hb : before.any q
    · have hb' : before.all (fun t => !q t) = false := by simpa using hb
      simp [hb, hb']
    · have hb' : before.all (fun t => !q t) = true := by simpa using hb
      cases hc : q c <;> simp [hb, hb', hc]

/-- Running through all slots for the first child of a sort finds the first child of the sort. -/
theorem flatMap_slots_isFirst (q : Tree → Bool) (f : Tree → List α) (cs : List Tree) :
    ((slots cs).flatMap fun p => if p.isFirst q then f p.child else []) =
      (cs.find? q).elim [] f := by
  simpa [slots] using flatMap_slotsFrom_isFirst q f [] cs

theorem flatMap_slotsFrom_isLast (q : Tree → Bool) (f : Tree → List α) (before cs : List Tree) :
    ((slotsFrom before cs).flatMap fun p => if p.isLast q then f p.child else []) =
      (cs.reverse.find? q).elim [] f := by
  induction cs generalizing before with
  | nil => simp [slotsFrom]
  | cons c after ih =>
    rw [slotsFrom, List.flatMap_cons, ih, Slot.isLast, List.reverse_cons, List.find?_append]
    cases hlast : after.reverse.find? q with
    | none =>
      have hnone : after.all (fun t => !q t) = true := by simpa using hlast
      cases hc : q c <;> simp [hnone, hc]
    | some d =>
      have hsome : after.all (fun t => !q t) = false := by
        have hd := List.find?_some hlast
        have hmem := List.mem_of_find?_eq_some hlast
        rw [List.all_eq_false]
        exact ⟨d, List.mem_reverse.mp hmem, by simp [hd]⟩
      simp [hsome]

/-- Running through all slots for the last child of a sort finds the last child of the sort. -/
theorem flatMap_slots_isLast (q : Tree → Bool) (f : Tree → List α) (cs : List Tree) :
    ((slots cs).flatMap fun p => if p.isLast q then f p.child else []) =
      (cs.reverse.find? q).elim [] f :=
  flatMap_slotsFrom_isLast q f [] cs

/-! ## Two children -/

/-- Two lists hold the same, and in the same order if `o`. -/
def SameIf (o : Prop) (xs ys : List α) : Prop :=
  xs.Perm ys ∧ (o → xs = ys)

namespace SameIf

variable {o o' : Prop} {xs ys xs' ys' : List α}

theorem of_eq (h : xs = ys) : SameIf o xs ys :=
  ⟨h ▸ .refl xs, fun _ => h⟩

theorem mono (h : SameIf o xs ys) (ho : o' → o) : SameIf o' xs ys :=
  ⟨h.1, fun h' => h.2 (ho h')⟩

theorem trans (h : SameIf o xs ys) (h' : SameIf o ys ys') : SameIf o xs ys' :=
  ⟨h.1.trans h'.1, fun ho => (h.2 ho).trans (h'.2 ho)⟩

theorem append_left (h : SameIf o xs ys) (zs : List α) : SameIf o (zs ++ xs) (zs ++ ys) :=
  ⟨h.1.append_left zs, fun ho => by rw [h.2 ho]⟩

theorem flatMap {β : Type} {ps : List β} {f g : β → List α} (h : ∀ p ∈ ps, SameIf o (f p) (g p)) :
    SameIf o (ps.flatMap f) (ps.flatMap g) :=
  ⟨.flatMap_left ps fun p hp => (h p hp).1, fun ho => List.flatMap_congr fun p hp => (h p hp).2 ho⟩

end SameIf

/-- Two runs through a list can be made one, if nothing of the second run stands before something
of the first. -/
theorem flatMap_append_of_pairwise {β : Type} {f g : β → List α} {ps : List β}
    (h : ps.Pairwise fun p q => g p = [] ∨ f q = []) :
    ps.flatMap f ++ ps.flatMap g = ps.flatMap fun p => f p ++ g p := by
  induction ps with
  | nil => rfl
  | cons p rest ih =>
    obtain ⟨hp, hrest⟩ := List.pairwise_cons.mp h
    rw [List.flatMap_cons, List.flatMap_cons, List.flatMap_cons, ← ih hrest]
    by_cases hg : g p = []
    · simp [hg]
    · have hf : rest.flatMap f = [] :=
        List.flatMap_eq_nil_iff.mpr fun q hq => (hp q hq).resolve_left hg
      simp [hf]

/-- No child that plays `g` stands before one that plays `f`. -/
def precedes (f g : Field) (cs : List Tree) : Bool :=
  decide (cs.Pairwise fun a b => a.plays g → b.plays f = false)

/-- Running through all slots for two parts at once finds the two children that play them, in the
order in which the parts stand. -/
theorem sameIf_flatMap_slots_two {f g : Field} (hfg : f ≠ g) (a b : Tree → List α)
    (cs : List Tree) :
    SameIf (precedes f g cs) ((playing? f cs).elim [] a ++ (playing? g cs).elim [] b)
      ((slots cs).flatMap fun p => if p.isFirst (plays f) then a p.child
        else if p.isFirst (plays g) then b p.child else []) := by
  let first (p : Slot) : List α := if p.isFirst (plays f) then a p.child else []
  let second (p : Slot) : List α := if p.isFirst (plays g) then b p.child else []
  have hboth : ∀ p : Slot, (if p.isFirst (plays f) then a p.child
      else if p.isFirst (plays g) then b p.child else []) = first p ++ second p := by
    intro p
    by_cases hf : p.isFirst (plays f)
    · simp [first, second, hf, Slot.isFirst_plays_eq_false hfg hf]
    · simp [first, second, hf]
  rw [List.flatMap_congr fun p _ => hboth p, playing?_eq_find?, playing?_eq_find?,
    ← flatMap_slots_isFirst, ← flatMap_slots_isFirst]
  refine ⟨List.flatMap_append_perm _ first second, fun h => flatMap_append_of_pairwise ?_⟩
  have hslots : (slots cs).Pairwise fun p q => p.child.plays g → q.child.plays f = false := by
    rw [← List.pairwise_map (f := Slot.child) (R := fun a b => a.plays g → b.plays f = false),
      slots, map_child_slotsFrom]
    simpa [precedes] using h
  refine hslots.imp fun {p q} hpq => ?_
  by_cases hg : p.child.plays g
  · right
    simp [Slot.isFirst, hpq hg]
  · left
    simp [Slot.isFirst, hg]

end Picking

end Uninit.Tree
