import Uninit.Proofs.Slots

/-!
# Which nodes of a tree are reached

From the root of a tree some nodes are reached, each in a role: as one of a list of items, as a
statement, as the alternative of an `if`, as a body whose children are items, or as the first
section of a loop. A node hands roles to its children by its own kind and role alone, so what is
reached can be said without lowering anything.

The reached nodes are said twice: as a relation, and as a list in the order of the document.

## Main definitions

* `Tree.Role`, `Slot.role?`: the roles, and the role that a node hands to one of its children
* `Tree.Site`, `Tree.Reaches`: a node that is reached, and that it is
* `Tree.sites`: all sites, in the order of the document

## Main statements

* `mem_sitesAs_iff`: the list holds what is reached and nothing else
* `pairwise_sitesAs`: the paths of the listed sites rise
-/
namespace Uninit.Tree

/-- How a node takes part in the unit of its tree. -/
inductive Role where
  /-- It is one of a list of items. -/
  | item
  | statement
  /-- It is the other branch of an `if`. -/
  | alternative
  /-- Its children are a list of items. -/
  | body
  /-- It is the first section of a loop. -/
  | initializer
deriving Repr, DecidableEq

namespace Slot

variable (p : Slot)

/-- The role of a child of a statement. Every part is played by the first child that has it. -/
def roleInStatement : Kind → Option Role
  | .functionDefinition => if p.isFirst (plays .body) then some .body else none
  | .compoundStatement => if p.isListed [] then some .item else none
  | .ifStatement =>
    if p.isFirst (plays .consequence) then some .statement
    else if p.isFirst (plays .alternative) then some .alternative else none
  | .forStatement =>
    if p.isFirst (plays .initializer) then some .initializer
    else if p.isFirst (plays .body) then some .statement else none
  | .whileStatement | .doStatement | .switchStatement =>
    if p.isFirst (plays .body) then some .statement else none
  | .caseStatement => if p.isListed [.value] then some .item else none
  | .labeledStatement => if p.isListed [.label] then some .item else none
  | .attributedStatement => if p.isLast isNamed then some .statement else none
  | _ => none

/-- The role of a child of an item. -/
def roleInItem : Kind → Option Role
  | .conditionalBlock | .definedBlock | .conditionalBranch | .definedBranch | .lastBranch =>
    if p.isListed [.condition, .name] then some .item else none
  | k => p.roleInStatement k

/-- The role of a child of a node of kind `k` that itself has role `r`. -/
def role? (r : Role) (k : Kind) : Option Role :=
  match r with
  | .item => p.roleInItem k
  | .statement => p.roleInStatement k
  | .alternative =>
    if k = .elseClause then if p.isFirst isNamed then some .statement else none
    else p.roleInStatement k
  | .body => if p.isListed [] then some .item else none
  | .initializer => none

end Slot

/-- A node in a role, with its path: the numbers of the children that lead to it. -/
structure Site where
  path : List ℕ
  role : Role
  tree : Tree

/-- A site of the child number `i`, as a site of the parent. -/
def Site.under (i : ℕ) (site : Site) : Site :=
  { site with path := i :: site.path }

/-- A site is reached from a node in a role. -/
inductive Reaches : Role → Tree → Site → Prop
  | here (r : Role) (t : Tree) : Reaches r t ⟨[], r, t⟩
  | child {r r' : Role} {l : Label} {cs : List Tree} {p : Slot} {site : Site}
      (hp : p ∈ slots cs) (hr : p.role? r l.kind = some r') (h : Reaches r' p.child site) :
      Reaches r (node l cs) (site.under p.before.length)

mutual

/-- The sites that are reached from a node in a role, in the order of the document. -/
def sitesAs (r : Role) : Tree → List Site
  | node l cs => ⟨[], r, node l cs⟩ :: sitesAmong r l.kind [] cs

/-- The sites that are reached from the children of a node, of which `before` are done. -/
def sitesAmong (r : Role) (k : Kind) (before : List Tree) : List Tree → List Site
  | [] => []
  | c :: after =>
    (match (Slot.mk before c after).role? r k with
      | some r' => (sitesAs r' c).map (Site.under before.length)
      | none => []) ++ sitesAmong r k (before ++ [c]) after

end

def sites (t : Tree) : List Site :=
  sitesAs .body t

/-- The sites that are reached through one slot of a node. -/
def sitesThrough (r : Role) (k : Kind) (p : Slot) : List Site :=
  (p.role? r k).elim [] fun r' => (sitesAs r' p.child).map (Site.under p.before.length)

theorem sitesAmong_eq_flatMap (r : Role) (k : Kind) (before cs : List Tree) :
    sitesAmong r k before cs = (slotsFrom before cs).flatMap (sitesThrough r k) := by
  induction cs generalizing before with
  | nil => rfl
  | cons c after ih =>
    rw [sitesAmong, ih, slotsFrom, List.flatMap_cons, sitesThrough]
    cases (Slot.mk before c after).role? r k <;> rfl

/-- A node is a site itself, before the sites that are reached through its slots. -/
theorem sitesAs_node (r : Role) (l : Label) (cs : List Tree) :
    sitesAs r (node l cs) =
      ⟨[], r, node l cs⟩ :: (slots cs).flatMap (sitesThrough r l.kind) := by
  rw [sitesAs, sitesAmong_eq_flatMap, slots]

theorem mem_sitesThrough {r : Role} {k : Kind} {p : Slot} {site : Site} :
    site ∈ sitesThrough r k p ↔
      ∃ r', p.role? r k = some r' ∧
        ∃ below ∈ sitesAs r' p.child, below.under p.before.length = site := by
  rw [sitesThrough]
  cases p.role? r k with
  | none => simp
  | some r' => simp

/-- **The sites of a tree are the nodes that are reached, in their roles.** -/
theorem mem_sitesAs_iff {r : Role} {t : Tree} {site : Site} :
    site ∈ sitesAs r t ↔ Reaches r t site := by
  constructor
  · induction t using induct generalizing r site with
    | node l cs ih =>
      rw [sitesAs_node, List.mem_cons, List.mem_flatMap]
      rintro (rfl | ⟨p, hp, hsite⟩)
      · exact .here r _
      · obtain ⟨r', hr, below, hbelow, rfl⟩ := mem_sitesThrough.mp hsite
        exact .child hp hr (ih p.child (child_mem_of_mem_slots hp) hbelow)
  · intro h
    induction h with
    | here r t => cases t with | node l cs => simp [sitesAs]
    | child hp hr _ ih =>
      rw [sitesAs_node, List.mem_cons, List.mem_flatMap]
      exact .inr ⟨_, hp, mem_sitesThrough.mpr ⟨_, hr, _, ih, rfl⟩⟩

/-- The path to a site below a node goes through the slot that leads there. -/
theorem path_of_mem_sitesThrough {r : Role} {k : Kind} {p : Slot} {site : Site}
    (h : site ∈ sitesThrough r k p) : ∃ rest, site.path = p.before.length :: rest := by
  obtain ⟨_, _, below, _, rfl⟩ := mem_sitesThrough.mp h
  exact ⟨below.path, rfl⟩

/-- **The sites of a tree are listed in the order of the document**, each once: their paths rise
lexicographically. -/
theorem pairwise_sitesAs (r : Role) (t : Tree) :
    (sitesAs r t).Pairwise fun a b => a.path < b.path := by
  induction t using induct generalizing r with
  | node l cs ih =>
    rw [sitesAs_node, List.pairwise_cons, List.pairwise_flatMap]
    refine ⟨fun b hb => ?_, fun p hp => ?_, (pairwise_slotsFrom [] cs).imp ?_⟩
    · obtain ⟨p, -, hsite⟩ := List.mem_flatMap.mp hb
      obtain ⟨rest, hrest⟩ := path_of_mem_sitesThrough hsite
      simp [hrest]
    · rw [sitesThrough]
      cases p.role? r l.kind with
      | none => exact .nil
      | some r' =>
        refine List.pairwise_map.mpr ((ih p.child (child_mem_of_mem_slots hp) r').imp ?_)
        intro a b hab
        simpa [Site.under] using hab
    · intro p q hpq a ha b hb
      obtain ⟨_, ha⟩ := path_of_mem_sitesThrough ha
      obtain ⟨_, hb⟩ := path_of_mem_sitesThrough hb
      rw [ha, hb]
      exact List.cons_lt_cons_iff.mpr (.inl hpq)

end Uninit.Tree
