import Uninit.Proofs.Lines
import Uninit.Proofs.Overlooked
import Uninit.Proofs.Reports

/-!
# Declarations in the order of the source

A walk meets the items of a unit in the order in which the lowering lists them. Where the children
of every node stand one behind the other inside the node, this is the order of the source: each
declaration is set beside the node at whose start it stands, and these starts rise strictly. So no
declaration is met twice, and the lines of the findings never fall.

## Main definitions

* `Text.feedsBefore`: the line feeds of a text before a byte
* `Tree.IsSpanned`: the children of a node stand one behind the other inside it
* `Tree.IsPlacedIn`: a tree stands in a text
* `Tree.Placed`, `Tree.placed`: the declarations of a tree with the nodes where they start

## Main statements

* `Tree.risesWithin_placedAs`: the starts of what a node gives rise inside the node
* `Tree.findings_unit_inOrder`: declarations and findings come in the order of the source
-/
namespace Uninit

namespace Text

/-! ## Line feeds before a byte -/

/-- How many line feeds of a text start before its byte `n`. -/
def feedsBefore : List Char → ℕ → ℕ
  | [], _ => 0
  | c :: rest, n =>
    if n = 0 then 0 else (if c = '\n' then 1 else 0) + feedsBefore rest (n - c.utf8Size)

@[simp] theorem feedsBefore_zero (cs : List Char) : feedsBefore cs 0 = 0 := by
  cases cs <;> simp [feedsBefore]

theorem feedsBefore_mono (cs : List Char) {m n : ℕ} (h : m ≤ n) :
    feedsBefore cs m ≤ feedsBefore cs n := by
  induction cs generalizing m n with
  | nil => simp [feedsBefore]
  | cons c rest ih =>
    by_cases hm : m = 0
    · simp [hm]
    · have hn : n ≠ 0 := by omega
      have hrest := ih (m := m - c.utf8Size) (n := n - c.utf8Size) (by omega)
      simp only [feedsBefore, if_neg hm, if_neg hn]
      omega

/-- **A byte of a text stands on one of its lines**, the one behind the line feeds before it. -/
theorem feedsBefore_lt_length_lines {cs : List Char} {n : ℕ}
    (h : n < (String.ofList cs).utf8ByteSize) : feedsBefore cs n < (lines cs).length := by
  induction cs generalizing n with
  | nil => simp at h
  | cons c rest ih =>
    have hlines : 0 < (lines (c :: rest)).length :=
      List.length_pos_iff.mpr (lines_cons_ne_nil c rest)
    rw [String.ofList_cons, String.utf8ByteSize_append, String.utf8ByteSize_singleton] at h
    by_cases hn : n = 0
    · simpa [hn] using hlines
    · simp only [feedsBefore, if_neg hn]
      by_cases hc : c = '\n'
      · -- a line feed is one byte, so the rest of the text is not empty
        have hsize : c.utf8Size = 1 := by
          rw [hc]
          decide
        have hrest := ih (n := n - c.utf8Size) (by omega)
        rw [if_pos hc, hc, lines_cons_feed, List.length_cons]
        rw [hc] at hrest
        omega
      · rw [if_neg hc, Nat.zero_add]
        by_cases hrest : n < c.utf8Size
        · rw [Nat.sub_eq_zero_of_le (Nat.le_of_lt hrest), feedsBefore_zero]
          exact hlines
        · exact Nat.lt_of_lt_of_le (ih (by omega)) (length_lines_le_cons c rest)

end Text

namespace Tree

/-! ## Where nodes stand -/

/-- The children of a node stand inside it, none of them is empty, and each ends before the next
one starts. -/
def IsSpanned (t : Tree) : Prop :=
  (∀ c ∈ t.children, t.start.byte ≤ c.start.byte ∧ c.start.byte < c.stop.byte ∧
    c.stop.byte ≤ t.stop.byte) ∧
  t.children.Pairwise fun a b => a.stop.byte ≤ b.start.byte

instance (t : Tree) : Decidable t.IsSpanned :=
  inferInstanceAs (Decidable (_ ∧ _))

/-- A tree stands in a text: its nodes are spanned, the row of each counts the line feeds before
it, and the root ends before the text does. -/
structure IsPlacedIn (source : String) (t : Tree) : Prop where
  spanned : ∀ n ∈ t.nodes, n.IsSpanned
  rows : ∀ n ∈ t.nodes, n.start.row = Text.feedsBefore source.toList n.start.byte
  within : t.stop.byte ≤ source.utf8ByteSize

theorem self_mem_nodes (t : Tree) : t ∈ t.nodes := by
  obtain ⟨l, cs⟩ := t
  simp [nodes_node]

theorem nodes_trans {m n t : Tree} (hm : m ∈ n.nodes) (hn : n ∈ t.nodes) : m ∈ t.nodes := by
  induction t using induct with
  | node l cs ih =>
    rw [nodes_node, List.mem_cons, List.mem_flatMap] at hn
    rcases hn with rfl | ⟨d, hd, hn⟩
    · exact hm
    · rw [nodes_node, List.mem_cons, List.mem_flatMap]
      exact .inr ⟨d, hd, ih d hd hn⟩

theorem mem_nodes_of_mem_children {n c t : Tree} (hn : n ∈ t.nodes) (hc : c ∈ n.children) :
    c ∈ t.nodes := by
  obtain ⟨l, cs⟩ := n
  refine nodes_trans ?_ hn
  rw [nodes_node, List.mem_cons, List.mem_flatMap]
  exact .inr ⟨c, hc, self_mem_nodes c⟩

/-- What holds of all nodes of a tree holds of those of a child. -/
theorem forall_nodes_of_mem_children {P : Tree → Prop} {t : Tree} (h : ∀ n ∈ t.nodes, P n)
    {c : Tree} (hc : c ∈ t.children) : ∀ n ∈ c.nodes, P n :=
  fun _ hn => h _ (nodes_trans hn (mem_nodes_of_mem_children (self_mem_nodes t) hc))

theorem mem_nodes_of_mem_sitesAs {r : Role} {t : Tree} {site : Site} (h : site ∈ sitesAs r t) :
    site.tree ∈ t.nodes := by
  induction t using induct generalizing r site with
  | node l cs ih =>
    rw [sitesAs_node, List.mem_cons, List.mem_flatMap] at h
    rcases h with rfl | ⟨p, hp, hsite⟩
    · exact self_mem_nodes _
    · obtain ⟨r', -, below, hbelow, rfl⟩ := mem_sitesThrough.mp hsite
      have hchild := child_mem_of_mem_slots hp
      have hmem : below.tree ∈ p.child.nodes := ih p.child hchild hbelow
      exact nodes_trans hmem (mem_nodes_of_mem_children (self_mem_nodes (node l cs)) hchild)

/-! ## Starts that rise -/

/-- Some places stand in a span, each behind the one before it. -/
def RisesWithin (start stop : ℕ) (places : List ℕ) : Prop :=
  (∀ n ∈ places, start ≤ n ∧ n < stop) ∧ places.Pairwise (· < ·)

theorem risesWithin_nil (start stop : ℕ) : RisesWithin start stop [] := by
  simp [RisesWithin]

/-- Places that rise within spans rise altogether, if the spans stand one behind the other. -/
theorem RisesWithin.flatMap {α : Type} {start stop : ℕ} (low high : α → ℕ) {f : α → List ℕ}
    {ps : List α} (hwithin : ∀ p ∈ ps, start ≤ low p ∧ high p ≤ stop)
    (hdisjoint : ps.Pairwise fun p q => high p ≤ low q)
    (h : ∀ p ∈ ps, RisesWithin (low p) (high p) (f p)) :
    RisesWithin start stop (ps.flatMap f) := by
  constructor
  · intro n hn
    obtain ⟨p, hp, hmem⟩ := List.mem_flatMap.mp hn
    have hspan := hwithin p hp
    have hplace := (h p hp).1 n hmem
    omega
  · rw [List.pairwise_flatMap]
    refine ⟨fun p hp => (h p hp).2, hdisjoint.imp_of_mem ?_⟩
    intro p q hp hq hpq m hm n hn
    have hm' := (h p hp).1 m hm
    have hn' := (h q hq).1 n hn
    omega

/-! ## Declarations with their nodes -/

/-- A declaration with the node at whose start it stands. -/
structure Placed where
  tree : Tree
  decl : Decl

namespace Placed

def start (p : Placed) : ℕ :=
  p.tree.start.byte

end Placed

variable (source : String)

/-- The declaration of a declarator, which starts where the declarator proper does. -/
def placedDeclarator? (specifierTokens : List Token) (d : Tree) : Option Placed :=
  d.proper?.bind fun target => (declarator? source specifierTokens d).map (Placed.mk target)

/-- The declarations that a node declares itself in a role: those of its declarators, or that of a
tag specifier, which starts where the specifier does. -/
def ownPlaced (r : Role) (t : Tree) : List Placed :=
  if r = .body then []
  else if t.kind = .declaration then
    (declarators t.children).filterMap
      (placedDeclarator? source (tokensOf source (some t.kind) (specifiers t.children)))
  else if r = .item ∧ t.kind.isTag then [⟨t, tagDeclaration source t⟩]
  else []

/-- The declarations of the sites that are reached from a node in a role. -/
def placedAs (r : Role) (t : Tree) : List Placed :=
  (sitesAs r t).flatMap fun site => ownPlaced source site.role site.tree

/-- The declarations of a tree with the nodes where they start. -/
def placed (t : Tree) : List Placed :=
  placedAs source .body t

theorem map_decl_placedDeclarator? (specifierTokens : List Token) (d : Tree) :
    (placedDeclarator? source specifierTokens d).map Placed.decl =
      declarator? source specifierTokens d := by
  rw [placedDeclarator?, declarator?_eq_map_proper?]
  cases d.proper? <;> rfl

theorem map_decl_ownPlaced (r : Role) (t : Tree) :
    (ownPlaced source r t).map Placed.decl = ownDecls source r t := by
  rw [ownPlaced, ownDecls]
  split_ifs
  · rfl
  · rw [List.map_filterMap, declarations]
    simp only [map_decl_placedDeclarator?]
  · rfl
  · rfl

theorem map_decl_placedAs (r : Role) (t : Tree) :
    (placedAs source r t).map Placed.decl = (sitesAs r t).flatMap (Site.decls source) := by
  rw [placedAs, List.map_flatMap]
  exact List.flatMap_congr fun site _ => map_decl_ownPlaced source site.role site.tree

theorem placedAs_node (r : Role) (l : Label) (cs : List Tree) :
    placedAs source r (node l cs) = ownPlaced source r (node l cs) ++
      (slots cs).flatMap fun p =>
        (p.role? r l.kind).elim [] fun r' => placedAs source r' p.child := by
  rw [placedAs, sitesAs_node, List.flatMap_cons, List.flatMap_assoc]
  congr 1
  exact List.flatMap_congr fun p _ => flatMap_sitesThrough (ownPlaced source) r l.kind p

/-- A node that declares something itself hands no role to its children. -/
theorem ownPlaced_eq_nil_or (r : Role) (l : Label) (cs : List Tree) :
    ownPlaced source r (node l cs) = [] ∨ ∀ p : Slot, p.role? r l.kind = none := by
  have hdeclaration : l.kind = .declaration → r ≠ .body → ∀ p : Slot, p.role? r l.kind = none := by
    intro hk hr p
    cases r <;> simp_all [Slot.role?, Slot.roleInItem, Slot.roleInStatement]
  have htag : r = .item ∧ l.kind.isTag = true → ∀ p : Slot, p.role? r l.kind = none := by
    rintro ⟨rfl, hk⟩ p
    cases hkind : l.kind <;>
      simp_all [Kind.isTag, Slot.role?, Slot.roleInItem, Slot.roleInStatement]
  rw [ownPlaced]
  split_ifs with hr hk htag'
  · exact .inl rfl
  · exact .inr (hdeclaration hk hr)
  · exact .inr (htag htag')
  · exact .inl rfl

/-- The declarator proper stands inside its declarator. -/
theorem within_of_proper? {d target : Tree} (h : d.IsSpanned) (hd : d.start.byte < d.stop.byte)
    (htarget : d.proper? = some target) :
    d.start.byte ≤ target.start.byte ∧ target.start.byte < d.stop.byte := by
  rw [proper?] at htarget
  split at htarget
  · have hspan := h.1 target (List.mem_of_find?_eq_some htarget)
    omega
  · obtain rfl := Option.some.inj htarget
    omega

theorem risesWithin_ownPlaced {t : Tree} (h : ∀ n ∈ t.nodes, n.IsSpanned) {r : Role}
    (hne : r ≠ .body → t.start.byte < t.stop.byte) :
    RisesWithin t.start.byte t.stop.byte ((ownPlaced source r t).map Placed.start) := by
  have ht := h t (self_mem_nodes t)
  rw [ownPlaced]
  split_ifs with hr
  · exact risesWithin_nil _ _
  · rw [List.map_filterMap, List.filterMap_eq_flatMap_toList]
    have hmem : ∀ d ∈ declarators t.children, d ∈ t.children :=
      fun d hd => List.mem_of_mem_filter hd
    refine RisesWithin.flatMap (fun d => d.start.byte) (fun d => d.stop.byte)
      (fun d hd => ?_) (ht.2.filter _) fun d hd => ?_
    · have hspan := ht.1 d (hmem d hd)
      omega
    · have hspan := ht.1 d (hmem d hd)
      have hd' := h d (mem_nodes_of_mem_children (self_mem_nodes t) (hmem d hd))
      rw [placedDeclarator?]
      cases htarget : d.proper? with
      | none => exact risesWithin_nil _ _
      | some target =>
        have hwithin := within_of_proper? hd' hspan.2.1 htarget
        cases declarator? source (tokensOf source (some t.kind) (specifiers t.children)) d with
        | none => exact risesWithin_nil _ _
        | some decl => simpa [RisesWithin, Placed.start] using hwithin
  · simpa [RisesWithin, Placed.start] using hne hr
  · exact risesWithin_nil _ _

/-- **The starts of what a node gives rise inside the node**, whatever its role. -/
theorem risesWithin_placedAs {t : Tree} (h : ∀ n ∈ t.nodes, n.IsSpanned) (r : Role)
    (hne : r ≠ .body → t.start.byte < t.stop.byte) :
    RisesWithin t.start.byte t.stop.byte ((placedAs source r t).map Placed.start) := by
  induction t using induct generalizing r with
  | node l cs ih =>
    have hspan := h _ (self_mem_nodes (node l cs))
    rw [placedAs_node, List.map_append, List.map_flatMap]
    rcases ownPlaced_eq_nil_or source r l cs with hown | hroles
    · rw [hown, List.map_nil, List.nil_append]
      have hdisjoint : (slots cs).Pairwise fun p q => p.child.stop.byte ≤ q.child.start.byte := by
        rw [← List.pairwise_map (f := Slot.child) (R := fun a b => a.stop.byte ≤ b.start.byte),
          slots, map_child_slotsFrom]
        exact hspan.2
      refine RisesWithin.flatMap (fun p => p.child.start.byte) (fun p => p.child.stop.byte)
        (fun p hp => ?_) hdisjoint fun p hp => ?_
      · have hchild := hspan.1 p.child (child_mem_of_mem_slots hp)
        omega
      · have hmem := child_mem_of_mem_slots hp
        have hbelow : ∀ n ∈ p.child.nodes, n.IsSpanned := forall_nodes_of_mem_children h hmem
        cases p.role? r l.kind with
        | none => exact risesWithin_nil _ _
        | some r' => exact ih p.child hmem hbelow r' fun _ => (hspan.1 p.child hmem).2.1
    · have hnil : (slots cs).flatMap (fun _ => ([] : List ℕ)) = [] :=
        List.flatMap_eq_nil_iff.mpr fun _ _ => rfl
      simp only [hroles, Option.elim_none, List.map_nil, hnil, List.append_nil]
      exact risesWithin_ownPlaced source h hne

/-! ## Nodes and lines of declarations -/

/-- A declaration starts at a node of the tree, on the line of that node. -/
theorem mem_nodes_of_mem_ownPlaced {r : Role} {t : Tree} {p : Placed}
    (hp : p ∈ ownPlaced source r t) :
    p.tree ∈ t.nodes ∧ p.decl.line = p.tree.start.row + 1 := by
  rw [ownPlaced] at hp
  split_ifs at hp
  · simp at hp
  · obtain ⟨d, hd, hdecl⟩ := List.mem_filterMap.mp hp
    have hmem : d ∈ t.nodes :=
      mem_nodes_of_mem_children (self_mem_nodes t) (List.mem_of_mem_filter hd)
    rw [placedDeclarator?, declarator?_eq_map_proper?] at hdecl
    cases htarget : d.proper? with
    | none => simp [htarget] at hdecl
    | some target =>
      rw [htarget, Option.bind_some, Option.map_some, Option.map_some, Option.some_inj] at hdecl
      subst hdecl
      refine ⟨?_, rfl⟩
      rw [proper?] at htarget
      split at htarget
      · exact mem_nodes_of_mem_children hmem (List.mem_of_find?_eq_some htarget)
      · exact Option.some.inj htarget ▸ hmem
  · obtain rfl := List.mem_singleton.mp hp
    exact ⟨self_mem_nodes t, rfl⟩
  · simp at hp

theorem mem_nodes_of_mem_placed {t : Tree} {p : Placed} (hp : p ∈ placed source t) :
    p.tree ∈ t.nodes ∧ p.decl.line = p.tree.start.row + 1 := by
  obtain ⟨site, hsite, hown⟩ := List.mem_flatMap.mp hp
  have h := mem_nodes_of_mem_ownPlaced source hown
  exact ⟨nodes_trans h.1 (mem_nodes_of_mem_sitesAs hsite), h.2⟩

/-- **Declarations and findings come in the order of the source.** The declarations of the unit are
met in the order of the nodes where they start, whose starts rise strictly, so that none is met
twice. The findings are those among them that have no initializer. Their lines never fall, and are
lines of the text. -/
theorem findings_unit_inOrder {t : Tree} (hplaced : t.IsPlacedIn source)
    (horder : t.partsInOrder = true) :
    Decl.ofUnit (t.unit source) = (placed source t).map Placed.decl ∧
      (∀ p ∈ placed source t, p.tree ∈ t.nodes ∧ p.decl.line = p.tree.start.row + 1) ∧
      ((placed source t).Pairwise fun p q => p.start < q.start) ∧
      Finding.ofUnit (t.unit source) =
        ((placed source t).filter fun p => !p.decl.isInitialized).map
          (fun p => Finding.ofDecl p.decl) ∧
      ((Finding.ofUnit (t.unit source)).Pairwise fun f g => f.line ≤ g.line) ∧
      ∀ f ∈ Finding.ofUnit (t.unit source),
        1 ≤ f.line ∧ f.line ≤ (Text.lines source.toList).length := by
  have hdecls : Item.declsOf (t.unit source).items = (placed source t).map Placed.decl := by
    rw [(declsOf_unit source t).2 horder, placed, map_decl_placedAs]
    rfl
  obtain ⟨hwithin, hstrict⟩ := risesWithin_placedAs source hplaced.spanned .body (by simp)
  have hrises : (placed source t).Pairwise fun p q => p.start < q.start :=
    List.pairwise_map.mp hstrict
  have hnode : ∀ p ∈ placed source t, p.tree ∈ t.nodes ∧ p.decl.line = p.tree.start.row + 1 :=
    fun p hp => mem_nodes_of_mem_placed source hp
  have hline : ∀ p ∈ placed source t,
      p.decl.line = Text.feedsBefore source.toList p.start + 1 := fun p hp => by
    rw [(hnode p hp).2, hplaced.rows p.tree (hnode p hp).1, Placed.start]
  have hfindings : Finding.ofUnit (t.unit source) =
      ((placed source t).filter fun p => !p.decl.isInitialized).map
        (fun p => Finding.ofDecl p.decl) := by
    rw [Finding.ofUnit_eq_ofDecls, hdecls, Finding.ofDecls, List.filter_map, List.map_map]
    rfl
  refine ⟨by rw [Decl.ofUnit_eq_declsOf, hdecls], hnode, hrises, hfindings, ?_, ?_⟩
  · rw [hfindings, List.pairwise_map]
    refine (hrises.filter _).imp_of_mem fun {p q} hp hq hpq => ?_
    have hmono := Text.feedsBefore_mono source.toList (Nat.le_of_lt hpq)
    change p.decl.line ≤ q.decl.line
    rw [hline p (List.mem_of_mem_filter hp), hline q (List.mem_of_mem_filter hq)]
    omega
  · intro f hf
    rw [hfindings] at hf
    obtain ⟨p, hp, rfl⟩ := List.mem_map.mp hf
    have hmem := List.mem_of_mem_filter hp
    have hinside : p.start < source.utf8ByteSize :=
      Nat.lt_of_lt_of_le (hwithin _ (List.mem_map_of_mem hmem)).2 hplaced.within
    have hlast : Text.feedsBefore source.toList p.start < (Text.lines source.toList).length :=
      Text.feedsBefore_lt_length_lines (by rwa [String.ofList_toList])
    change 1 ≤ p.decl.line ∧ p.decl.line ≤ _
    rw [hline p hmem]
    omega

/-- The tree of `twoLineText`. -/
def twoLineTree : Tree :=
  node ⟨.other "translation_unit", none, .origin, ⟨17, 1, 10⟩, false, false⟩ [
    inLine 0 0 .declaration none 0 6 [
      inLine 0 0 (.other "primitive_type") none 0 3 [],
      inLine 0 0 .identifier (some .declarator) 4 5 [],
      inLine 0 0 (.token ";") none 5 6 []],
    inLine 1 7 .declaration none 7 17 [
      inLine 1 7 (.other "primitive_type") none 7 10 [],
      inLine 1 7 .initDeclarator (some .declarator) 11 14 [
        inLine 1 7 .identifier (some .declarator) 11 12 [],
        inLine 1 7 (.token "=") none 12 13 [],
        inLine 1 7 (.other "number_literal") (some .value) 13 14 []],
      inLine 1 7 (.token ",") none 14 15 [],
      inLine 1 7 .identifier (some .declarator) 15 16 [],
      inLine 1 7 (.token ";") none 16 17 []]]

/-- Two lines with three declarations. -/
def twoLineText : String :=
  "int a;\nint b=0,c;"

theorem findings_unit_inOrder_twoLineTree :
    twoLineTree.IsPlacedIn twoLineText ∧ twoLineTree.partsInOrder = true ∧
      (placed twoLineText twoLineTree).map Placed.start = [4, 11, 15] ∧
      Finding.ofUnit (twoLineTree.unit twoLineText) =
        [⟨1, some "a", "int a"⟩, ⟨2, some "c", "int c"⟩] := by
  have hplaced : twoLineTree.IsPlacedIn twoLineText :=
    ⟨by decide +kernel, by decide +kernel, by decide +kernel⟩
  have horder : twoLineTree.partsInOrder = true := by decide
  refine ⟨hplaced, horder, by decide +kernel, ?_⟩
  rw [(findings_unit_inOrder twoLineText hplaced horder).2.2.2.1]
  decide +kernel

end Tree

end Uninit
