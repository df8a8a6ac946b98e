import Uninit.Proofs.Outlines
import Uninit.Proofs.SourceOrder
import Uninit.Proofs.Splitting

/-!
# How a text is laid out

What is read from a text does not depend on how wide its gaps are or on what they are made of. Only
one thing about places reaches a unit beside its lines: whether two tokens that follow each other in
a declaration stand apart. So the units of two trees that are spelled alike have the same outline as
soon as tokens stand apart alike in the declarations that are reached.

The specifiers of a declaration are told by places as well. In a tree whose nodes stand in order
they are the children before the first declarator, but for some that are empty and have no tokens.

## Main definitions

* `Tree.IsOrdered`: the children of a node stand one behind the other inside it
* `Tree.SpacedAlike`: two trees are spelled alike, and their tokens stand apart alike

## Main statements

* `Tree.tokensOf_specifiers`: the places of nodes in order tell the specifiers from the rest
* `Tree.outline_declarations`: declarations whose tokens stand apart alike declare the same
* `Tree.unit_layout_exact`: the outline of a unit does not depend on the layout of its text
-/
namespace Uninit

/-! ## Gaps -/

namespace Token

theorem tail_apart_cons (a : Token) (ts : List Token) : (apart (a :: ts)).tail = apart ts := by
  cases ts <;> rfl

/-- If the same tokens of two lists stand apart, so they do in two parts of the lists. -/
theorem apart_append_inj {xs xs' ys ys' : List Token} (hlength : xs.length = xs'.length)
    (h : apart (xs ++ ys) = apart (xs' ++ ys')) : apart xs = apart xs' ∧ apart ys = apart ys' := by
  induction xs generalizing xs' with
  | nil =>
    obtain rfl : xs' = [] := List.length_eq_zero_iff.mp hlength.symm
    exact ⟨rfl, h⟩
  | cons a rest ih =>
    obtain ⟨a', rest', rfl⟩ := List.exists_cons_of_length_eq_add_one hlength.symm
    have hrest : rest.length = rest'.length := Nat.succ.inj hlength
    have htail := congrArg List.tail h
    simp only [List.cons_append, tail_apart_cons] at htail
    obtain ⟨hfirst, hsecond⟩ := ih hrest htail
    refine ⟨?_, hsecond⟩
    cases rest with
    | nil =>
      obtain rfl : rest' = [] := List.length_eq_zero_iff.mp hrest.symm
      rfl
    | cons b more =>
      obtain ⟨b', more', rfl⟩ := List.exists_cons_of_length_eq_add_one hrest.symm
      rw [apart, apart, hfirst, (List.cons.inj h).1]

end Token

namespace Tree

/-! ## Nodes in order -/

/-- The children of a node stand inside it, and each ends before the next one starts. A node can be
empty. -/
def IsOrdered (t : Tree) : Prop :=
  t.start.byte ≤ t.stop.byte ∧
  (∀ c ∈ t.children, t.start.byte ≤ c.start.byte ∧ c.stop.byte ≤ t.stop.byte) ∧
  t.children.Pairwise fun a b => a.stop.byte ≤ b.start.byte

instance (t : Tree) : Decidable t.IsOrdered :=
  inferInstanceAs (Decidable (_ ∧ _ ∧ _))

variable (source : String)

theorem slice_of_le {start stop : ℕ} (h : stop ≤ start) : Text.slice source start stop = "" := by
  rw [Text.slice]
  split
  · exact if_pos h
  · rfl

/-- An empty node has no tokens. -/
theorem tokens_of_empty {t : Tree} (h : ∀ n ∈ t.nodes, n.IsOrdered)
    (hempty : t.stop.byte ≤ t.start.byte) (parent : Option Kind) :
    t.tokens source parent = [] := by
  induction t using induct generalizing parent with
  | node l cs ih =>
    by_cases hl : l.kind = .comment
    · exact tokens_of_isComment source (isComment_node.mpr hl) parent
    · by_cases hcs : cs = []
      · subst hcs
        have hslice : Text.slice source l.start.byte l.stop.byte = "" := slice_of_le source hempty
        simp [tokens, hl, leafToken, hslice]
      · obtain ⟨-, hinside, -⟩ := h _ (self_mem_nodes (node l cs))
        rw [tokens_node source hl hcs, tokensOf_eq_flatMap, List.flatMap_eq_nil_iff]
        intro c hc
        have hc' := hinside c hc
        exact ih c hc (forall_nodes_of_mem_children h hc) (by omega) _

/-- Among nodes that end before a place, those that do not start before it have no tokens. -/
theorem tokensOf_takeWhile {cs : List Tree} {place : ℕ}
    (h : ∀ c ∈ cs, ∀ n ∈ c.nodes, n.IsOrdered) (hends : ∀ c ∈ cs, c.stop.byte ≤ place)
    (hrises : cs.Pairwise fun a b => a.stop.byte ≤ b.start.byte) (parent : Option Kind) :
    tokensOf source parent (cs.takeWhile fun c => c.start.byte < place) =
      tokensOf source parent cs := by
  induction cs with
  | nil => rfl
  | cons c rest ih =>
    obtain ⟨hc, hrest⟩ := List.pairwise_cons.mp hrises
    by_cases hstart : c.start.byte < place
    · rw [List.takeWhile_cons_of_pos (by simpa using hstart), tokensOf, tokensOf,
        ih (fun d hd => h d (List.mem_cons_of_mem c hd))
          (fun d hd => hends d (List.mem_cons_of_mem c hd)) hrest]
    · -- this node and all behind it start and end at the place itself
      have hempty : ∀ d ∈ c :: rest, d.tokens source parent = [] := by
        intro d hd
        refine tokens_of_empty source (h d hd) ?_ parent
        have hend := hends d hd
        have hspan := (h c List.mem_cons_self c (self_mem_nodes c)).1
        rcases List.mem_cons.mp hd with rfl | hd
        · omega
        · have hbehind := hc d hd
          omega
      rw [List.takeWhile_cons_of_neg (by simpa using hstart), tokensOf_eq_flatMap source parent
        (c :: rest), List.flatMap_eq_nil_iff.mpr hempty]
      rfl

/-- **Places tell the specifiers from the rest**: the children before the first declarator have no
tokens but those of the specifiers. -/
theorem tokensOf_specifiers {t : Tree} (h : ∀ n ∈ t.nodes, n.IsOrdered)
    (hdeclarators : declarators t.children ≠ []) (parent : Option Kind) :
    tokensOf source parent (specifiers t.children) = tokensOf source parent t.heading := by
  obtain ⟨first, rest, hchildren, hfirst⟩ := exists_children_eq hdeclarators
  obtain ⟨-, -, hrises⟩ := h t (self_mem_nodes t)
  rw [hchildren, List.pairwise_append] at hrises
  have hordered : ∀ c ∈ t.heading, ∀ n ∈ c.nodes, n.IsOrdered := fun c hc =>
    forall_nodes_of_mem_children h (by simp [hchildren, hc])
  rw [hchildren, specifiers_append_cons (declarators_heading t) hfirst]
  exact tokensOf_takeWhile source hordered
    (fun c hc => hrises.2.2 c hc first List.mem_cons_self) hrises.1 parent

/-! ## Tokens that stand apart alike -/

/-- Two trees, each over its own text, are spelled alike, and their tokens stand apart alike. -/
structure SpacedAlike (source source' : String) (parent : Option Kind) (t u : Tree) : Prop where
  alike : Alike source source' t u
  apart : Token.apart (t.tokens source parent) = Token.apart (u.tokens source' parent)

variable {source} {source' : String}

theorem apart_tokens (p q : Option Kind) (t : Tree) :
    Token.apart (t.tokens source p) = Token.apart (t.tokens source q) := by
  obtain ⟨l, cs⟩ := t
  by_cases hl : l.kind = .comment
  · have hcomment : (node l cs).isComment = true := isComment_node.mpr hl
    rw [tokens_of_isComment source hcomment, tokens_of_isComment source hcomment]
  · by_cases hcs : cs = []
    · -- a node without children has at most one token
      subst hcs
      simp only [tokens, hl, if_false, leafToken]
      split <;> rfl
    · rw [tokens_node source hl hcs, tokens_node source hl hcs]

/-- Where tokens stand apart does not depend on what their node stands in. -/
theorem SpacedAlike.under {p : Option Kind} {t u : Tree} (h : SpacedAlike source source' p t u)
    (q : Option Kind) : SpacedAlike source source' q t u :=
  ⟨h.alike, by rw [apart_tokens q p, h.apart, apart_tokens p q]⟩

theorem spacedAlike_of_tokensOf {parent : Option Kind} {cs ds : List Tree}
    (h : List.Forall₂ (Alike source source') cs ds)
    (hapart : Token.apart (tokensOf source parent cs) =
      Token.apart (tokensOf source' parent ds)) :
    List.Forall₂ (SpacedAlike source source' parent) cs ds := by
  induction h with
  | nil => exact .nil
  | @cons c d cs ds hcd hrest ih =>
    rw [tokensOf, tokensOf] at hapart
    obtain ⟨hfirst, hrest'⟩ :=
      Token.apart_append_inj (tokens_alike hcd parent).length_eq hapart
    exact .cons ⟨hcd, hfirst⟩ (ih hrest')

/-- Tokens that stand apart alike in a node do so in the row of its children. -/
theorem SpacedAlike.apart_children {p : Option Kind} {t u : Tree}
    (h : SpacedAlike source source' p t u) (hkind : t.kind ≠ .comment) :
    Token.apart (tokensOf source (some t.kind) t.children) =
      Token.apart (tokensOf source' (some t.kind) u.children) := by
  obtain ⟨halike, hapart⟩ := h
  obtain @⟨l, m, cs, ds, hk, -, -, hchildren⟩ := halike
  have hl : l.kind ≠ .comment := hkind
  by_cases hcs : cs = []
  · subst hcs
    obtain rfl := List.forall₂_nil_left_iff.mp hchildren
    rfl
  · have hds : ds ≠ [] := by
      rintro rfl
      exact hcs (List.forall₂_nil_right_iff.mp hchildren)
    rwa [tokens_node source hl hcs, tokens_node source' (hk ▸ hl) hds, ← hk] at hapart

/-- **Tokens that stand apart alike in a node do so in each of its children.** -/
theorem SpacedAlike.children {p : Option Kind} {t u : Tree}
    (h : SpacedAlike source source' p t u) (hkind : t.kind ≠ .comment) :
    List.Forall₂ (SpacedAlike source source' (some t.kind)) t.children u.children :=
  spacedAlike_of_tokensOf h.alike.children (h.apart_children hkind)

/-! ## Declarations -/

theorem takeWhile_alike {cs ds : List Tree} (h : List.Forall₂ (Alike source source') cs ds)
    {q : Tree → Bool} (hq : ∀ c d, Alike source source' c d → q c = q d) :
    List.Forall₂ (Alike source source') (cs.takeWhile q) (ds.takeWhile q) := by
  induction h with
  | nil => exact .nil
  | @cons c d cs ds hcd _ ih =>
    rw [List.takeWhile_cons, List.takeWhile_cons, hq c d hcd]
    cases q d with
    | true => exact .cons hcd ih
    | false => exact .nil

/-- The specifiers of a declaration have the same tokens, which stand apart alike. -/
theorem SpacedAlike.heading {p : Option Kind} {t u : Tree} (h : SpacedAlike source source' p t u)
    (hkind : t.kind ≠ .comment) :
    Spacing.SegmentAlike (tokensOf source (some t.kind) t.heading)
      (tokensOf source' (some t.kind) u.heading) := by
  have halike : List.Forall₂ (Alike source source') t.heading u.heading :=
    takeWhile_alike h.alike.children fun c d hcd => by rw [plays_alike _ c d hcd]
  have happend : ∀ n : Tree,
      n.children = n.heading ++ n.children.dropWhile fun c => !c.plays .declarator :=
    fun n => List.takeWhile_append_dropWhile.symm
  have hapart := h.apart_children hkind
  rw [happend t, happend u, tokensOf_append, tokensOf_append] at hapart
  have htokens := tokensOf_alike halike (some t.kind)
  exact ⟨htokens, (Token.apart_append_inj htokens.length_eq hapart).1⟩

/-- Declarators are alike but for their values, if they are alike at all. -/
theorem SpacedAlike.declarator {p : Option Kind} {d e : Tree}
    (h : SpacedAlike source source' p d e) : DeclaratorAlike source source' d e := by
  refine ⟨h.alike.kind_eq, ?_⟩
  rw [proper?, proper?, ← h.alike.kind_eq]
  split_ifs with hk
  · have hchildren := h.children (by simp [hk])
    have hfound := find?_of_forall₂ (q := plays .declarator)
      (fun c e hce => plays_alike _ c e hce.alike) hchildren
    rw [child?, child?, playing?_eq_find?, playing?_eq_find?]
    generalize d.children.find? _ = c, e.children.find? _ = c' at hfound
    cases hfound with
    | none => exact .none
    | some hce => exact .some ⟨hce.alike, hce.apart⟩
  · exact .some ⟨h.alike, (h.under _).apart⟩

theorem hasInitializer_alike {d e : Tree} (h : Alike source source' d e) :
    d.hasInitializer = e.hasInitializer := by
  have hfound := playing?_alike .value h.children
  rw [hasInitializer, hasInitializer, h.kind_eq, child?, child?]
  generalize playing? .value d.children = c, playing? .value e.children = c' at hfound ⊢
  cases hfound <;> rfl

open Spacing in
theorem outline_declarator? {specs specs' : List Token} (hspecs : SegmentAlike specs specs')
    {p : Option Kind} {d e : Tree} (h : SpacedAlike source source' p d e) :
    (declarator? source specs d).map Decl.outline =
      (declarator? source' specs' e).map Decl.outline := by
  have hsaid := nameAndText_declarator? hspecs h.declarator
  have hinitialized := hasInitializer_alike h.alike
  cases hd : declarator? source specs d with
  | none =>
    rw [hd, Option.map_none, eq_comm, Option.map_eq_none_iff] at hsaid
    rw [hsaid, Option.map_none]
  | some decl =>
    rw [hd, Option.map_some, eq_comm, Option.map_eq_some_iff] at hsaid
    obtain ⟨decl', hdecl', hsame⟩ := hsaid
    obtain ⟨hname, htext⟩ := Prod.mk.inj hsame
    rw [hdecl', Option.map_some, Option.map_some]
    refine congrArg some (Decl.outline_eq_iff.mpr ⟨hname.symm, htext.symm, ?_⟩)
    rw [isInitialized_declarator? hd, isInitialized_declarator? hdecl', hinitialized]

/-- **Declarations whose tokens stand apart alike declare the same**, up to lines and values. -/
theorem outline_declarations {t u : Tree} (ht : ∀ n ∈ t.nodes, n.IsOrdered)
    (hu : ∀ n ∈ u.nodes, n.IsOrdered) (h : SpacedAlike source source' none t u)
    (hkind : t.kind = .declaration) :
    (declarations source t).map Decl.outline = (declarations source' u).map Decl.outline := by
  have hcomment : t.kind ≠ .comment := by simp [hkind]
  have hdeclarators : List.Forall₂ (SpacedAlike source source' (some t.kind))
      (declarators t.children) (declarators u.children) :=
    List.rel_filter (fun c d hcd => iff_of_eq (congrArg (· = true) (plays_alike _ c d hcd.alike)))
      (h.children hcomment)
  by_cases hnone : declarators t.children = []
  · rw [hnone] at hdeclarators
    rw [declarations, declarations, hnone, List.forall₂_nil_left_iff.mp hdeclarators]
    rfl
  · have hnone' : declarators u.children ≠ [] := by
      intro hnil
      rw [hnil] at hdeclarators
      exact hnone (List.forall₂_nil_right_iff.mp hdeclarators)
    rw [declarations, declarations, tokensOf_specifiers source ht hnone,
      tokensOf_specifiers source' hu hnone', ← h.alike.kind_eq, List.map_filterMap,
      List.map_filterMap]
    exact filterMap_eq_of_forall₂ hdeclarators fun d e hde =>
      outline_declarator? (h.heading hcomment) hde

theorem outline_tagDeclaration {t u : Tree} (h : SpacedAlike source source' none t u) :
    (tagDeclaration source t).outline = (tagDeclaration source' u).outline := by
  have htext := Spacing.render_congr (.cons ⟨tokens_alike h.alike none, h.apart⟩ .nil)
  simp only [tagDeclaration, Decl.outline, Option.map_none, htext]

/-! ## Units -/

/-- Whether something is declared at a site: it is a declaration, or a tag specifier in a list of
items. -/
def Site.declares (a : Site) : Bool :=
  a.role != .body && (a.tree.kind == .declaration || (a.role == .item && a.tree.kind.isTag))

/-- Two trees, each over its own text, differ in the layout of their texts alone: they are spelled
alike, their nodes stand in order, and where something is declared, tokens stand apart alike. -/
structure DifferInLayout (source source' : String) (t u : Tree) : Prop where
  alike : Alike source source' t u
  ordered : (∀ n ∈ t.nodes, n.IsOrdered) ∧ ∀ n ∈ u.nodes, n.IsOrdered
  apart : ∀ a ∈ t.sites, ∀ b ∈ u.sites, a.path = b.path → a.declares = true →
    Token.apart (a.tree.tokens source none) = Token.apart (b.tree.tokens source' none)

theorem outline_decls {a b : Site} (hrole : a.role = b.role)
    (halike : Alike source source' a.tree b.tree) (ha : ∀ n ∈ a.tree.nodes, n.IsOrdered)
    (hb : ∀ n ∈ b.tree.nodes, n.IsOrdered)
    (hapart : a.declares = true →
      Token.apart (a.tree.tokens source none) = Token.apart (b.tree.tokens source' none)) :
    (a.decls source).map Decl.outline = (b.decls source').map Decl.outline := by
  rw [Site.decls, Site.decls, ownDecls, ownDecls, ← hrole, ← halike.kind_eq]
  split_ifs with hbody hdeclaration htag
  · rfl
  · have hdeclares : a.declares = true := by simp [Site.declares, hbody, hdeclaration]
    exact outline_declarations ha hb ⟨halike, hapart hdeclares⟩ hdeclaration
  · have hdeclares : a.declares = true := by simp [Site.declares, htag]
    rw [List.map_singleton, List.map_singleton,
      outline_tagDeclaration ⟨halike, hapart hdeclares⟩]
  · rfl

/-- **The outline of a unit does not depend on the layout of its text.** The units of two trees that
differ in layout alone have the same items in the same order and nesting, and their declarations
have the same names, the same texts and the same initialization, however wide the gaps of the texts
are and whatever they are made of. -/
theorem unit_layout_exact {source source' : String} {t u : Tree}
    (h : DifferInLayout source source' t u) :
    (t.unit source).outline = (u.unit source').outline ∧
      (Decl.ofUnit (t.unit source)).map (fun d => (d.name, d.text, d.isInitialized)) =
        (Decl.ofUnit (u.unit source')).map fun d => (d.name, d.text, d.isInitialized) := by
  have houtline : (t.unit source).outline = (u.unit source').outline := by
    refine outline_unit h.alike fun a ha b hb hpath hrole halike => ?_
    have hordered : (∀ n ∈ a.tree.nodes, n.IsOrdered) ∧ ∀ n ∈ b.tree.nodes, n.IsOrdered :=
      ⟨fun n hn => h.ordered.1 n (nodes_trans hn (mem_nodes_of_mem_sitesAs ha)),
        fun n hn => h.ordered.2 n (nodes_trans hn (mem_nodes_of_mem_sitesAs hb))⟩
    exact outline_decls hrole halike hordered.1 hordered.2 (h.apart a ha b hb hpath)
  refine ⟨houtline, ?_⟩
  have hsaid : ∀ ds : List Decl, (ds.map Decl.outline).map
      (fun d => (d.name, d.text, d.isInitialized)) =
        ds.map fun d => (d.name, d.text, d.isInitialized) := fun ds => by
    simp [Decl.outline, Decl.isInitialized]
  rw [← hsaid, ← Decl.ofUnit_outline, houtline, Decl.ofUnit_outline, hsaid]

/-- The place of a byte in a text whose characters have one byte each. -/
def placeIn (source : String) (n : ℕ) : Point :=
  ⟨n, Text.feedsBefore source.toList n,
    ((source.toList.take n).reverse.takeWhile fun c => c != '\n').length⟩

/-- A node of a text whose tokens start at some bytes, from the token number `i` to the end of the
token number `j`, which has `size` bytes. -/
def fromTo (source : String) (starts : List ℕ) (k : Kind) (f : Option Field) (i j size : ℕ)
    (cs : List Tree) : Tree :=
  node ⟨k, f, placeIn source (starts.getD i 0), placeIn source (starts.getD j 0 + size), false,
    false⟩ cs

/-- The tree of `void f(){static int a,*b=0;}` in any layout. -/
def functionTree (source : String) (starts : List ℕ) : Tree :=
  let part := fromTo source starts
  part (.other "translation_unit") none 0 14 1 [
    part .functionDefinition none 0 14 1 [
      part (.other "primitive_type") none 0 0 4 [],
      part (.other "function_declarator") (some .declarator) 1 3 1 [
        part .identifier (some .declarator) 1 1 1 [],
        part (.other "parameter_list") none 2 3 1 [
          part (.token "(") none 2 2 1 [],
          part (.token ")") none 3 3 1 []]],
      part .compoundStatement (some .body) 4 14 1 [
        part (.token "\x7b") none 4 4 1 [],
        part .declaration none 5 13 1 [
          part (.other "storage_class_specifier") none 5 5 6 [
            part (.token "static") none 5 5 6 []],
          part (.other "primitive_type") none 6 6 3 [],
          part .identifier (some .declarator) 7 7 1 [],
          part (.token ",") none 8 8 1 [],
          part .initDeclarator (some .declarator) 9 12 1 [
            part .pointerDeclarator (some .declarator) 9 10 1 [
              part (.token "*") none 9 9 1 [],
              part .identifier (some .declarator) 10 10 1 []],
            part (.token "=") none 11 11 1 [],
            part (.other "number_literal") (some .value) 12 12 1 []],
          part (.token ";") none 13 13 1 []],
        part (.token "\x7d") none 14 14 1 []]]]

/-- A function in one line. -/
def narrowText : String :=
  "void f()\x7bstatic int a,*b=0;\x7d"

/-- The same function with wider gaps, some of which break the line. -/
def wideText : String :=
  "void f()\n\x7b\n\tstatic\n  int   a,*b=0;\n\x7d"

def narrowTree : Tree :=
  functionTree narrowText [0, 5, 6, 7, 8, 9, 16, 20, 21, 22, 23, 24, 25, 26, 27]

def wideTree : Tree :=
  functionTree wideText [0, 5, 6, 7, 9, 12, 21, 27, 28, 29, 30, 31, 32, 33, 35]

theorem unit_layout_exact_wideTree :
    DifferInLayout narrowText wideText narrowTree wideTree ∧
      (wideTree.unit wideText).outline = (narrowTree.unit narrowText).outline ∧
      (Decl.ofUnit (wideTree.unit wideText)).map (fun d => (d.name, d.text, d.isInitialized)) =
        [(some "a", "static int a", false), (some "b", "static int *b", true)] := by
  have halike : Alike narrowText wideText narrowTree wideTree := by
    unfold narrowTree wideTree functionTree fromTo
    repeat' first
      | exact List.Forall₂.nil
      | refine List.Forall₂.cons ?_ ?_
      | refine Alike.node rfl rfl ?_ ?_
    -- only the texts of the tokens are left
    all_goals decide +kernel
  have hdiffer : DifferInLayout narrowText wideText narrowTree wideTree :=
    ⟨halike, ⟨by decide +kernel, by decide +kernel⟩, by decide +kernel⟩
  obtain ⟨houtline, hdecls⟩ := unit_layout_exact hdiffer
  refine ⟨hdiffer, houtline.symm, ?_⟩
  rw [← hdecls]
  decide +kernel

end Tree

end Uninit
