import Uninit.Proofs.Readings
import Uninit.Proofs.Shown

/-!
# The tree of a text

What holds of the tree of every text: its nodes are ordered and placed in the text, nothing that is
wrong goes without a mark, and the parts of statements stand in the order in which they are walked.
If the tree is not marked at all, every derivation below it is one of the grammar, so no node is
empty, comments are tokens that play no part, and a node with children has one that is no comment,
except for a translation unit that holds nothing else.

## Main definitions

* `Derivation.IsInner`: a derivation that stands in a phrase in which nothing is wrong
* `Tree.IsTidy`: no child of a node is empty, and its comments are tokens that play no part

## Main statements

* `isPlaced_parse`, `marksUp_parse`, `partsInOrder_parse`: the tree of any text
* `read_of_find?_isFault`: a text with a fault is refused for the first one
* `isPlacedIn_parse`, `isLaidOut_parse_iff`: the tree of a text in which nothing is wrong
-/
namespace Uninit

namespace Tree

/-- No child of a node is empty, and a comment is a token that plays no part. -/
structure IsTidy (t : Tree) : Prop where
  filled : ∀ c ∈ t.children, c.start.byte < c.stop.byte
  comments : ∀ c ∈ t.children, c.isComment = true → c.field = none ∧ c.children = []

/-- A node has a child that is no comment, unless it has none at all. -/
def HasContent (t : Tree) : Prop :=
  t.children = [] ∨ ∃ c ∈ t.children, c.isComment = false

theorem isLaidOut_of_forall {t : Tree} (h : ∀ n ∈ t.nodes, areLaidOut n.children = true) :
    t.isLaidOut = true := by
  induction t using induct with
  | node l cs ih =>
    obtain ⟨hown, hbelow⟩ := forall_mem_nodes.mp h
    exact isLaidOut_node.mpr ⟨hown, fun c hc => ih c hc (hbelow c hc)⟩

end Tree

namespace Grammar

open Uninit.Tree (Field Kind)

/-- A symbol in a file is no end of the text, no comment and no whole text. -/
theorem Symbol.root_ne_of_isInner {x : Symbol} (h : x.isInner = true) :
    x.root ≠ .terminal .eof ∧ x.root ≠ .terminal .comment ∧
      x.root ≠ .nonterminal .translationUnit := by
  cases x <;> simp_all [Symbol.isInner, Symbol.root]

namespace Derivation

variable {text : List Char} {d q : Derivation} {f : Option Field} {k : Option Kind} {t : Tree}

/-! ## Derivations in which nothing is wrong -/

/-- A derivation stands in a phrase in which nothing is wrong: it is a token that may stand
anywhere, or a symbol of a production. -/
structure IsInner (d : Derivation) : Prop where
  right : ¬ d.IsWrong
  alone : d.isExtra = true → ∃ t, d.root = .terminal t
  own : d.isExtra = false → ∃ x : Symbol, d.root = x.root ∧ x.isInner = true

theorem IsInner.root_ne (h : d.IsInner) : d.root ≠ .nonterminal .translationUnit := by
  intro hroot
  cases hextra : d.isExtra with
  | true =>
    obtain ⟨t, ht⟩ := h.alone hextra
    exact nomatch hroot.symm.trans ht
  | false =>
    obtain ⟨x, hx, hinner⟩ := h.own hextra
    exact (Symbol.root_ne_of_isInner hinner).2.2 (hx.symm.trans hroot)

theorem root_eq_or_of_not_isWrong (hright : ¬ d.IsWrong) :
    (∃ t, d.root = .terminal t) ∨ ∃ n, d.root = .nonterminal n := by
  cases hroot : d.root with
  | terminal t => exact .inl ⟨t, rfl⟩
  | nonterminal n => exact .inr ⟨n, rfl⟩
  | error | skipped => exact absurd (.inr (by rw [hroot]; rfl)) hright

/-- Nothing is wrong in the parts of a derivation in which nothing is wrong. -/
theorem IsSound.isInner_of_mem (h : d.IsSound text) (hright : ¬ d.IsWrong) (hq : q ∈ d.parts) :
    q.IsInner := by
  have hcost : ¬ 0 < d.cost := fun hcost => hright (.inl hcost)
  have hqright : ¬ q.IsWrong := fun hwrong => hcost (h.summary.dear ⟨q, hq, hwrong⟩)
  refine ⟨hqright, fun hextra => ?_, fun hown => ?_⟩
  · rcases (h.of_mem_parts hq).of_isExtra hextra with hroot | ⟨-, hdear⟩
    · exact hroot
    · exact absurd (.inl hdear) hqright
  · rcases root_eq_or_of_not_isWrong hright with ⟨t, hroot⟩ | ⟨n, hroot⟩
    · rw [h.parts_eq_nil hroot] at hq
      cases hq
    · obtain ⟨p, hp, -, hfile, hroots, -⟩ := h.exists_production hroot
      have hmem := root_mem_roots hq hown
      rw [hroots] at hmem
      obtain ⟨x, hx, hx'⟩ := List.mem_map.mp hmem
      obtain ⟨s, hs, rfl⟩ := List.mem_map.mp hx
      exact ⟨s.symbol, hx'.symm, (Production.isInner_of_mem_steps hp hfile hs).1⟩

/-- A phrase that is not empty has a part that is no token without a node. -/
theorem IsSound.exists_part (h : d.IsSound text) {n : Nonterminal}
    (hroot : d.root = .nonterminal n) (hunit : n ≠ .translationUnit) :
    ∃ q ∈ d.parts, ∃ x : Symbol, q.isExtra = false ∧ q.root = x.root ∧ x.isInner = true ∧
      x.isHiddenToken = false := by
  obtain ⟨p, hp, -, hfile, hroots, -⟩ := h.exists_production hroot
  obtain ⟨s, hs, hshown⟩ := Production.exists_mem_steps hp hfile (.inl hunit)
  have hmem : s.symbol.root ∈ roots d.parts := by
    rw [hroots]
    exact List.mem_map_of_mem (List.mem_map_of_mem hs)
  obtain ⟨q, hq, hsymbol⟩ := List.mem_map.mp hmem
  obtain ⟨hmem, hown⟩ := List.mem_filter.mp hq
  exact ⟨q, hmem, s.symbol, by simpa using hown, hsymbol,
    (Production.isInner_of_mem_steps hp hfile hs).1, hshown⟩

/-- **A derivation is not empty** if nothing is wrong in it, unless it is the end of the text or the
whole of it. -/
theorem startByte_lt (h : d.IsSound text) (hright : ¬ d.IsWrong)
    (heof : d.root ≠ .terminal .eof) (hunit : d.root ≠ .nonterminal .translationUnit) :
    d.startByte < d.stopByte := by
  induction h with
  | @node s ps own parts ih =>
    have hsound : (node s ps).IsSound text := .node own parts
    rcases root_eq_or_of_not_isWrong hright with ⟨t, hroot⟩ | ⟨n, hroot⟩
    · have hpresent : s.missing = false :=
        Bool.eq_false_iff.mpr fun hmissing => hright (.inl (own.missing hmissing))
      cases own.form with
      | token t' root_eq _ _ filled =>
        exact filled hpresent fun ht' => heof (root_eq.trans (congrArg Root.terminal ht'))
      | phrase _ _ _ root_eq => exact nomatch hroot.symm.trans root_eq
      | fault root_eq => exact absurd (.inr root_eq) hright
      | unreadable root_eq => exact absurd (.inr (congrArg Root.isFault root_eq)) hright
    · obtain ⟨q, hq, x, -, hx, hinner, -⟩ :=
        hsound.exists_part hroot (by rintro rfl; exact hunit hroot)
      obtain ⟨heof, -, hunit⟩ := Symbol.root_ne_of_isInner hinner
      have hlt := ih q hq (hsound.isInner_of_mem hright hq).right (hx ▸ heof) (hx ▸ hunit)
      obtain ⟨hlow, -, hhigh⟩ := own.row.bounds hq
      exact Nat.lt_of_le_of_lt hlow (Nat.lt_of_lt_of_le hlt hhigh)

/-! ## What is shown where nothing is wrong -/

/-- No node of a derivation that stands in a phrase is empty. -/
theorem nonempty_of_mem_shown (h : d.IsSound text) (hd : d.IsInner) (hk : d.MayBeCalled k)
    (ht : t ∈ shown f k d) : t.start.byte < t.stop.byte := by
  induction h generalizing f k t with
  | @node s ps own parts ih =>
    have hsound : (node s ps).IsSound text := .node own parts
    cases hkind : k.or (node s ps).root.kind? with
    | none =>
      rw [shown_of_none hkind] at ht
      obtain ⟨q, hq, f', k', hshown, ht⟩ := (shownAll_spec hsound.follows).1 t ht
      exact ih q hq (hsound.isInner_of_mem hd.right hq)
        (hshown.mayBeCalled hsound.isRegular_of_mem) ht
    | some c =>
      rw [shown_of_some hkind] at ht
      obtain rfl := List.mem_singleton.mp ht
      refine startByte_lt hsound hd.right (fun heof => ?_) hd.root_ne
      -- the end of the text is no node, and is not called anything
      rcases kind_eq_of_or hk hkind with hroot | ⟨-, -, t, hroot, hne⟩
      · rw [heof] at hroot
        cases hroot
      · exact hne (Root.terminal.inj (hroot.symm.trans heof))

theorem eq_comment_of_kind? {r : Root} (h : r.kind? = some .comment) :
    r = .terminal .comment := by
  cases r with
  | terminal t => exact congrArg Root.terminal (t.kind?_spec.1 h)
  | nonterminal n => exact absurd h n.kind?_spec.1
  | error => cases h
  | skipped => cases h

/-- Nothing is shown of the parts of a token. -/
theorem IsSound.shownAll_parts_eq_nil (h : d.IsSound text) {t : Terminal}
    (hroot : d.root = .terminal t) (field : Option Field) :
    shownAll field d.summary.steps d.parts = [] := by
  rw [h.parts_eq_nil hroot]
  cases d.summary.steps <;> rfl

/-- A comment is a token that may stand anywhere, and plays no part. -/
theorem comment_of_mem_shown (h : d.IsSound text) (hd : d.IsInner) (hk : d.MayBeCalled k)
    (hf : d.isExtra = true → f = none) (ht : t ∈ shown f k d) (hcomment : t.isComment = true) :
    t.field = none ∧ t.children = [] := by
  induction h generalizing f k t with
  | @node s ps own parts ih =>
    have hsound : (node s ps).IsSound text := .node own parts
    cases hkind : k.or (node s ps).root.kind? with
    | none =>
      rw [shown_of_none hkind] at ht
      obtain ⟨q, hq, f', k', hshown, ht⟩ := (shownAll_spec hsound.follows).1 t ht
      exact ih q hq (hsound.isInner_of_mem hd.right hq)
        (hshown.mayBeCalled hsound.isRegular_of_mem) hshown.field_eq_none ht hcomment
    | some c =>
      rw [shown_of_some hkind] at ht
      obtain rfl := List.mem_singleton.mp ht
      obtain rfl : c = .comment := eq_of_beq hcomment
      rcases kind_eq_of_or hk hkind with hroot | ⟨hne, -⟩
      · have hroot := eq_comment_of_kind? hroot
        refine ⟨hf ?_, ?_⟩
        · by_contra hextra
          obtain ⟨x, hx, hinner⟩ := hd.own (Bool.eq_false_iff.mpr hextra)
          exact (Symbol.root_ne_of_isInner hinner).2.1 (hx.symm.trans hroot)
        · exact hsound.shownAll_parts_eq_nil hroot none
      · exact absurd rfl hne

/-- **A phrase shows something that is no comment**, unless it is the whole of a text. -/
theorem exists_not_comment (h : d.IsSound text) (hright : ¬ d.IsWrong) {n : Nonterminal}
    (hroot : d.root = .nonterminal n) (hunit : n ≠ .translationUnit) (field : Option Field) :
    ∃ t ∈ shownAll field d.summary.steps d.parts, t.isComment = false := by
  induction h generalizing n field with
  | @node s ps own parts ih =>
    have hsound : (node s ps).IsSound text := .node own parts
    obtain ⟨q, hq, x, -, hx, hinner, hshows⟩ := hsound.exists_part hroot hunit
    obtain ⟨f, k, hshown, hall⟩ : ∃ f k, ShownAs field s.steps q f k ∧ ∀ t ∈ shown f k q,
        t ∈ shownAll field s.steps ps := (shownAll_spec hsound.follows).2 q hq
    have hk := hshown.mayBeCalled hsound.isRegular_of_mem
    suffices ∃ t ∈ shown f k q, t.isComment = false by
      obtain ⟨t, ht, hcomment⟩ := this
      exact ⟨t, hall t ht, hcomment⟩
    cases hkind : k.or q.root.kind? with
    | some c =>
      rw [shown_of_some hkind]
      refine ⟨_, List.mem_singleton_self _, beq_eq_false_iff_ne.mpr ?_⟩
      rcases kind_eq_of_or hk hkind with hkind | ⟨hne, -⟩
      · rintro rfl
        exact (Symbol.root_ne_of_isInner hinner).2.1 (hx.symm.trans (eq_comment_of_kind? hkind))
      · exact hne
    | none =>
      -- a phrase without a node shows what its parts show
      rw [shown_of_none hkind]
      have hkind := (Option.or_eq_none_iff.mp hkind).2
      rw [hx] at hkind
      obtain t | m := x
      · have hkind : t.kind? = none := hkind
        rw [Symbol.isHiddenToken, hkind] at hshows
        cases hshows
      · exact ih q hq (hsound.isInner_of_mem hright hq).right hx
          (fun hm => (Symbol.root_ne_of_isInner hinner).2.2 (congrArg Root.nonterminal hm)) f

/-- What the parts of a derivation show where nothing is wrong in it. -/
theorem of_mem_shownAll (h : d.IsSound text) (hright : ¬ d.IsWrong) {field : Option Field}
    (ht : t ∈ shownAll field d.summary.steps d.parts) :
    t.start.byte < t.stop.byte ∧ (t.isComment = true → t.field = none ∧ t.children = []) := by
  obtain ⟨q, hq, f, k, hshown, ht⟩ := (shownAll_spec h.follows).1 t ht
  have hsound := h.of_mem_parts hq
  have hinner := h.isInner_of_mem hright hq
  have hk := hshown.mayBeCalled h.isRegular_of_mem
  exact ⟨nonempty_of_mem_shown hsound hinner hk ht,
    comment_of_mem_shown hsound hinner hk hshown.field_eq_none ht⟩

/-- The nodes of a derivation in which nothing is wrong are tidy, and those that stand in a phrase
have content. -/
theorem isTidy_of_mem_shown (h : d.IsSound text) (hright : ¬ d.IsWrong) (hk : d.MayBeCalled k)
    (ht : t ∈ shown f k d) : (∀ n ∈ t.nodes, n.IsTidy) ∧
      (∀ c ∈ t.children, ∀ n ∈ c.nodes, n.HasContent) ∧
      (d.root ≠ .nonterminal .translationUnit → t.HasContent) := by
  induction h generalizing f k t with
  | @node s ps own parts ih =>
    have hsound : (node s ps).IsSound text := .node own parts
    have hbelow : ∀ field, ∀ c ∈ shownAll field s.steps ps, (∀ n ∈ c.nodes, n.IsTidy) ∧
        (∀ b ∈ c.children, ∀ n ∈ b.nodes, n.HasContent) ∧ c.HasContent := by
      intro field c hc
      obtain ⟨q, hq, f', k', hshown, hc⟩ := (shownAll_spec hsound.follows).1 c hc
      have hinner := hsound.isInner_of_mem hright hq
      obtain ⟨htidy, hcontent, hown⟩ := ih q hq hinner.right
        (hshown.mayBeCalled hsound.isRegular_of_mem) hc
      exact ⟨htidy, hcontent, hown hinner.root_ne⟩
    cases hkind : k.or (node s ps).root.kind? with
    | none =>
      rw [shown_of_none hkind] at ht
      exact ⟨(hbelow f t ht).1, (hbelow f t ht).2.1, fun _ => (hbelow f t ht).2.2⟩
    | some c =>
      rw [shown_of_some hkind] at ht
      obtain rfl := List.mem_singleton.mp ht
      refine ⟨Tree.forall_mem_nodes.mpr ⟨⟨fun c hc => (of_mem_shownAll hsound hright hc).1,
        fun c hc => (of_mem_shownAll hsound hright hc).2⟩, fun c hc => (hbelow none c hc).1⟩,
        ?_, ?_⟩
      · intro c hc
        obtain ⟨l, cs⟩ := c
        exact Tree.forall_mem_nodes.mpr ⟨(hbelow none _ hc).2.2, (hbelow none _ hc).2.1⟩
      · intro hunit
        rcases root_eq_or_of_not_isWrong hright with ⟨t, hroot⟩ | ⟨n, hroot⟩
        · exact .inl (hsound.shownAll_parts_eq_nil hroot none)
        · exact .inr (exists_not_comment hsound hright hroot
            (fun hn => hunit (hroot.trans (congrArg Root.nonterminal hn))) none)

end Derivation

/-! ## The tree of any text -/

variable (source : String)

/-- Anything that is wrong in a whole derivation costs something. -/
theorem Derivation.IsWhole.cost_pos {text : List Char} {d : Derivation} (h : d.IsWhole text)
    (hwrong : d.IsWrong) : 0 < d.cost := by
  rcases hwrong with hcost | hfault
  · exact hcost
  · rcases h.2 with hroot | ⟨-, hcost⟩
    · rw [hroot] at hfault
      cases hfault
    · exact hcost

/-- The tree of a text is that of a whole derivation, marked if this costs something, or the text
could not be read at all. -/
theorem parse_spec :
    (∃ d : Derivation, d.IsWhole source.toList ∧ d.shown none none = [parse source] ∧
      (parse source).label.flawed = decide (0 < d.cost)) ∨
      parse source = unread source.toList := by
  unfold parse
  dsimp only
  cases hderive : derive source.toList with
  | none => exact .inr rfl
  | some d =>
    have hwhole := isWhole_of_derive hderive
    have hkind : ((none : Option Kind).or d.root.kind?).isSome = true := by
      rcases hwhole.2 with hroot | ⟨hroot, -⟩ <;> rw [hroot] <;> rfl
    obtain ⟨c, hc⟩ := Option.isSome_iff_exists.mp hkind
    refine .inl ⟨d, hwhole, ?_⟩
    dsimp only
    rw [Derivation.shown_of_some hc]
    exact ⟨rfl, rfl⟩

/-- **The nodes of the tree of a text are ordered and placed in the text.** -/
theorem isPlaced_parse : ∀ n ∈ (parse source).nodes, n.IsPlaced source.toList := by
  rcases parse_spec source with ⟨d, hd, hshown, -⟩ | hunread
  · exact Derivation.isPlaced_of_mem_shown hd.1 (hshown ▸ List.mem_singleton_self _)
  · rw [hunread, unread]
    have hleads := Cursor.leadsTo_advance source.toList.length (Cursor.start source.toList)
    refine Tree.forall_mem_nodes.mpr ⟨⟨⟨hleads.byte_le, fun c hc => absurd hc List.not_mem_nil,
      .nil⟩, Text.isPlace_origin _, (hleads.isIn (Cursor.isIn_start _)).isPlace⟩,
      fun c hc => absurd hc List.not_mem_nil⟩

/-- Whatever is wrong in the tree of a text is marked in the node above it, and at the root. -/
theorem marksUp_parse : (∀ n ∈ (parse source).nodes, n.MarksUp) ∧
    ((parse source).IsWrong → (parse source).label.flawed = true) := by
  rcases parse_spec source with ⟨d, hd, hshown, hflawed⟩ | hunread
  · have hmem : parse source ∈ d.shown none none := hshown ▸ List.mem_singleton_self _
    obtain ⟨hwrong, hmarks⟩ :=
      Derivation.marksUp_of_mem_shown hd.1 (Derivation.mayBeCalled_none d) hmem
    refine ⟨hmarks, fun h => ?_⟩
    rw [hflawed]
    exact decide_eq_true (hd.cost_pos (hwrong h))
  · rw [hunread, unread]
    exact ⟨Tree.forall_mem_nodes.mpr ⟨fun c hc => absurd hc List.not_mem_nil,
      fun c hc => absurd hc List.not_mem_nil⟩, fun _ => rfl⟩

/-- **The parts of statements in the tree of a text** stand in the order in which they are
walked. -/
theorem partsInOrder_parse : (parse source).partsInOrder = true := by
  rcases parse_spec source with ⟨d, hd, hshown, -⟩ | hunread
  · exact Derivation.partsInOrder_of_mem_shown hd.1 (Derivation.mayBeCalled_none d)
      (hshown ▸ List.mem_singleton_self _)
  · rw [hunread]
    rfl

/-- Where the root is not marked, nothing is wrong in the tree of a text. -/
theorem not_isWrong_of_mem_parse (h : (parse source).label.flawed = false) :
    ∀ n ∈ (parse source).nodes, ¬ n.IsWrong :=
  Tree.not_isWrong_of_mem_nodes (marksUp_parse source).1 fun hwrong =>
    nomatch h.symm.trans ((marksUp_parse source).2 hwrong)

/-- **No fault of a text goes unnoticed**: if there is a fault in its tree, the text is refused for
the first one in the order of the document. -/
theorem read_of_find?_isFault {n : Tree} (h : (parse source).nodes.find? Tree.isFault = some n) :
    read source = .error (n.describe source) := by
  have hflawed : (parse source).label.flawed = true := by
    by_contra hright
    exact not_isWrong_of_mem_parse source (Bool.eq_false_iff.mpr hright) n
      (List.mem_of_find?_eq_some h) (.inl (List.find?_some h))
  rw [read, Tree.read, Tree.fault?, if_pos hflawed,
    Tree.firstFault_eq_find?_of_marksUp (marksUp_parse source).1, h]
  rfl

/-! ## The tree of a text in which nothing is wrong -/

/-- The children of every node of a text in which nothing is wrong are tidy, and every node but the
root has content. -/
theorem isTidy_parse (h : (parse source).label.flawed = false) :
    (∀ n ∈ (parse source).nodes, n.IsTidy) ∧
      ∀ c ∈ (parse source).children, ∀ n ∈ c.nodes, n.HasContent := by
  rcases parse_spec source with ⟨d, hd, hshown, hflawed⟩ | hunread
  · have hright : ¬ d.IsWrong := fun hwrong =>
      nomatch h.symm.trans (hflawed.trans (decide_eq_true (hd.cost_pos hwrong)))
    obtain ⟨htidy, hcontent, -⟩ := Derivation.isTidy_of_mem_shown hd.1 hright
      (Derivation.mayBeCalled_none d) (hshown ▸ List.mem_singleton_self (parse source))
    exact ⟨htidy, hcontent⟩
  · rw [hunread] at h
    cases h

/-- **The tree of a text in which nothing is wrong** has no fault in it. It stands in the text with
no empty node but the root, and the children of every node start one behind the other. -/
theorem isPlacedIn_parse (h : (parse source).label.flawed = false) :
    (parse source).IsPlacedIn source ∧
      ∀ n ∈ (parse source).nodes, n.IsMarked ∧ n.isFault = false ∧ n.startsRise := by
  have hplaced := isPlaced_parse source
  have hright := not_isWrong_of_mem_parse source h
  obtain ⟨htidy, -⟩ := isTidy_parse source h
  refine ⟨⟨fun n hn => ?_, fun n hn => (hplaced n hn).2.1.row_eq, ?_⟩, fun n hn => ⟨?_, ?_, ?_⟩⟩
  · obtain ⟨⟨-, hinside, hpairs⟩, -⟩ := hplaced n hn
    exact ⟨fun c hc => ⟨(hinside c hc).1, (htidy n hn).filled c hc, (hinside c hc).2⟩, hpairs⟩
  · have hwithin := (hplaced _ (Tree.self_mem_nodes _)).2.2.byte_le
    rwa [String.ofList_toList] at hwithin
  · obtain ⟨hfault, hflawed⟩ := not_or.mp (hright n hn)
    have hchildren : (n.children.any fun c => c.label.flawed) = false :=
      List.any_eq_false.mpr fun c hc hwrong =>
        hright c (Tree.mem_nodes_of_mem_children hn hc) (.inr hwrong)
    rw [Tree.IsMarked, Bool.eq_false_iff.mpr hfault, Bool.eq_false_iff.mpr hflawed, hchildren]
    rfl
  · exact Bool.eq_false_iff.mpr fun hfault => hright n hn (.inl hfault)
  · obtain ⟨⟨-, -, hpairs⟩, -⟩ := hplaced n hn
    exact hpairs.imp_of_mem fun ha _ hab => Nat.lt_of_lt_of_le ((htidy n hn).filled _ ha) hab

/-- A tidy node is laid out if it has content. -/
theorem areLaidOut_iff {t : Tree} (ht : t.IsOrdered) (hcs : ∀ c ∈ t.children, c.IsOrdered)
    (htidy : t.IsTidy) : Tree.areLaidOut t.children = true ↔ t.HasContent := by
  have hcomments : (t.children.all fun c =>
      !c.isComment || (c.field.isNone && c.children.isEmpty)) = true := by
    refine List.all_eq_true.mpr fun c hc => ?_
    cases hcomment : c.isComment with
    | false => rfl
    | true =>
      obtain ⟨hfield, hchildren⟩ := htidy.comments c hc hcomment
      rw [hfield, hchildren]
      rfl
  have hpairs : t.children.Pairwise fun a b => a.start.byte ≤ b.start.byte :=
    ht.2.2.imp_of_mem fun ha _ hab => (hcs _ ha).1.trans hab
  rw [Tree.areLaidOut, hcomments, decide_eq_true hpairs, Bool.true_and, Bool.and_true,
    Bool.or_eq_true, List.isEmpty_iff, List.any_eq_true]
  simp only [Bool.not_eq_true', Tree.HasContent]

/-- **A text in which nothing is wrong is laid out** exactly if it holds anything beside comments,
or nothing at all. -/
theorem isLaidOut_parse_iff (h : (parse source).label.flawed = false) :
    (parse source).isLaidOut = true ↔ (parse source).HasContent := by
  have hplaced := isPlaced_parse source
  obtain ⟨htidy, hcontent⟩ := isTidy_parse source h
  have hnode : ∀ n ∈ (parse source).nodes, Tree.areLaidOut n.children = true ↔ n.HasContent :=
    fun n hn => areLaidOut_iff (hplaced n hn).1
      (fun c hc => (hplaced c (Tree.mem_nodes_of_mem_children hn hc)).1) (htidy n hn)
  have hbelow : ∀ c ∈ (parse source).children, c.isLaidOut = true := fun c hc =>
    Tree.isLaidOut_of_forall fun n hn =>
      (hnode n (Tree.nodes_trans hn
        (Tree.mem_nodes_of_mem_children (Tree.self_mem_nodes _) hc))).mpr (hcontent c hc n hn)
  rw [← hnode _ (Tree.self_mem_nodes _)]
  generalize parse source = t at hbelow
  obtain ⟨l, cs⟩ := t
  rw [Tree.isLaidOut_node]
  exact and_iff_left hbelow

end Grammar

end Uninit
