import Mathlib.Data.List.Forall2
import Uninit.Proofs.Comments

/-!
# Trees that are spelled alike

Two trees over two texts can be spelled alike: they have the same kinds of nodes in the same parts
and the same texts at their leaves, and only the places of their nodes differ. They have the same
tokens then, and declare the same name. How the tokens are written depends on their places in one
way alone, namely on whether two tokens that follow each other stand apart.

## Main definitions

* `Token.Alike`, `Token.apart`: the same token at another place, and where tokens stand apart
* `Tree.Alike`: two trees are spelled alike

## Main statements

* `Spacing.render_congr`: the same tokens that stand apart alike are written alike
* `Tree.tokens_alike`, `Tree.declaredName_alike`: what trees that are spelled alike share
-/
namespace Uninit

namespace Token

/-- The same token, maybe at another place. -/
def Alike (a b : Token) : Prop :=
  a.text = b.text ∧ a.kind = b.kind ∧ a.bindsRight = b.bindsRight

/-- Which of the tokens that follow each other stand apart. -/
def apart : List Token → List Bool
  | a :: b :: rest => decide (a.stop < b.start) :: apart (b :: rest)
  | _ => []

end Token

/-! ## Writing the same tokens -/

namespace Spacing

/-- Two segments have the same tokens, which stand apart alike. -/
structure SegmentAlike (s s' : List Token) : Prop where
  tokens : List.Forall₂ Token.Alike s s'
  apart : Token.apart s = Token.apart s'

theorem spaced_congr {a b c d : Token} (h : a.Alike b) (h' : c.Alike d) :
    spaced a c = spaced b d := by
  rw [spaced, spaced, h.1, h.2.1, h.2.2, h'.1]

theorem renderAfter_congr {a b : Token} {s s' : List Token}
    (h : SegmentAlike (a :: s) (b :: s')) : renderAfter a s = renderAfter b s' := by
  induction s generalizing a b s' with
  | nil =>
    obtain ⟨-, hs⟩ := List.forall₂_cons.mp h.tokens
    obtain rfl := List.forall₂_nil_left_iff.mp hs
    rfl
  | cons c rest ih =>
    obtain ⟨hab, hs⟩ := List.forall₂_cons.mp h.tokens
    obtain ⟨d, rest', hcd, hrest, rfl⟩ := List.forall₂_cons_left_iff.mp hs
    obtain ⟨hgap, hapart⟩ := List.cons_eq_cons.mp h.apart
    have hmore := ih ⟨.cons hcd hrest, hapart⟩
    rw [renderAfter, renderAfter, gap, gap, spaced_congr hab hcd, hgap, hcd.1, hmore]

theorem renderSegment_congr {p p' : Option Token} (hp : Option.Rel Token.Alike p p')
    {s s' : List Token} (h : SegmentAlike s s') : renderSegment p s = renderSegment p' s' := by
  cases s with
  | nil =>
    obtain rfl := List.forall₂_nil_left_iff.mp h.tokens
    rfl
  | cons a rest =>
    obtain ⟨b, rest', hab, -, rfl⟩ := List.forall₂_cons_left_iff.mp h.tokens
    rw [renderSegment, renderSegment, renderAfter_congr h, hab.1]
    cases hp with
    | none => rfl
    | some hp => rw [Option.elim_some, Option.elim_some, gap, gap, spaced_congr hp hab]; rfl

theorem lastToken_alike {p p' : Option Token} (hp : Option.Rel Token.Alike p p')
    {s s' : List Token} (h : List.Forall₂ Token.Alike s s') :
    Option.Rel Token.Alike (lastToken p s) (lastToken p' s') := by
  have hreverse := List.forall₂_reverse_iff.mpr h
  rw [lastToken, lastToken, List.getLast?_eq_head?_reverse, List.getLast?_eq_head?_reverse]
  generalize s.reverse = tokens, s'.reverse = tokens' at hreverse
  cases hreverse with
  | nil => exact hp
  | cons hlast _ => exact .some hlast

theorem renderFrom_congr {p p' : Option Token} (hp : Option.Rel Token.Alike p p')
    {segments segments' : List (List Token)}
    (h : List.Forall₂ SegmentAlike segments segments') :
    renderFrom p segments = renderFrom p' segments' := by
  induction h generalizing p p' with
  | nil => rfl
  | cons hs _ ih =>
    rw [renderFrom, renderFrom, renderSegment_congr hp hs, ih (lastToken_alike hp hs.tokens)]

/-- **The same tokens that stand apart alike are written alike.** -/
theorem render_congr {segments segments' : List (List Token)}
    (h : List.Forall₂ SegmentAlike segments segments') : render segments = render segments' :=
  renderFrom_congr .none h

end Spacing

namespace Tree

/-! ## The same spelling -/

/-- Two trees, each over its own text, are spelled alike. A node that is an identifier is a token
as well. -/
inductive Alike (source source' : String) : Tree → Tree → Prop
  | node {l m : Label} {cs ds : List Tree} (hkind : l.kind = m.kind) (hfield : l.field = m.field)
      (htext : cs = [] ∨ l.kind = .identifier → (node l cs).text source = (node m ds).text source')
      (hchildren : List.Forall₂ (Alike source source') cs ds) :
      Alike source source' (node l cs) (node m ds)

namespace Alike

variable {source source' : String} {t u : Tree}

theorem kind_eq (h : Alike source source' t u) : t.kind = u.kind := by
  cases h with
  | node hkind _ _ _ => exact hkind

theorem field_eq (h : Alike source source' t u) : t.field = u.field := by
  cases h with
  | node _ hfield _ _ => exact hfield

theorem children (h : Alike source source' t u) :
    List.Forall₂ (Alike source source') t.children u.children := by
  cases h with
  | node _ _ _ hchildren => exact hchildren

theorem isNamed_eq (h : Alike source source' t u) : t.isNamed = u.isNamed := by
  rw [isNamed, isNamed, h.kind_eq]

end Alike

variable {source source' : String}

theorem leafToken_alike {l m : Label} (hkind : l.kind = m.kind)
    (htext : (node l []).text source = (node m []).text source') (parent : Option Kind) :
    List.Forall₂ Token.Alike (leafToken source parent l) (leafToken source' parent m) := by
  have hslice : Text.slice source l.start.byte l.stop.byte =
      Text.slice source' m.start.byte m.stop.byte := htext
  rw [leafToken, leafToken, hslice]
  split_ifs with hempty
  · exact .nil
  · exact .cons ⟨rfl, hkind, rfl⟩ .nil

/-- What follows for the nodes of two lists follows for the lists. -/
theorem forall₂_imp_of_mem {α β : Type} {R S : α → β → Prop} {xs : List α} {ys : List β}
    (h : List.Forall₂ R xs ys) (himp : ∀ x ∈ xs, ∀ y ∈ ys, R x y → S x y) :
    List.Forall₂ S xs ys := by
  induction h with
  | nil => exact .nil
  | @cons x y xs ys hxy _ ih =>
    exact .cons (himp x List.mem_cons_self y List.mem_cons_self hxy)
      (ih fun z hz w hw => himp z (List.mem_cons_of_mem x hz) w (List.mem_cons_of_mem y hw))

theorem tokensOf_alike_of {cs ds : List Tree} {parent : Option Kind}
    (h : List.Forall₂ (fun c d =>
      List.Forall₂ Token.Alike (c.tokens source parent) (d.tokens source' parent)) cs ds) :
    List.Forall₂ Token.Alike (tokensOf source parent cs) (tokensOf source' parent ds) := by
  induction h with
  | nil => exact .nil
  | cons hcd _ ih => exact List.rel_append hcd ih

/-- **Trees that are spelled alike have the same tokens.** -/
theorem tokens_alike {t u : Tree} (h : Alike source source' t u) (parent : Option Kind) :
    List.Forall₂ Token.Alike (t.tokens source parent) (u.tokens source' parent) := by
  induction t using induct generalizing u parent with
  | node l cs ih =>
    obtain @⟨_, m, _, ds, hkind, hfield, htext, hchildren⟩ := h
    by_cases hcomment : l.kind = .comment
    · have hleft : (node l cs).isComment = true := isComment_node.mpr hcomment
      have hright : (node m ds).isComment = true := isComment_node.mpr (hkind ▸ hcomment)
      rw [tokens_of_isComment source hleft, tokens_of_isComment source' hright]
      exact .nil
    · have hcomment' : m.kind ≠ .comment := hkind ▸ hcomment
      by_cases hcs : cs = []
      · subst hcs
        obtain rfl := List.forall₂_nil_left_iff.mp hchildren
        rw [tokens.eq_def, tokens.eq_def]
        simp only [if_neg hcomment, if_neg hcomment']
        exact leafToken_alike hkind (htext (.inl rfl)) parent
      · have hds : ds ≠ [] := by
          rintro rfl
          exact hcs (List.forall₂_nil_right_iff.mp hchildren)
        rw [tokens_node source hcomment hcs, tokens_node source' hcomment' hds, ← hkind]
        exact tokensOf_alike_of (forall₂_imp_of_mem hchildren fun c hc d _ hcd => ih c hc hcd _)

theorem tokensOf_alike {cs ds : List Tree} (h : List.Forall₂ (Alike source source') cs ds)
    (parent : Option Kind) :
    List.Forall₂ Token.Alike (tokensOf source parent cs) (tokensOf source' parent ds) :=
  tokensOf_alike_of (h.imp fun _ _ hcd => tokens_alike hcd parent)

/-- Two trees that are spelled alike and declare the same name. -/
def AlikeNamed (source source' : String) (t u : Tree) : Prop :=
  Alike source source' t u ∧ t.declaredName source = u.declaredName source'

theorem firstDeclaredName_alike {cs ds : List Tree}
    (h : List.Forall₂ (AlikeNamed source source') cs ds) :
    firstDeclaredName source cs = firstDeclaredName source' ds := by
  induction h with
  | nil => rfl
  | cons hcd _ ih => rw [firstDeclaredName, firstDeclaredName, hcd.1.isNamed_eq, hcd.2, ih]

theorem innerDeclaredName_alike {cs ds : List Tree}
    (h : List.Forall₂ (AlikeNamed source source') cs ds) :
    innerDeclaredName source cs = innerDeclaredName source' ds := by
  induction h with
  | nil => rfl
  | cons hcd _ ih => rw [innerDeclaredName, innerDeclaredName, hcd.1.field_eq, hcd.2, ih]

/-- **Trees that are spelled alike declare the same name.** -/
theorem declaredName_alike {t u : Tree} (h : Alike source source' t u) :
    t.declaredName source = u.declaredName source' := by
  induction t using induct generalizing u with
  | node l cs ih =>
    obtain @⟨_, m, _, ds, hkind, hfield, htext, hchildren⟩ := h
    have hnamed : List.Forall₂ (AlikeNamed source source') cs ds :=
      forall₂_imp_of_mem hchildren fun c hc d _ hcd => ⟨hcd, ih c hc hcd⟩
    rw [declaredName, declaredName, ← hkind]
    cases hk : l.kind
    case identifier =>
      have htoken := htext (.inr hk)
      exact congrArg some htoken
    case parenthesizedDeclarator | attributedDeclarator => exact firstDeclaredName_alike hnamed
    all_goals exact innerDeclaredName_alike hnamed

end Tree

end Uninit
