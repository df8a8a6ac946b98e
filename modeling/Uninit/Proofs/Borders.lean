import Uninit.Proofs.Comments

/-!
# Where specifiers and declarator meet

The text of a declaration is that of its specifiers followed by that of its declarator. Each of the
two is written as if it stood alone, and a border between them counts as a gap wherever they stand
in the source. Whether the gap is written as a space is decided by the two tokens at the border, by
the rule that holds inside a segment as well. So a declarator in parentheses is written against
specifiers that end in a parenthesis, as if it were the parameters of a call.

## Main definitions

* `Token.Joins`: the tokens between which no space is ever written
* `Spacing.SetOff`: two segments meet in tokens that do not join

## Main statements

* `Spacing.render_two_segments`: what is written of two segments
* `texts_declarations_exact`: the texts of the declarations, with the space that is not always there
-/
namespace Uninit

/-- Two tokens are written without a space between them, whatever stands between them in the
source: the first is the `*` of a pointer or opens a bracket, the second closes one, opens an index
or ends a part, or the two look like the start of a call. -/
def Token.Joins (last first : Token) : Prop :=
  last.bindsRight = true ∨ last.text ∈ ["(", "["] ∨ first.text ∈ [")", "]", ",", ";", "["] ∨
    (first.text = "(" ∧ last.kind ∈ [.identifier, .fieldIdentifier, .token ")"])

instance (last first : Token) : Decidable (last.Joins first) :=
  inferInstanceAs (Decidable (_ ∨ _ ∨ _ ∨ _))

namespace Spacing

theorem calls_iff {k : Tree.Kind} :
    calls k = true ↔ k ∈ [.identifier, .fieldIdentifier, .token ")"] := by
  cases k <;> simp [calls]

theorem spaced_iff {last first : Token} : spaced last first = true ↔ ¬last.Joins first := by
  have hcloses : closes first.text = true ↔ first.text ∈ [")", "]", ",", ";", "["] := by
    simp [closes, or_assoc]
  have hopens : opens last.text = true ↔ last.text ∈ ["(", "["] := by
    simp [opens]
  rw [Token.Joins, ← hcloses, ← hopens, ← calls_iff, spaced]
  cases last.bindsRight <;> cases opens last.text <;> cases closes first.text <;>
    simp [imp_iff_not_or]

/-- Two segments meet in two tokens that do not join. -/
def SetOff (segment next : List Token) : Prop :=
  ∃ last ∈ segment.getLast?, ∃ first ∈ next.head?, ¬last.Joins first

instance (segment next : List Token) : Decidable (SetOff segment next) :=
  inferInstanceAs (Decidable (∃ last ∈ segment.getLast?, ∃ first ∈ next.head?, ¬last.Joins first))

/-- A border counts as a gap, wherever the tokens stand. -/
theorem gap_border (last first : Token) :
    gap true last first = if last.Joins first then "" else " " := by
  by_cases h : last.Joins first <;> simp [gap, spaced_iff, h]

/-- **Two segments are written one behind the other, each as if it stood alone**, with a space
between them exactly if they are set off. -/
theorem render_two_segments (segment next : List Token) :
    render [segment, next] =
      render [segment] ++ (if SetOff segment next then " " else "") ++ render [next] := by
  have hone : ∀ s, render [s] = renderSegment none s := fun s => by simp [render, renderFrom]
  have htwo : render [segment, next] =
      renderSegment none segment ++ renderSegment segment.getLast? next := by
    simp [render, renderFrom, lastToken]
  rw [hone, hone, htwo, String.append_assoc]
  congr 1
  cases next with
  | nil => simp [SetOff, renderSegment]
  | cons first rest =>
    cases hlast : segment.getLast? with
    | none => simp [SetOff, renderSegment, hlast]
    | some last =>
      by_cases h : last.Joins first <;>
        simp [SetOff, renderSegment, hlast, gap_border, h, String.append_assoc]

end Spacing

namespace Tree

variable (source : String)

/-- The tokens of the specifiers of a declaration. -/
def specifierTokens (t : Tree) : List Token :=
  tokensOf source (some t.kind) (specifiers t.children)

/-- The tokens of what a declarator declares, if it has what it declares. -/
def properTokens? (d : Tree) : Option (List Token) :=
  d.proper?.map (tokens source (some d.kind))

theorem text_declarator? (specs : List Token) (d : Tree) :
    (declarator? source specs d).map Decl.text =
      (d.properTokens? source).map fun own => Spacing.render [specs, own] := by
  rw [declarator?_eq_map_proper?, properTokens?, Option.map_map, Option.map_map]
  rfl

theorem texts_declarations (t : Tree) :
    (declarations source t).map Decl.text =
      ((declarators t.children).filterMap (properTokens? source)).map fun own =>
        Spacing.render [t.specifierTokens source, own] := by
  rw [declarations, List.map_filterMap, List.map_filterMap]
  exact List.filterMap_congr fun d _ => text_declarator? source _ d

open Spacing in
/-- **The text of a declaration is that of its specifiers followed by that of its declarator**, each
written as if it stood alone. The space between them is there exactly if the last token of the
specifiers and the first of the declarator do not join, whatever the source has there. So all
texts of a declaration have it exactly if the specifiers are set off from every declarator. -/
theorem texts_declarations_exact (t : Tree) :
    ((declarations source t).map Decl.text =
      ((declarators t.children).filterMap (properTokens? source)).map fun own =>
        render [t.specifierTokens source] ++
          (if SetOff (t.specifierTokens source) own then " " else "") ++ render [own]) ∧
    ((declarations source t).map Decl.text =
        ((declarators t.children).filterMap (properTokens? source)).map (fun own =>
          render [t.specifierTokens source] ++ " " ++ render [own]) ↔
      ∀ d ∈ declarators t.children, ∀ own ∈ d.properTokens? source,
        SetOff (t.specifierTokens source) own) := by
  simp only [texts_declarations, render_two_segments, List.map_inj_left, List.mem_filterMap,
    forall_exists_index, and_imp, true_and]
  have hspace : ∀ own : List Token, (render [t.specifierTokens source] ++
        (if SetOff (t.specifierTokens source) own then " " else "") ++ render [own] =
      render [t.specifierTokens source] ++ " " ++ render [own] ↔
        SetOff (t.specifierTokens source) own) := by
    intro own
    have hlonger (text : String) : text ≠ text ++ " " := fun h => by
      simpa using congrArg String.length h
    by_cases h : SetOff (t.specifierTokens source) own <;> simp [h, hlonger]
  simp only [hspace]
  exact ⟨fun h d hd own hown => h own d hd hown, fun h own d hd hown => h d hd own hown⟩

/-- The tree of `int __attribute__((x)) (*p);`. -/
def attributeTree : Tree :=
  oneLine .declaration none 0 28 [
    oneLine (.other "primitive_type") none 0 3 [],
    oneLine (.other "attribute_specifier") none 4 22 [
      oneLine (.token "__attribute__") none 4 17 [],
      oneLine (.token "(") none 17 18 [],
      oneLine (.other "argument_list") none 18 21 [
        oneLine (.token "(") none 18 19 [],
        oneLine .identifier none 19 20 [],
        oneLine (.token ")") none 20 21 []],
      oneLine (.token ")") none 21 22 []],
    oneLine .parenthesizedDeclarator (some .declarator) 23 27 [
      oneLine (.token "(") none 23 24 [],
      oneLine .pointerDeclarator none 24 26 [
        oneLine (.token "*") none 24 25 [],
        oneLine .identifier (some .declarator) 25 26 []],
      oneLine (.token ")") none 26 27 []],
    oneLine (.token ";") none 27 28 []]

open Spacing in
/-- The attribute is written against the declarator, although the source has a blank there: the two
parentheses look like the end of one and the start of another list of parameters. -/
theorem texts_declarations_attributeTree :
    (declarations "int __attribute__((x)) (*p);" attributeTree).map Decl.text =
        ["int __attribute__((x))(*p)"] ∧
      (declarations "int __attribute__((x)) (*p);" attributeTree).map Decl.text ≠
        ((declarators attributeTree.children).filterMap
          (properTokens? "int __attribute__((x)) (*p);")).map fun own =>
            render [attributeTree.specifierTokens "int __attribute__((x)) (*p);"] ++ " " ++
              render [own] := by
  decide +kernel

end Tree

end Uninit
