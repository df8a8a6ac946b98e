import Uninit.Proofs.Placement

/-!
# The identifier inside a declarator

A declarator is built from the inside out. Around the identifier that it declares stand pointers,
arrays and functions, each of which holds the declarator inside it as such, and parentheses and
attributes, which name no part of theirs. Other identifiers stand beside this way in, as sizes,
parameters and attributes, and parameters are declarators themselves.

The name of a declarator is read at the end of the way, and nowhere else. The identifier that is
read there is a token of the declarator too, so the name stands in the text of the declaration.

## Main definitions

* `Tree.inner?`: the declarator inside a declarator
* `Tree.BuiltAround`: a declarator is built around an identifier

## Main statements

* `Tree.declaredName_of_builtAround`: a declarator declares the identifier it is built around
* `Tree.declaredName_builtAround_exact`: this identifier and no other is named, and it is written
-/
namespace Uninit

/-! ## A token in a text -/

namespace Spacing

/-- Behind a token, the text of some tokens is what those before one of them are written as, a gap,
this token, and what follows it. -/
theorem renderAfter_append_cons (previous : Token) (front : List Token) (t : Token)
    (back : List Token) :
    ∃ gap, (gap = "" ∨ gap = " ") ∧ renderAfter previous (front ++ t :: back) =
      renderAfter previous front ++ gap ++ t.text ++ renderAfter t back := by
  induction front generalizing previous with
  | nil => exact ⟨gap false previous t, gap_eq_or false previous t, by simp [renderAfter]⟩
  | cons s rest ih =>
    obtain ⟨g, hg, heq⟩ := ih s
    exact ⟨g, hg, by simp [renderAfter, heq, String.append_assoc]⟩

theorem renderSegment_append_cons (previous : Option Token) (front : List Token) (t : Token)
    (back : List Token) :
    ∃ gap, (gap = "" ∨ gap = " ") ∧ renderSegment previous (front ++ t :: back) =
      renderSegment previous front ++ gap ++ t.text ++ renderAfter t back := by
  cases front with
  | nil =>
    refine ⟨previous.elim "" fun p => gap true p t, ?_, by simp [renderSegment]⟩
    cases previous with
    | none => exact .inl rfl
    | some p => exact gap_eq_or true p t
  | cons s rest =>
    obtain ⟨g, hg, heq⟩ := renderAfter_append_cons s rest t back
    exact ⟨g, hg, by simp [renderSegment, heq, String.append_assoc]⟩

/-- **A token stands in the text of its segment**, behind all that is written before it. -/
theorem render_append_cons (segment front : List Token) (t : Token) (back : List Token) :
    ∃ gap, (gap = "" ∨ gap = " ") ∧ render [segment, front ++ t :: back] =
      render [segment, front] ++ gap ++ t.text ++ renderAfter t back := by
  obtain ⟨g, hg, heq⟩ := renderSegment_append_cons (lastToken none segment) front t back
  exact ⟨g, hg, by simp [render, renderFrom, heq, String.append_assoc]⟩

end Spacing

namespace Tree

/-! ## The way in -/

/-- Whether a declarator of the kind does nothing but enclose another one. -/
def Kind.encloses : Kind → Bool
  | .parenthesizedDeclarator | .attributedDeclarator => true
  | _ => false

/-- The declarator inside a declarator: the first named child of parentheses and of attributes, and
of every other form the child that is there as a declarator. -/
def inner? (t : Tree) : Option Tree :=
  if t.kind.encloses then t.children.find? isNamed else t.child? .declarator

/-- A declarator is built around an identifier by any nesting of forms, each of which has the next
one inside. Whatever else the forms hold, other identifiers and declarators among it, makes no
difference. -/
inductive BuiltAround (ident : Tree) : Tree → Prop
  | identifier (hident : ident.kind = .identifier) : BuiltAround ident ident
  | form {outer inner : Tree} (hkind : outer.kind ≠ .identifier) (hcomment : outer.kind ≠ .comment)
      (hinner : outer.inner? = some inner) (h : BuiltAround ident inner) : BuiltAround ident outer

theorem mem_children_of_inner? {t inner : Tree} (h : t.inner? = some inner) :
    inner ∈ t.children := by
  rw [inner?] at h
  split at h
  · exact List.mem_of_find?_eq_some h
  · exact List.mem_of_find?_eq_some h

/-- There is one way into a declarator, so it is built around one identifier at most. -/
theorem BuiltAround.unique {ident other t : Tree} (h : BuiltAround ident t)
    (h' : BuiltAround other t) : other = ident := by
  induction h with
  | identifier hident =>
    cases h' with
    | identifier _ => rfl
    | form hkind _ _ _ => exact absurd hident hkind
  | form hkind _ hinner _ ih =>
    cases h' with
    | identifier hother => exact absurd hother hkind
    | form _ _ hinner' h' => exact ih (Option.some.inj (hinner.symm.trans hinner') ▸ h')

variable (source : String)

/-! ## The name -/

theorem firstDeclaredName_eq_find? (cs : List Tree) :
    firstDeclaredName source cs = (cs.find? isNamed).bind (declaredName source) := by
  induction cs with
  | nil => rfl
  | cons c rest ih => cases hc : c.isNamed <;> simp [firstDeclaredName, hc, ih]

theorem declaredName_of_identifier {t : Tree} (h : t.kind = .identifier) :
    t.declaredName source = some (t.text source) := by
  obtain ⟨l, cs⟩ := t
  have hl : l.kind = .identifier := h
  simp only [declaredName, hl]
  rfl

/-- Every form declares what the declarator inside declares. -/
theorem declaredName_eq_inner? {t : Tree} (h : t.kind ≠ .identifier) :
    t.declaredName source = t.inner?.bind (declaredName source) := by
  obtain ⟨l, cs⟩ := t
  have hl : l.kind ≠ .identifier := h
  rw [inner?, child?, kind, label, children, declaredName]
  cases hk : l.kind
  case identifier => exact absurd hk hl
  case parenthesizedDeclarator | attributedDeclarator => exact firstDeclaredName_eq_find? source cs
  all_goals exact innerDeclaredName_eq_playing? source cs

/-- **A declarator declares the identifier it is built around.** -/
theorem declaredName_of_builtAround {ident t : Tree} (h : BuiltAround ident t) :
    t.declaredName source = some (ident.text source) := by
  induction h with
  | identifier hident => exact declaredName_of_identifier source hident
  | form hkind _ hinner _ ih =>
    rw [declaredName_eq_inner? source hkind, hinner, Option.bind_some, ih]

/-! ## The token -/

/-- A node is a token of the text: it has no children, and a text. -/
def IsToken (t : Tree) : Prop :=
  t.children = [] ∧ t.text source ≠ ""

/-- The token that a node makes under a parent of the given kind. -/
def asToken (parent : Option Kind) (t : Tree) : Token :=
  ⟨t.text source, t.kind, t.start.byte, t.stop.byte,
    t.text source = "*" && parent.any Kind.makesPointer⟩

theorem tokens_of_isToken {t : Tree} (h : t.IsToken source) (hkind : t.kind ≠ .comment)
    (parent : Option Kind) : t.tokens source parent = [t.asToken source parent] := by
  obtain ⟨l, cs⟩ := t
  obtain ⟨hcs, htext⟩ := h
  have hl : l.kind ≠ .comment := hkind
  have hslice : Text.slice source l.start.byte l.stop.byte ≠ "" := htext
  obtain rfl : cs = [] := hcs
  simp only [tokens, if_neg hl, leafToken, if_neg hslice]
  rfl

/-- The tokens of a child are among those of its node, one behind the other. -/
theorem tokens_infix_of_mem {t c : Tree} (hkind : t.kind ≠ .comment) (hc : c ∈ t.children)
    (parent : Option Kind) : c.tokens source (some t.kind) <:+: t.tokens source parent := by
  obtain ⟨l, cs⟩ := t
  have hl : l.kind ≠ .comment := hkind
  obtain ⟨before, after, hcs⟩ := List.append_of_mem hc
  obtain rfl : cs = before ++ c :: after := hcs
  refine ⟨tokensOf source (some l.kind) before, tokensOf source (some l.kind) after, ?_⟩
  rw [tokens_node source hl (by simp), tokensOf_append, tokensOf, List.append_assoc]
  rfl

/-- **The identifier that a declarator is built around is one of its tokens.** -/
theorem BuiltAround.token_infix {ident t : Tree} (h : BuiltAround ident t)
    (htoken : ident.IsToken source) (parent : Option Kind) :
    ∃ p, [ident.asToken source p] <:+: t.tokens source parent := by
  induction h generalizing parent with
  | identifier hident =>
    exact ⟨parent, tokens_of_isToken source htoken (by simp [hident]) parent ▸ List.infix_rfl⟩
  | @form outer _ _ hcomment hinner _ ih =>
    obtain ⟨p, hinfix⟩ := ih (some outer.kind)
    have hmem := mem_children_of_inner? hinner
    exact ⟨p, hinfix.trans (tokens_infix_of_mem source hcomment hmem parent)⟩

open Spacing in
/-- **A declarator names the identifier it is built around, and no other**, however all else is
spelled, the identifiers of parameters, sizes and attributes among it. The identifier is the token
of the declarator that stands in the text of the declaration. -/
theorem declaredName_builtAround_exact {ident t : Tree} (h : BuiltAround ident t) :
    t.declaredName source = some (ident.text source) ∧
    (∀ other, BuiltAround other t → other = ident) ∧
    (∀ source', ident.text source' = ident.text source →
      t.declaredName source' = t.declaredName source) ∧
    (ident.IsToken source → ∀ specs d, d.proper? = some t →
      ∃ decl ∈ declarator? source specs d, decl.name = some (ident.text source) ∧
        ∃ front p back gap, (gap = "" ∨ gap = " ") ∧
          t.tokens source (some d.kind) = front ++ ident.asToken source p :: back ∧
          decl.text = render [specs, front] ++ gap ++ ident.text source ++
            renderAfter (ident.asToken source p) back) := by
  have hname := declaredName_of_builtAround source h
  refine ⟨hname, fun other => h.unique, fun source' hsame => ?_, fun htoken specs d hd => ?_⟩
  · rw [declaredName_of_builtAround source' h, hsame, hname]
  · obtain ⟨p, front, back, htokens⟩ := h.token_infix source htoken (some d.kind)
    have hcut : t.tokens source (some d.kind) = front ++ ident.asToken source p :: back := by
      simp [← htokens]
    obtain ⟨g, hg, htext⟩ := render_append_cons specs front (ident.asToken source p) back
    have hdecl : declarator? source specs d = some ⟨t.declaredName source, t.start.row + 1,
        render [specs, t.tokens source (some d.kind)],
        if d.kind = .initDeclarator then (d.child? .value).map (Tree.text source) else none⟩ := by
      rw [declarator?_eq_map_proper?, hd, Option.map_some]
    refine ⟨_, hdecl, hname, front, p, back, g, hg, hcut, ?_⟩
    rw [hcut]
    exact htext

/-- The identifier `f` of `int (*f[n] [[a]])(int x);`. -/
def entryName : Tree :=
  oneLine .identifier (some .declarator) 6 7 []

/-- The declarator of `int (*f[n] [[a]])(int x);`. -/
def entryDeclarator : Tree :=
  oneLine (.other "function_declarator") (some .declarator) 4 24 [
    oneLine .parenthesizedDeclarator (some .declarator) 4 17 [
      oneLine (.token "(") none 4 5 [],
      oneLine .pointerDeclarator none 5 16 [
        oneLine (.token "*") none 5 6 [],
        oneLine .attributedDeclarator (some .declarator) 6 16 [
          oneLine (.other "array_declarator") none 6 10 [
            entryName,
            oneLine (.token "[") none 7 8 [],
            oneLine .identifier none 8 9 [],
            oneLine (.token "]") none 9 10 []],
          oneLine .attributeDeclaration none 11 16 [
            oneLine (.token "[[") none 11 13 [],
            oneLine (.other "attribute") none 13 14 [
              oneLine .identifier (some .name) 13 14 []],
            oneLine (.token "]]") none 14 16 []]]],
      oneLine (.token ")") none 16 17 []],
    oneLine (.other "parameter_list") none 17 24 [
      oneLine (.token "(") none 17 18 [],
      oneLine (.other "parameter_declaration") none 18 23 [
        oneLine (.other "primitive_type") none 18 21 [],
        oneLine .identifier (some .declarator) 22 23 []],
      oneLine (.token ")") none 23 24 []]]

theorem builtAround_entryDeclarator : BuiltAround entryName entryDeclarator :=
  .form (by decide) (by decide) rfl <| .form (by decide) (by decide) rfl <|
    .form (by decide) (by decide) rfl <| .form (by decide) (by decide) rfl <|
      .form (by decide) (by decide) rfl <| .identifier rfl

/-- The entries of a table of functions, whose size, attribute and parameter have names too. -/
theorem declaredName_builtAround_exact_entryDeclarator :
    BuiltAround entryName entryDeclarator ∧
      entryName.IsToken "int (*f[n] [[a]])(int x);" ∧
      entryDeclarator.declaredName "int (*f[p] [[q]])(int r);" = some "f" ∧
      ∃ decl ∈ declarator? "int (*f[n] [[a]])(int x);"
          [⟨"int", .other "primitive_type", 0, 3, false⟩] entryDeclarator,
        decl.name = some "f" ∧ decl.text = "int (*f[n] [[a]])(int x)" := by
  have htoken : entryName.IsToken "int (*f[n] [[a]])(int x);" := ⟨rfl, by decide +kernel⟩
  have hname : entryName.text "int (*f[n] [[a]])(int x);" = "f" := by decide +kernel
  have hsame : entryName.text "int (*f[p] [[q]])(int r);" =
      entryName.text "int (*f[n] [[a]])(int x);" := by decide +kernel
  have htext : (declarator? "int (*f[n] [[a]])(int x);"
      [⟨"int", .other "primitive_type", 0, 3, false⟩] entryDeclarator).map Decl.text =
        some "int (*f[n] [[a]])(int x)" := by decide +kernel
  obtain ⟨hdeclared, -, hrespelled, hwritten⟩ :=
    declaredName_builtAround_exact "int (*f[n] [[a]])(int x);" builtAround_entryDeclarator
  refine ⟨builtAround_entryDeclarator, htoken, by rw [hrespelled _ hsame, hdeclared, hname], ?_⟩
  obtain ⟨decl, hdecl, hdeclName, -⟩ := hwritten htoken _ entryDeclarator rfl
  refine ⟨decl, hdecl, hdeclName.trans (congrArg some hname), ?_⟩
  rw [Option.mem_def.mp hdecl] at htext
  exact Option.some.inj htext

end Tree

end Uninit
