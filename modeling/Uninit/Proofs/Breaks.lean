import Uninit.Grammar.Syntax
import Uninit.Proofs.Comments
import Uninit.Proofs.Lines
import Uninit.Proofs.Markers

/-!
# Line feeds in reports

A text report has one line for each finding as long as no text of a finding holds a line feed. The
texts are made of tokens and blanks, so that a line feed in a text comes from a token: from the end
of a condition inside a tag specifier, or from a line that is continued inside a token.

## Main definitions

* `Tree.leaves`: the nodes that are the tokens of a node
* `Site.written`: the nodes that the texts of a site are made of

## Main statements

* `Spacing.notMem_render`: what is written holds nothing but the tokens and blanks
* `lines_report_iff`: when a report has one line for each finding
* `lines_report_brokenText`: a text whose report has more lines than findings
-/
namespace Uninit

/-! ## Reports -/

namespace Finding

/-- The number of a finding is written with digits alone. -/
theorem notMem_render (f : Finding) : '\n' ∉ f.render.toList ↔ '\n' ∉ f.text.toList := by
  have hdigits : '\n' ∉ Nat.toDigits 10 f.line := Marker.notMem_toDigits (by decide) f.line
  simp [render, hdigits]

end Finding

theorem Format.toList_report_text (findings : List Finding) :
    (Format.text.report findings).toList =
      Text.unlines (findings.map fun f => f.render.toList) := by
  simp [report, pieces, String.toList_join, Text.unlines_eq_flatMap, List.flatMap_map]

/-- **A text report has one line for each finding** exactly if no text holds a line feed. -/
theorem Format.splitFeeds_report_text_iff (findings : List Finding) :
    Text.splitFeeds (Format.text.report findings).toList =
        (findings.map fun f => f.render.toList) ++ [[]] ↔
      ∀ f ∈ findings, '\n' ∉ f.text.toList := by
  rw [toList_report_text, Text.splitFeeds_unlines_iff, List.forall_mem_map]
  simp only [Finding.notMem_render]

/-! ## Texts -/

namespace Spacing

variable {c : Char} (hc : c ≠ ' ')
include hc

theorem notMem_gap (border : Bool) (previous next : Token) :
    c ∉ (gap border previous next).toList := by
  rw [gap]
  split <;> simp [hc]

theorem notMem_renderAfter (previous : Token) (ts : List Token) :
    c ∉ (renderAfter previous ts).toList ↔ ∀ t ∈ ts, c ∉ t.text.toList := by
  induction ts generalizing previous with
  | nil => simp [renderAfter]
  | cons t rest ih => simp [renderAfter, notMem_gap hc, ih]

theorem notMem_renderSegment (previous : Option Token) (ts : List Token) :
    c ∉ (renderSegment previous ts).toList ↔ ∀ t ∈ ts, c ∉ t.text.toList := by
  cases ts with
  | nil => simp [renderSegment]
  | cons t rest =>
    cases previous <;> simp [renderSegment, notMem_gap hc, notMem_renderAfter hc]

theorem notMem_renderFrom (previous : Option Token) (segments : List (List Token)) :
    c ∉ (renderFrom previous segments).toList ↔
      ∀ segment ∈ segments, ∀ t ∈ segment, c ∉ t.text.toList := by
  induction segments generalizing previous with
  | nil => simp [renderFrom]
  | cons segment rest ih => simp [renderFrom, notMem_renderSegment hc, ih]

/-- **Nothing is written but tokens and blanks.** -/
theorem notMem_render (segments : List (List Token)) :
    c ∉ (render segments).toList ↔
      ∀ segment ∈ segments, ∀ t ∈ segment, c ∉ t.text.toList :=
  notMem_renderFrom hc none segments

end Spacing

namespace Tree

variable (source : String)

mutual

/-- The nodes that are the tokens of a node: those without children that stand in no comment. -/
def leaves : Tree → List Tree
  | node l cs =>
    if l.kind = .comment then []
    else match cs with
      | [] => [node l []]
      | c :: rest => leaves c ++ leavesOf rest

def leavesOf : List Tree → List Tree
  | [] => []
  | t :: rest => leaves t ++ leavesOf rest

end

theorem leavesOf_eq_flatMap (cs : List Tree) : leavesOf cs = cs.flatMap leaves := by
  induction cs with
  | nil => rfl
  | cons c rest ih => rw [leavesOf, ih, List.flatMap_cons]

/-- The tokens of a node with children are those of its children. -/
theorem leaves_node {l : Label} {cs : List Tree} (hl : l.kind ≠ .comment) (hcs : cs ≠ []) :
    (node l cs).leaves = cs.flatMap leaves := by
  cases cs with
  | nil => exact absurd rfl hcs
  | cons c rest =>
    rw [List.flatMap_cons, ← leavesOf_eq_flatMap]
    simp only [leaves, if_neg hl]

theorem notMem_leafToken (c : Char) (parent : Option Kind) (l : Label) :
    (∀ tok ∈ leafToken source parent l, c ∉ tok.text.toList) ↔
      c ∉ (Text.slice source l.start.byte l.stop.byte).toList := by
  rw [leafToken]
  split
  case isTrue h => simp [h]
  case isFalse => simp

/-- The tokens of a node are written as the leaves stand in the source. -/
theorem notMem_tokens (c : Char) (parent : Option Kind) (t : Tree) :
    (∀ tok ∈ t.tokens source parent, c ∉ tok.text.toList) ↔
      ∀ leaf ∈ t.leaves, c ∉ (leaf.text source).toList := by
  induction t using induct generalizing parent with
  | node l cs ih =>
    by_cases hl : l.kind = .comment
    · have hcomment : (node l cs).isComment = true := isComment_node.mpr hl
      have hleaves : (node l cs).leaves = [] := by
        rw [leaves.eq_def]
        exact if_pos hl
      simp [tokens_of_isComment source hcomment, hleaves]
    · by_cases hcs : cs = []
      · subst cs
        simp only [tokens, leaves, if_neg hl, List.forall_mem_singleton]
        exact notMem_leafToken source c parent l
      · rw [tokens_node source hl hcs, tokensOf_eq_flatMap, leaves_node hl hcs]
        simp only [List.forall_mem_flatMap]
        exact forall₂_congr fun d hd => ih d hd _

/-- A token of the node holds a line feed. -/
def isBroken (t : Tree) : Bool :=
  t.leaves.any fun leaf => decide ('\n' ∈ (leaf.text source).toList)

theorem isBroken_eq_false_iff (parent : Option Kind) (t : Tree) :
    t.isBroken source = false ↔ ∀ tok ∈ t.tokens source parent, '\n' ∉ tok.text.toList := by
  rw [notMem_tokens, isBroken]
  simp

/-! ## Sites -/

/-- The nodes that the text of a declarator is made of: the specifiers of its declaration and the
declarator proper. -/
def writtenFor (t d : Tree) : List Tree :=
  d.proper?.elim [] fun target => specifiers t.children ++ [target]

/-- The nodes that the texts of a site are made of. -/
def Site.written (site : Site) : List Tree :=
  if site.role = .body then []
  else if site.tree.kind = .declaration then
    (declarators site.tree.children).flatMap (writtenFor site.tree)
  else if site.role = .item ∧ site.tree.kind.isTag then [site.tree]
  else []

theorem notMem_render_declarator (t target : Tree) (parent : Option Kind) :
    '\n' ∉ (Spacing.render [tokensOf source (some t.kind) (specifiers t.children),
        target.tokens source parent]).toList ↔
      ∀ n ∈ specifiers t.children ++ [target], n.isBroken source = false := by
  rw [Spacing.notMem_render (by decide), tokensOf_eq_flatMap]
  simp only [List.forall_mem_cons, List.forall_mem_flatMap, List.forall_mem_append,
    ← isBroken_eq_false_iff]
  simp

theorem notMem_declarator? (t d : Tree) :
    (∀ decl ∈ declarator? source (tokensOf source (some t.kind) (specifiers t.children)) d,
        '\n' ∉ decl.text.toList) ↔
      ∀ n ∈ writtenFor t d, n.isBroken source = false := by
  rw [declarator?_eq_map_proper?, writtenFor]
  cases d.proper? with
  | none => simp
  | some target => simpa using notMem_render_declarator source t target (some d.kind)

theorem notMem_declarations (t : Tree) :
    (∀ decl ∈ declarations source t, '\n' ∉ decl.text.toList) ↔
      ∀ n ∈ (declarators t.children).flatMap (writtenFor t), n.isBroken source = false := by
  rw [declarations, List.filterMap_eq_flatMap_toList]
  simp only [List.forall_mem_flatMap, Option.mem_toList]
  exact forall₂_congr fun d _ => notMem_declarator? source t d

theorem notMem_tagDeclaration (t : Tree) :
    '\n' ∉ (tagDeclaration source t).text.toList ↔ t.isBroken source = false := by
  rw [tagDeclaration, Spacing.notMem_render (by decide), isBroken_eq_false_iff source none]
  simp

/-- A text of a site holds a line feed exactly if a token does that it is made of. -/
theorem notMem_decls (site : Site) :
    (∀ d ∈ site.decls source, '\n' ∉ d.text.toList) ↔
      ∀ n ∈ site.written, n.isBroken source = false := by
  rw [Site.decls, ownDecls, Site.written]
  split_ifs
  · simp
  · exact notMem_declarations source site.tree
  · simpa using notMem_tagDeclaration source site.tree
  · simp

/-- The texts of a unit, by the sites of its tree. -/
theorem notMem_ofUnit (t : Tree) :
    (∀ d ∈ Decl.ofUnit (t.unit source), '\n' ∉ d.text.toList) ↔
      ∀ site ∈ t.sites, ∀ n ∈ site.written, n.isBroken source = false := by
  rw [Decl.ofUnit_eq_declsOf]
  simp only [(declsOf_unit source t).1.mem_iff, List.forall_mem_flatMap]
  exact forall₂_congr fun site _ => notMem_decls source site

/-- **When a report has one line for each finding.** No text of a unit holds a line feed, and so the
text report of its findings has exactly one line for each, exactly if no token that its texts are
made of holds one. For the report alone the texts of the findings are what counts. -/
theorem lines_report_iff (t : Tree) :
    ((∀ d ∈ Decl.ofUnit (t.unit source), '\n' ∉ d.text.toList) ∧
        Text.splitFeeds (Format.text.report (Finding.ofUnit (t.unit source))).toList =
          ((Finding.ofUnit (t.unit source)).map fun f => f.render.toList) ++ [[]] ↔
      ∀ site ∈ t.sites, ∀ n ∈ site.written, n.isBroken source = false) ∧
    (Text.splitFeeds (Format.text.report (Finding.ofUnit (t.unit source))).toList =
        ((Finding.ofUnit (t.unit source)).map fun f => f.render.toList) ++ [[]] ↔
      ∀ f ∈ Finding.ofUnit (t.unit source), '\n' ∉ f.text.toList) := by
  have hfindings : (∀ d ∈ Decl.ofUnit (t.unit source), '\n' ∉ d.text.toList) →
      ∀ f ∈ Finding.ofUnit (t.unit source), '\n' ∉ f.text.toList := by
    intro h f hf
    obtain ⟨d, hd, -, rfl⟩ := Finding.mem_ofUnit hf
    exact h d hd
  rw [Format.splitFeeds_report_text_iff, ← notMem_ofUnit]
  exact ⟨and_iff_left_of_imp hfindings, Iff.rfl⟩

example : ∀ site ∈ branchTree.sites, ∀ n ∈ site.written,
    n.isBroken "if(x)for(int i;;);else\x7bint b=0,c;\x7d" = false := by
  decide +kernel

/-- A tag with a member that depends on a condition. -/
def brokenText : String :=
  "struct s\x7b\n#if A\nint x;\n#endif\n\x7d;"

/-- Its finding: the token that ends the condition is a line feed. -/
def brokenFinding : Finding :=
  ⟨1, none, "struct s\x7b #if A\nint x; #endif \x7d"⟩

/-- A text that is read, and whose report has two lines for one finding. -/
theorem lines_report_brokenText :
    ∃ u, Grammar.read brokenText = .ok u ∧ Finding.ofUnit u = [brokenFinding] ∧
      (∃ d ∈ Decl.ofUnit u, '\n' ∈ d.text.toList) ∧
      (Text.lines (Format.text.report (Finding.ofUnit u)).toList).length = 2 := by
  have hread : (Grammar.read brokenText).toOption.map Finding.ofUnit = some [brokenFinding] := by
    decide +kernel
  cases h : Grammar.read brokenText with
  | error fault =>
    rw [h] at hread
    cases hread
  | ok u =>
    rw [h] at hread
    have hfindings : Finding.ofUnit u = [brokenFinding] := Option.some.inj hread
    have hmem : brokenFinding ∈ Finding.ofUnit u := by simp [hfindings]
    obtain ⟨d, hd, -, hfinding⟩ := Finding.mem_ofUnit hmem
    have htext : d.text = brokenFinding.text := (congrArg Finding.text hfinding).symm
    refine ⟨u, rfl, hfindings, ⟨d, hd, ?_⟩, ?_⟩
    · rw [htext]
      decide +kernel
    · rw [hfindings]
      decide +kernel

end Tree

end Uninit
