import Mathlib.Data.List.TakeWhile
import Uninit.Proofs.Alike

/-!
# One declaration for each declarator

A declaration with some declarators is split into one declaration for each of them. Each is the
declaration that would be there if the others were not: it has the specifiers and its own declarator
and nothing of the commas, of its siblings or of the values. So the texts stay as they are whatever
values are put in the place of the values, even though all that follows moves in the text.

The specifiers are told from the rest by the place of the first declarator. Where the children of
the declaration stand in the order of the text, these are the children before that declarator.

## Main definitions

* `Tree.heading`: the children of a declaration before its first declarator
* `Tree.AlikeButValues`: two declarations that differ in their values and in their places alone

## Main statements

* `specifiers_of_heading`: the place of a declarator tells the specifiers from the rest
* `declarations_split_exact`: a declaration is split into one declaration for each declarator
-/
namespace Uninit.Tree

variable (source : String)

/-! ## Specifiers -/

def heading (t : Tree) : List Tree :=
  t.children.takeWhile fun c => !c.plays .declarator

/-- The children of a node start one behind the other. -/
def startsRise (t : Tree) : Prop :=
  t.children.Pairwise fun a b => a.start.byte < b.start.byte

instance (t : Tree) : Decidable t.startsRise :=
  inferInstanceAs (Decidable (t.children.Pairwise _))

theorem declarators_append (cs ds : List Tree) :
    declarators (cs ++ ds) = declarators cs ++ declarators ds :=
  List.filter_append cs ds

theorem declarators_cons_of_plays {d : Tree} (h : d.plays .declarator = true) (rest : List Tree) :
    declarators (d :: rest) = d :: declarators rest :=
  List.filter_cons_of_pos h

theorem declarators_heading (t : Tree) : declarators t.heading = [] := by
  refine List.filter_eq_nil_iff.mpr fun c hc => ?_
  have hplays := List.mem_takeWhile_imp hc
  simpa [plays] using hplays

/-- A declaration with a declarator has its heading, the first declarator, and the rest. -/
theorem exists_children_eq {t : Tree} (h : declarators t.children ≠ []) :
    ∃ d rest, t.children = t.heading ++ d :: rest ∧ d.plays .declarator = true := by
  have hsplit : t.heading ++ t.children.dropWhile (fun c => !c.plays .declarator) = t.children :=
    List.takeWhile_append_dropWhile
  cases hrest : t.children.dropWhile (fun c => !c.plays .declarator) with
  | nil =>
    rw [hrest, List.append_nil] at hsplit
    exact absurd (hsplit ▸ declarators_heading t) h
  | cons d rest =>
    have hd := List.head?_dropWhile_not (fun c : Tree => !c.plays .declarator) t.children
    rw [hrest] at hsplit hd
    exact ⟨d, rest, hsplit.symm, by simpa using hd⟩

/-- Nothing behind a node that fails is taken. -/
theorem takeWhile_append_cons {α : Type} {q : α → Bool} {x : α} (hx : ¬q x) (xs ys : List α) :
    (xs ++ x :: ys).takeWhile q = xs.takeWhile q := by
  induction xs with
  | nil => exact List.takeWhile_cons_of_neg hx
  | cons y rest ih => rw [List.cons_append, List.takeWhile_cons, List.takeWhile_cons, ih]

/-- The specifiers stand before the first declarator, and start before it does. -/
theorem specifiers_append_cons {specs : List Tree} {d : Tree} (hspecs : declarators specs = [])
    (hd : d.plays .declarator = true) (rest : List Tree) :
    specifiers (specs ++ d :: rest) = specs.takeWhile fun s => s.start.byte < d.start.byte := by
  have hfirst : declarators (specs ++ d :: rest) = d :: declarators rest := by
    rw [declarators_append, hspecs, List.nil_append, declarators_cons_of_plays hd]
  rw [specifiers, hfirst]
  exact takeWhile_append_cons (by simp) specs rest

/-- The specifiers are the nodes before a declarator that they start before. -/
theorem specifiers_append {specs : List Tree} {d : Tree} (hspecs : declarators specs = [])
    (hd : d.plays .declarator = true) (hbefore : ∀ s ∈ specs, s.start.byte < d.start.byte)
    (rest : List Tree) : specifiers (specs ++ d :: rest) = specs := by
  rw [specifiers_append_cons hspecs hd]
  exact List.takeWhile_eq_self_iff.mpr fun s hs => decide_eq_true (hbefore s hs)

/-- **The children before the first declarator are the specifiers**, also where any one of the
declarators stands alone behind them. -/
theorem specifiers_of_heading {t : Tree} (h : t.startsRise) {d : Tree}
    (hd : d ∈ declarators t.children) (tail : List Tree) :
    specifiers t.children = t.heading ∧ specifiers (t.heading ++ d :: tail) = t.heading := by
  obtain ⟨first, rest, hchildren, hfirst⟩ := exists_children_eq (List.ne_nil_of_mem hd)
  have hplays : d.plays .declarator = true := (List.mem_filter.mp hd).2
  have hmem : d ∈ first :: rest := by
    rw [hchildren, declarators_append, declarators_heading, List.nil_append] at hd
    exact List.mem_of_mem_filter hd
  have hbefore : ∀ s ∈ t.heading, ∀ c ∈ first :: rest, s.start.byte < c.start.byte := by
    rw [startsRise, hchildren, List.pairwise_append] at h
    exact h.2.2
  constructor
  · rw [hchildren]
    exact specifiers_append (declarators_heading t) hfirst
      (fun s hs => hbefore s hs first List.mem_cons_self) rest
  · exact specifiers_append (declarators_heading t) hplays (fun s hs => hbefore s hs d hmem) tail

theorem declarations_of_startsRise {t : Tree} (hkind : t.kind = .declaration)
    (hrise : t.startsRise) :
    declarations source t = (declarators t.children).filterMap
      (declarator? source (tokensOf source (some .declaration) t.heading)) := by
  rw [declarations, hkind]
  cases hdeclarators : declarators t.children with
  | nil => rfl
  | cons d rest =>
    have hd : d ∈ declarators t.children := hdeclarators ▸ List.mem_cons_self
    rw [(specifiers_of_heading hrise hd []).1]

/-! ## Values -/

/-- Two declarators, each over its own text, are alike but for their values: what they declare is
spelled alike, and its tokens stand apart alike. -/
structure DeclaratorAlike (source source' : String) (d e : Tree) : Prop where
  kind : d.kind = e.kind
  proper : Option.Rel (fun u v => Alike source source' u v ∧
    Token.apart (u.tokens source (some d.kind)) = Token.apart (v.tokens source' (some d.kind)))
    d.proper? e.proper?

/-- Two declarations, each over its own text, are alike but for the values of their declarators and
for what stands between the declarators. All can stand at other places, as long as tokens of the
specifiers stand apart alike. -/
structure AlikeButValues (source source' : String) (t u : Tree) : Prop where
  heading : List.Forall₂ (Alike source source') t.heading u.heading
  apart : Token.apart (tokensOf source (some .declaration) t.heading) =
    Token.apart (tokensOf source' (some .declaration) u.heading)
  declarators : List.Forall₂ (DeclaratorAlike source source') (declarators t.children)
    (declarators u.children)

/-- What is said of a declaration beside its line and its initializer. -/
def nameAndText (d : Decl) : Option String × String :=
  (d.name, d.text)

variable {source} {source' : String}

/-- Lists that agree node by node give the same. -/
theorem filterMap_eq_of_forall₂ {α β γ : Type} {R : α → β → Prop} {f : α → Option γ}
    {g : β → Option γ} {xs : List α} {ys : List β} (h : List.Forall₂ R xs ys)
    (hfg : ∀ x y, R x y → f x = g y) : xs.filterMap f = ys.filterMap g := by
  induction h with
  | nil => rfl
  | cons hxy _ ih => rw [List.filterMap_cons, List.filterMap_cons, hfg _ _ hxy, ih]

open Spacing in
/-- Declarators that are alike but for their values declare the same name in the same text. -/
theorem nameAndText_declarator? {specs specs' : List Token} (hspecs : SegmentAlike specs specs')
    {d e : Tree} (h : DeclaratorAlike source source' d e) :
    (declarator? source specs d).map nameAndText =
      (declarator? source' specs' e).map nameAndText := by
  rw [declarator?_eq_map_proper?, declarator?_eq_map_proper?, ← h.kind]
  obtain ⟨-, hproper⟩ := h
  generalize d.proper? = target, e.proper? = target' at hproper
  cases hproper with
  | none => rfl
  | @some u v huv =>
    have htokens : SegmentAlike (u.tokens source (some d.kind)) (v.tokens source' (some d.kind)) :=
      ⟨tokens_alike huv.1 _, huv.2⟩
    have htext := render_congr (.cons hspecs (.cons htokens .nil))
    simp only [Option.map_some, nameAndText, declaredName_alike huv.1, htext]

/-- **No value leaks into a text.** -/
theorem nameAndText_declarations {t u : Tree} (ht : t.kind = .declaration)
    (hu : u.kind = .declaration) (htrise : t.startsRise) (hurise : u.startsRise)
    (h : AlikeButValues source source' t u) :
    (declarations source t).map nameAndText = (declarations source' u).map nameAndText := by
  have hspecs : Spacing.SegmentAlike (tokensOf source (some .declaration) t.heading)
      (tokensOf source' (some .declaration) u.heading) :=
    ⟨tokensOf_alike h.heading _, h.apart⟩
  rw [declarations_of_startsRise source ht htrise, declarations_of_startsRise source' hu hurise,
    List.map_filterMap, List.map_filterMap]
  exact filterMap_eq_of_forall₂ h.declarators fun d e hde => nameAndText_declarator? hspecs hde

/-! ## Splitting -/

/-- Lists of which each node gives something have as much as nodes. -/
theorem forall₂_filterMap {α β : Type} {P : α → β → Prop} {f : α → Option β} {xs : List α}
    (h : ∀ x ∈ xs, ∃ y, f x = some y ∧ P x y) : List.Forall₂ P xs (xs.filterMap f) := by
  induction xs with
  | nil => exact .nil
  | cons x rest ih =>
    obtain ⟨y, hy, hxy⟩ := h x List.mem_cons_self
    rw [List.filterMap_cons_some hy]
    exact .cons hxy (ih fun z hz => h z (List.mem_cons_of_mem x hz))

/-- What a declarator declares is initialized exactly if the declarator has a value. -/
theorem isInitialized_declarator? {specs : List Token} {d : Tree} {decl : Decl}
    (h : declarator? source specs d = some decl) : decl.isInitialized = d.hasInitializer := by
  rw [declarator?_eq_map_proper?] at h
  obtain ⟨target, -, rfl⟩ := Option.map_eq_some_iff.mp h
  by_cases hk : d.kind = .initDeclarator <;> simp [Decl.isInitialized, hasInitializer, hk]

/-- A declarator that stands alone behind the heading gives what it gives among its siblings. -/
theorem declarations_alone {t : Tree} (hrise : t.startsRise) {d : Tree}
    (hd : d ∈ declarators t.children) {l : Label} (hl : l.kind = .declaration) {tail : List Tree}
    (htail : declarators tail = []) :
    declarations source (node l (t.heading ++ d :: tail)) =
      (declarator? source (tokensOf source (some .declaration) t.heading) d).toList := by
  have hplays : d.plays .declarator = true := (List.mem_filter.mp hd).2
  have hone : declarators (t.heading ++ d :: tail) = [d] := by
    rw [declarators_append, declarators_heading, List.nil_append, declarators_cons_of_plays hplays,
      htail]
  rw [declarations, children, hone, (specifiers_of_heading hrise hd tail).2, kind, label, hl,
    List.filterMap_eq_flatMap_toList, List.flatMap_singleton]

/-- **A declaration is split into one declaration for each declarator**, in their order. Each is what
the declaration gives that keeps the specifiers and has this declarator alone, and is initialized
exactly if the declarator has a value; no name and no text depends on the values. -/
theorem declarations_split_exact (source : String) {t : Tree} (hkind : t.kind = .declaration)
    (hrise : t.startsRise)
    (hproper : ∀ d ∈ declarators t.children, d.kind = .initDeclarator →
      (d.child? .declarator).isSome = true) :
    (itemsAs source .item t = (declarations source t).map .decl ∧
      itemsAs source .initializer t = (declarations source t).map .decl ∧
      itemsAs source .statement t = [.compound ((declarations source t).map .decl)]) ∧
    List.Forall₂ (fun d decl =>
        (∀ l tail, l.kind = .declaration → declarators tail = [] →
          declarations source (node l (t.heading ++ d :: tail)) = [decl]) ∧
        decl.isInitialized = d.hasInitializer)
      (declarators t.children) (declarations source t) ∧
    ∀ source' u, u.kind = .declaration → u.startsRise → AlikeButValues source source' t u →
      (declarations source' u).map nameAndText = (declarations source t).map nameAndText := by
  refine ⟨?_, ?_, fun source' u hu hurise h =>
    (nameAndText_declarations hkind hu hrise hurise h).symm⟩
  · obtain ⟨l, cs⟩ := t
    have hl : l.kind = .declaration := hkind
    simp [itemsAs, lower, Lowered.asItems, Lowered.asStatement, kind, label, hl]
  · rw [declarations_of_startsRise source hkind hrise]
    refine forall₂_filterMap fun d hd => ?_
    have hsome : (declarator? source (tokensOf source (some .declaration) t.heading) d).isSome := by
      rw [declarator?_eq_map_proper?, Option.isSome_map, proper?]
      split_ifs with hk
      · exact hproper d hd hk
      · rfl
    obtain ⟨decl, hdecl⟩ := Option.isSome_iff_exists.mp hsome
    refine ⟨decl, hdecl, fun l tail hl htail => ?_, isInitialized_declarator? hdecl⟩
    rw [declarations_alone hrise hd hl htail, hdecl]
    rfl

/-- The tree of `int a=1,b;`, where the value may have any number of characters. -/
def valueTree (n : ℕ) : Tree :=
  oneLine .declaration none 0 (9 + n) [
    oneLine (.other "primitive_type") none 0 3 [],
    oneLine .initDeclarator (some .declarator) 4 (6 + n) [
      oneLine .identifier (some .declarator) 4 5 [],
      oneLine (.token "=") none 5 6 [],
      oneLine (.other "number_literal") (some .value) 6 (6 + n) []],
    oneLine (.token ",") none (6 + n) (7 + n) [],
    oneLine .identifier (some .declarator) (7 + n) (8 + n) [],
    oneLine (.token ";") none (8 + n) (9 + n) []]

theorem alike_oneLine {source source' : String} (k : Kind) (f : Option Field)
    {start stop start' stop' : ℕ}
    (h : Text.slice source start stop = Text.slice source' start' stop') :
    Alike source source' (oneLine k f start stop []) (oneLine k f start' stop' []) :=
  .node rfl rfl (fun _ => h) .nil

/-- A longer value moves the second declarator and changes no text. -/
theorem declarations_split_exact_valueTree :
    (valueTree 1).kind = .declaration ∧ (valueTree 1).startsRise ∧
      (∀ d ∈ declarators (valueTree 1).children, d.kind = .initDeclarator →
        (d.child? .declarator).isSome = true) ∧
      AlikeButValues "int a=1,b;" "int a=10000,b;" (valueTree 1) (valueTree 5) ∧
      (declarations "int a=10000,b;" (valueTree 5)).map nameAndText =
        [(some "a", "int a"), (some "b", "int b")] := by
  have hrise : ∀ n ∈ [1, 5], (valueTree n).startsRise := by decide +kernel
  have hproper : ∀ d ∈ declarators (valueTree 1).children, d.kind = .initDeclarator →
      (d.child? .declarator).isSome = true := by
    decide +kernel
  have halike : AlikeButValues "int a=1,b;" "int a=10000,b;" (valueTree 1) (valueTree 5) := by
    refine ⟨.cons (alike_oneLine _ _ ?_) .nil, ?_, .cons ⟨rfl, .some ⟨alike_oneLine _ _ ?_, ?_⟩⟩
      (.cons ⟨rfl, .some ⟨alike_oneLine _ _ ?_, ?_⟩⟩ .nil)⟩
    all_goals decide +kernel
  refine ⟨rfl, hrise 1 (by simp), hproper, halike, ?_⟩
  rw [(declarations_split_exact "int a=1,b;" rfl (hrise 1 (by simp)) hproper).2.2 _ _ rfl
    (hrise 5 (by simp)) halike]
  decide +kernel

end Uninit.Tree
