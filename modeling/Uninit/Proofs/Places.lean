import Mathlib.Data.List.Pairwise
import Uninit.Proofs.Walk

/-!
# Where the items of a unit stand

An item stands at a path: the number of an item of the unit, then the number of a child for each
step down. The places of a unit list all its items with their paths in the order of a walk, which
is the lexicographic order of the paths. A declaration can thus be told apart from another one that
says the same, and the findings of a unit can be said without a walk.

## Main definitions

* `TranslationUnit.at?`: the item at a path
* `Place`, `TranslationUnit.places`: an item with its path, and all items of a unit
* `TranslationUnit.occurrences`: the declarations among them

## Main statements

* `TranslationUnit.mem_places`, `TranslationUnit.pairwise_places`: the places are the items of the
  unit, each once and in order
* `findings_occurrences_exact`: the findings and the declarations of a unit by its occurrences
-/
namespace Uninit

/-! ## Children -/

namespace Item

/-- What holds of an item as soon as it holds of its children holds of every item. -/
theorem induct {P : Item → Prop} (item : ∀ i : Item, (∀ c ∈ i.children, P c) → P i)
    (i : Item) : P i := by
  have hnone : ∀ j : Item, j.children = [] → P j := fun j hj => item j (by simp [hj])
  have hone : ∀ j c : Item, j.children = [c] → P c → P j := fun j c hj hc =>
    item j (by simpa [hj] using hc)
  refine Item.rec (motive_1 := P) (motive_2 := fun cs => ∀ c ∈ cs, P c)
    (motive_3 := fun o => ∀ c ∈ o.toList, P c) ?decl ?function ?branch ?forLoop ?whileLoop
    ?doLoop ?switch ?case ?default ?compound ?label ?other ?nil ?cons ?none ?some i
  case decl => exact fun d => hnone _ rfl
  case other => exact hnone _ rfl
  case function => exact fun name line body hbody => item (.function name line body) hbody
  case branch =>
    exact fun c o hc ho => item (.branch c o) (List.forall_mem_cons.mpr ⟨hc, ho⟩)
  case forLoop =>
    intro init body hinit hbody
    refine item (.forLoop init body) fun c hc => ?_
    rcases List.mem_append.mp hc with hc | hc
    · exact hinit c hc
    · rwa [List.mem_singleton.mp hc]
  case whileLoop | doLoop | switch | label => exact fun body hbody => hone _ body rfl hbody
  case case => exact fun stmts hstmts => item (.case stmts) hstmts
  case default => exact fun stmts hstmts => item (.default stmts) hstmts
  case compound => exact fun stmts hstmts => item (.compound stmts) hstmts
  case nil => simp
  case cons => exact fun c rest hc hrest => List.forall_mem_cons.mpr ⟨hc, hrest⟩
  case none => simp
  case some => exact fun c hc => by simpa using hc

/-- An item declares what it says itself, if it is a declaration, and what its children declare. -/
theorem decls_eq_flatMap_children (i : Item) :
    i.decls = (match i with | decl d => [d] | _ => []) ++ i.children.flatMap decls := by
  cases i <;> simp [decls, children, declsOf_eq_flatMap]
  case branch c o => cases o <;> simp [declsOfOption]

end Item

/-! ## Paths -/

/-- An item, with its path: the numbers of the children that lead to it. -/
structure Place where
  path : List ℕ
  item : Item

/-- A place in child number `n`, as a place in the parent. -/
def Place.under (n : ℕ) (p : Place) : Place :=
  { p with path := n :: p.path }

namespace Item

/-- The item at a path below an item, if there is one. -/
def at? (i : Item) : List ℕ → Option Item
  | [] => some i
  | n :: path =>
    match i.children[n]? with
    | some c => c.at? path
    | none => none

mutual

/-- The places of an item and of all items below it, in the order of a walk. -/
def places (i : Item) : List Place :=
  ⟨[], i⟩ :: match i with
    | decl _ | other => []
    | function _ _ body | case body | default body | compound body => placesFrom 0 body
    | branch consequence alternative =>
      (places consequence).map (.under 0) ++ placesOfOption 1 alternative
    | forLoop init body => placesFrom 0 init ++ (places body).map (.under init.length)
    | whileLoop body | doLoop body | switch body | label body => (places body).map (.under 0)

/-- The places of some items, of which the first is number `n`. -/
def placesFrom (n : ℕ) : List Item → List Place
  | [] => []
  | i :: rest => (places i).map (.under n) ++ placesFrom (n + 1) rest

def placesOfOption (n : ℕ) : Option Item → List Place
  | none => []
  | some i => (places i).map (.under n)

end

theorem placesFrom_append (n : ℕ) (items more : List Item) :
    placesFrom n (items ++ more) = placesFrom n items ++ placesFrom (n + items.length) more := by
  induction items generalizing n with
  | nil => simp [placesFrom]
  | cons i rest ih =>
    have hn : n + 1 + rest.length = n + (i :: rest).length := by simp; omega
    rw [List.cons_append, placesFrom, ih, placesFrom, hn, List.append_assoc]

/-- An item stands before its children. -/
theorem places_eq_cons (i : Item) : i.places = ⟨[], i⟩ :: placesFrom 0 i.children := by
  cases i
  case branch c o => cases o <;> simp [places, placesOfOption, children, placesFrom]
  all_goals simp [places, children, placesFrom, placesFrom_append]

theorem mem_placesFrom {n : ℕ} {items : List Item} {p : Place} :
    p ∈ placesFrom n items ↔
      ∃ (k : ℕ) (c : Item), items[k]? = some c ∧ ∃ q ∈ c.places, q.under (n + k) = p := by
  induction items generalizing n with
  | nil => simp [placesFrom]
  | cons i rest ih =>
    rw [placesFrom, List.mem_append, List.mem_map, ih]
    constructor
    · rintro (⟨q, hq, rfl⟩ | ⟨k, c, hc, q, hq, rfl⟩)
      · exact ⟨0, i, rfl, q, hq, rfl⟩
      · exact ⟨k + 1, c, hc, q, hq, by rw [Nat.add_right_comm, Nat.add_assoc]⟩
    · rintro ⟨_ | k, c, hc, q, hq, rfl⟩
      · obtain rfl : i = c := by simpa using hc
        exact .inl ⟨q, hq, rfl⟩
      · exact .inr ⟨k, c, hc, q, hq, by rw [Nat.add_right_comm, Nat.add_assoc]⟩

/-- **The places of an item are the items at its paths.** -/
theorem mem_places {i : Item} {p : Place} : p ∈ i.places ↔ i.at? p.path = some p.item := by
  induction i using induct generalizing p with
  | item i ih =>
    obtain ⟨path, item⟩ := p
    rw [places_eq_cons, List.mem_cons, mem_placesFrom]
    cases path with
    | nil => simp [at?, Place.under, eq_comm]
    | cons n path =>
      have hchild : ∀ c, i.children[n]? = some c →
          (⟨path, item⟩ ∈ c.places ↔ c.at? path = some item) := fun c hc =>
        ih c (List.mem_of_getElem? hc)
      rw [at?]
      constructor
      · rintro (h | ⟨k, c, hc, q, hq, hp⟩)
        · simp at h
        · simp only [Place.under, Nat.zero_add, Place.mk.injEq, List.cons.injEq] at hp
          obtain ⟨⟨rfl, rfl⟩, rfl⟩ := hp
          simpa [hc] using (hchild c hc).mp hq
      · intro h
        cases hc : i.children[n]? with
        | none => simp [hc] at h
        | some c =>
          refine .inr ⟨n, c, hc, ⟨path, item⟩, (hchild c hc).mpr (by simpa [hc] using h), ?_⟩
          simp [Place.under]

theorem pairwise_placesFrom {items : List Item}
    (h : ∀ c ∈ items, c.places.Pairwise fun a b => a.path < b.path) (n : ℕ) :
    (placesFrom n items).Pairwise fun a b => a.path < b.path := by
  induction items generalizing n with
  | nil => exact .nil
  | cons i rest ih =>
    obtain ⟨hi, hrest⟩ := List.forall_mem_cons.mp h
    rw [placesFrom, List.pairwise_append]
    refine ⟨List.pairwise_map.mpr (hi.imp ?_), ih hrest (n + 1), ?_⟩
    · intro a b hab
      simpa [Place.under] using hab
    · intro a ha b hb
      obtain ⟨a, -, rfl⟩ := List.mem_map.mp ha
      obtain ⟨k, c, -, b, -, rfl⟩ := mem_placesFrom.mp hb
      exact List.cons_lt_cons_iff.mpr (.inl (by omega))

/-- **The places of an item are listed in the order of their paths**, each once. -/
theorem pairwise_places (i : Item) : i.places.Pairwise fun a b => a.path < b.path := by
  induction i using induct with
  | item i ih =>
    rw [places_eq_cons, List.pairwise_cons]
    refine ⟨fun p hp => ?_, pairwise_placesFrom ih 0⟩
    obtain ⟨k, c, -, q, -, rfl⟩ := mem_placesFrom.mp hp
    simp [Place.under]

end Item

/-! ## Units -/

namespace TranslationUnit

variable (u : TranslationUnit)

/-- The item of a unit at a path. The unit itself, at the empty path, is no item. -/
def at? : List ℕ → Option Item
  | [] => none
  | n :: path => (u.items[n]?).bind fun i => i.at? path

/-- The places of all items of a unit, in the order of a walk. -/
def places : List Place :=
  Item.placesFrom 0 u.items

theorem mem_places {p : Place} : p ∈ u.places ↔ u.at? p.path = some p.item := by
  obtain ⟨path, item⟩ := p
  rw [places, Item.mem_placesFrom]
  cases path with
  | nil => simp [at?, Place.under]
  | cons n path =>
    simp only [at?, Option.bind_eq_some_iff, ← Item.mem_places (p := ⟨path, item⟩)]
    constructor
    · rintro ⟨k, c, hc, q, hq, hp⟩
      simp only [Place.under, Nat.zero_add, Place.mk.injEq, List.cons.injEq] at hp
      obtain ⟨⟨rfl, rfl⟩, rfl⟩ := hp
      exact ⟨c, hc, hq⟩
    · rintro ⟨c, hc, hq⟩
      exact ⟨n, c, hc, ⟨path, item⟩, hq, by simp [Place.under]⟩

theorem pairwise_places : u.places.Pairwise fun a b => a.path < b.path :=
  Item.pairwise_placesFrom (fun c _ => c.pairwise_places) 0

end TranslationUnit

/-! ## Declarations -/

/-- A declaration with the path at which it stands. -/
structure Occurrence where
  path : List ℕ
  decl : Decl

namespace Place

/-- The declaration that stands at a place, if one does. -/
def decl? (p : Place) : Option Decl :=
  match p.item with
  | .decl d => some d
  | _ => none

/-- A place as the occurrence of a declaration. -/
def occurrence? (p : Place) : Option Occurrence :=
  p.decl?.map fun d => ⟨p.path, d⟩

theorem decl?_eq_some_iff {p : Place} {d : Decl} : p.decl? = some d ↔ p.item = .decl d := by
  obtain ⟨path, item⟩ := p
  cases item <;> simp [decl?]

end Place

namespace Item

theorem filterMap_decl?_placesFrom {items : List Item}
    (h : ∀ c ∈ items, c.places.filterMap Place.decl? = c.decls) (n : ℕ) :
    (placesFrom n items).filterMap Place.decl? = items.flatMap decls := by
  induction items generalizing n with
  | nil => rfl
  | cons i rest ih =>
    obtain ⟨hi, hrest⟩ := List.forall_mem_cons.mp h
    have hunder : Place.decl? ∘ Place.under n = Place.decl? := rfl
    rw [placesFrom, List.filterMap_append, List.filterMap_map, hunder, hi, ih hrest,
      List.flatMap_cons]

/-- The declarations at the places of an item are those that a walk meets. -/
theorem filterMap_decl?_places (i : Item) : i.places.filterMap Place.decl? = i.decls := by
  induction i using induct with
  | item i ih =>
    rw [places_eq_cons, List.filterMap_cons, filterMap_decl?_placesFrom ih,
      decls_eq_flatMap_children]
    cases i <;> rfl

end Item

namespace TranslationUnit

variable (u : TranslationUnit)

/-- The occurrences of declarations in a unit, in the order of a walk. -/
def occurrences : List Occurrence :=
  u.places.filterMap Place.occurrence?

theorem mem_occurrences {o : Occurrence} :
    o ∈ u.occurrences ↔ u.at? o.path = some (.decl o.decl) := by
  obtain ⟨path, d⟩ := o
  simp only [occurrences, List.mem_filterMap, Place.occurrence?, Option.map_eq_some_iff,
    Occurrence.mk.injEq]
  constructor
  · rintro ⟨p, hp, d', hd, rfl, rfl⟩
    rw [(mem_places u).mp hp, Place.decl?_eq_some_iff.mp hd]
  · intro h
    exact ⟨⟨path, .decl d⟩, (mem_places u).mpr h, d, rfl, rfl, rfl⟩

theorem pairwise_occurrences : u.occurrences.Pairwise fun a b => a.path < b.path := by
  refine List.pairwise_filterMap.mpr (u.pairwise_places.imp ?_)
  intro p q hpq a ha b hb
  obtain ⟨_, _, rfl⟩ := Option.map_eq_some_iff.mp ha
  obtain ⟨_, _, rfl⟩ := Option.map_eq_some_iff.mp hb
  exact hpq

theorem map_decl_occurrences : u.occurrences.map Occurrence.decl = Item.declsOf u.items := by
  have hdecl : Place.decl? = fun p => p.occurrence?.map Occurrence.decl := by
    funext p
    simp [Place.occurrence?, Function.comp_def]
  rw [Item.declsOf_eq_flatMap,
    ← Item.filterMap_decl?_placesFrom (fun c _ => c.filterMap_decl?_places) 0, occurrences,
    places, List.map_filterMap, hdecl]

end TranslationUnit

/-- **The findings of a unit are those of its occurrences.** The occurrences are the declarations
that stand at the paths of the unit, each once and in the order of the paths. A visitor with a hook
for declarations alone meets exactly them, and each of them that has no initializer gives one
finding. -/
theorem findings_occurrences_exact (u : TranslationUnit) :
    (∀ o, o ∈ u.occurrences ↔ u.at? o.path = some (.decl o.decl)) ∧
      (u.occurrences.Pairwise fun a b => a.path < b.path) ∧
      (∀ (σ : Type) (hook : Decl → σ → σ) (s : σ),
        ({ onDecl := hook } : Visitor σ).visitUnit s u =
          u.occurrences.foldl (fun s o => hook o.decl s) s) ∧
      Decl.ofUnit u = u.occurrences.map Occurrence.decl ∧
      Finding.ofUnit u = ((u.occurrences.filter fun o => o.decl.initializer.isNone).map
        fun o => ⟨o.decl.line, o.decl.name, o.decl.text⟩) ∧
      Finding.ofUnit u =
        ((Decl.ofUnit u).filter fun d => d.initializer.isNone).map Finding.ofDecl := by
  have hdecls : Item.declsOf u.items = u.occurrences.map Occurrence.decl :=
    u.map_decl_occurrences.symm
  have hfindings : Finding.ofUnit u =
      ((Decl.ofUnit u).filter fun d => d.initializer.isNone).map Finding.ofDecl := by
    rw [Finding.ofUnit_eq_ofDecls, Finding.ofDecls, ← Decl.ofUnit_eq_declsOf]
    simp [Decl.isInitialized]
  refine ⟨fun o => u.mem_occurrences, u.pairwise_occurrences, fun σ hook s => ?_, ?_, ?_,
    hfindings⟩
  · have hmet : ({ onDecl := hook } : Visitor σ).visitUnit s u =
        (Item.declsOf u.items).foldl (fun s d => hook d s) s :=
      Visitor.visitAll_eq_foldl hook s u.items
    rw [hmet, hdecls, List.foldl_map]
  · rw [Decl.ofUnit_eq_declsOf, hdecls]
  · rw [hfindings, Decl.ofUnit_eq_declsOf, hdecls, List.filter_map, List.map_map]
    rfl

/-- The first branch comes before the second one, and the initializers before the body. -/
example : (TranslationUnit.occurrences ⟨[.branch (.decl ⟨some "a", 1, "int a", none⟩)
    (some (.forLoop [.decl ⟨some "i", 2, "int i", some "0"⟩]
      (.decl ⟨some "b", 2, "int b", none⟩)))]⟩).map Occurrence.path =
    [[0, 0], [0, 1, 0], [0, 1, 1]] := by
  decide +kernel

end Uninit
