import Mathlib.Data.List.Basic
import Uninit.Finding.Collect

/-!
# What a walk meets

A visitor that only has a hook for declarations folds that hook over the declarations of what it
visits. `Item.decls` lists these without a visitor, so the findings of a unit and the declarations
of a unit are two views of one list.

## Main definitions

* `Item.decls`, `Item.declsOf`: the declarations of an item and of some items, in source order
* `Finding.ofDecls`: the findings of some declarations
-/
namespace Uninit

namespace Item

mutual

/-- The declarations of an item, in the order of a walk. -/
def decls : Item → List Decl
  | decl d => [d]
  | function _ _ body => declsOf body
  | branch consequence alternative => decls consequence ++ declsOfOption alternative
  | forLoop init body => declsOf init ++ decls body
  | whileLoop body | doLoop body | switch body | label body => decls body
  | case stmts | default stmts | compound stmts => declsOf stmts
  | other => []

def declsOf : List Item → List Decl
  | [] => []
  | item :: rest => decls item ++ declsOf rest

def declsOfOption : Option Item → List Decl
  | none => []
  | some item => decls item

end

theorem declsOf_eq_flatMap (items : List Item) : declsOf items = items.flatMap decls := by
  induction items with
  | nil => rfl
  | cons item rest ih => rw [declsOf, ih, List.flatMap_cons]

/-- Items that are declarations declare themselves. -/
theorem flatMap_decls_map_decl (ds : List Decl) : (ds.map decl).flatMap decls = ds := by
  simp [List.flatMap_map, decls]

end Item

namespace Visitor

variable {σ : Type} (hook : Decl → σ → σ)

mutual

/-- A visitor with a hook for declarations alone runs it on each declaration of the item. -/
theorem visit_eq_foldl (s : σ) :
    ∀ item : Item, ({ onDecl := hook } : Visitor σ).visit s item =
      item.decls.foldl (fun s d => hook d s) s
  | .decl d => by simp [visit, Item.decls]
  | .function _ _ body => by
    simpa [visit, Item.decls] using visitAll_eq_foldl s body
  | .branch consequence alternative => by
    simp [visit, Item.decls, visit_eq_foldl _ consequence, visitOption_eq_foldl _ alternative]
  | .forLoop init body => by
    simp [visit, Item.decls, visitAll_eq_foldl _ init, visit_eq_foldl _ body]
  | .whileLoop body | .doLoop body | .switch body | .label body => by
    rw [visit, Item.decls]
    exact visit_eq_foldl s body
  | .case stmts | .default stmts | .compound stmts => by
    simpa [visit, Item.decls] using visitAll_eq_foldl s stmts
  | .other => by simp [visit, Item.decls]

theorem visitAll_eq_foldl (s : σ) :
    ∀ items : List Item, ({ onDecl := hook } : Visitor σ).visitAll s items =
      (Item.declsOf items).foldl (fun s d => hook d s) s
  | [] => by simp [visitAll, Item.declsOf]
  | item :: rest => by
    simp [visitAll, Item.declsOf, visit_eq_foldl s item, visitAll_eq_foldl _ rest]

theorem visitOption_eq_foldl (s : σ) :
    ∀ item : Option Item, ({ onDecl := hook } : Visitor σ).visitOption s item =
      (Item.declsOfOption item).foldl (fun s d => hook d s) s
  | none => by simp [visitOption, Item.declsOfOption]
  | some item => by simpa [visitOption, Item.declsOfOption] using visit_eq_foldl s item

end

end Visitor

/-- **The declarations of a unit are those of its items.** -/
theorem Decl.ofUnit_eq_declsOf (u : TranslationUnit) : Decl.ofUnit u = Item.declsOf u.items := by
  have h : ∀ (ds met : List Decl), ds.foldl (fun met d => met ++ [d]) met = met ++ ds := by
    intro ds
    induction ds with
    | nil => simp
    | cons d rest ih => intro met; simp [ih]
  simp only [Decl.ofUnit, Decl.lister, Visitor.visitUnit, if_true, Visitor.visitAll_eq_foldl, h,
    List.nil_append]

namespace Finding

/-- The findings of some declarations: one for each that has no initializer. -/
def ofDecls (ds : List Decl) : List Finding :=
  (ds.filter fun d => !d.isInitialized).map ofDecl

@[simp] theorem ofDecls_nil : ofDecls [] = [] := rfl

@[simp] theorem ofDecls_append (ds es : List Decl) :
    ofDecls (ds ++ es) = ofDecls ds ++ ofDecls es := by
  simp [ofDecls]

theorem ofDecls_cons (d : Decl) (ds : List Decl) :
    ofDecls (d :: ds) = if d.isInitialized then ofDecls ds else ofDecl d :: ofDecls ds := by
  by_cases h : d.isInitialized <;> simp [ofDecls, h]

theorem ofDecls_flatMap {α : Type} (f : α → List Decl) (xs : List α) :
    ofDecls (xs.flatMap f) = xs.flatMap fun x => ofDecls (f x) := by
  induction xs with
  | nil => rfl
  | cons x rest ih => rw [List.flatMap_cons, ofDecls_append, ih, List.flatMap_cons]

/-- A collector holds what it held before, and the findings of the declarations that it meets. -/
theorem foldl_onDecl_collector (ds : List Decl) (found : List Finding) :
    ds.foldl (fun found d => collector.onDecl d found) found = found ++ ofDecls ds := by
  induction ds generalizing found with
  | nil => simp
  | cons d rest ih =>
    rw [List.foldl_cons, ih, ofDecls_cons, collector]
    by_cases h : d.isInitialized = true
    · simp [h]
    · simp [h]

theorem visitAll_collector (found : List Finding) (items : List Item) :
    collector.visitAll found items = found ++ ofDecls (Item.declsOf items) :=
  (Visitor.visitAll_eq_foldl collector.onDecl found items).trans (foldl_onDecl_collector _ _)

/-- **The findings of a unit are those of its declarations.** -/
theorem ofUnit_eq_ofDecls (u : TranslationUnit) : ofUnit u = ofDecls (Item.declsOf u.items) :=
  (visitAll_collector [] u.items).trans (List.nil_append _)

/-- A finding of a unit tells of one of its declarations. -/
theorem mem_ofUnit {f : Finding} {u : TranslationUnit} (hf : f ∈ ofUnit u) :
    ∃ d ∈ Decl.ofUnit u, d.isInitialized = false ∧ f = ofDecl d := by
  rw [ofUnit_eq_ofDecls, ofDecls, List.mem_map] at hf
  obtain ⟨d, hd, rfl⟩ := hf
  rw [List.mem_filter] at hd
  exact ⟨d, Decl.ofUnit_eq_declsOf u ▸ hd.1, by simpa using hd.2, rfl⟩

end Finding

end Uninit
