import Uninit.Analysis
import Uninit.Proofs.Places

/-!
# Using a collector again and again

One collector can be taken over units, items, declarations, functions and texts, one after the
other. What a step adds depends on the step alone: the findings of the declarations that stand in
the tree of the step, in the order of their paths. So what is held only grows, and it does not
matter through which of its hooks a collector comes to a list of items.

## Main definitions

* `Finding.Step.tree`, `Finding.Step.added`: the tree of a step, and the findings in it
* `Finding.Step.held`: what a collector holds before the first step and after each step

## Main statements

* `Finding.Step.apply_eq_append`: what one step adds
* `Finding.Step.getElem?_held`: what is held after some steps
* `Finding.Step.held_steps_exact`: what a run of steps adds, and which steps add the same
-/
namespace Uninit.Finding.Step

variable (parse : String → Option TranslationUnit) (found : List Finding)

/-! ## One step -/

/-- The tree that a step visits, as a unit. That of a text which cannot be read is empty. -/
def tree : Step → TranslationUnit
  | unit u => u
  | item i => ⟨[i]⟩
  | decl d => ⟨[.decl d]⟩
  | function _ _ body => ⟨body⟩
  | text source => (parse source).getD ⟨[]⟩

/-- The findings of a step: one for each declaration in its tree that has no initializer, in the
order of the paths at which the declarations stand. -/
def added (step : Step) : List Finding :=
  ofDecls ((step.tree parse).occurrences.map Occurrence.decl)

theorem added_eq_ofDecls (step : Step) :
    step.added parse = ofDecls (Item.declsOf (step.tree parse).items) := by
  rw [added, TranslationUnit.map_decl_occurrences]

/-- A collector that is taken over some items adds their findings. -/
theorem visitAll_eq_append (items : List Item) :
    collector.visitAll found items =
      found ++ ofDecls ((TranslationUnit.mk items).occurrences.map Occurrence.decl) := by
  rw [TranslationUnit.map_decl_occurrences]
  exact visitAll_collector found items

/-- **A step adds its findings to what is held**, whatever that is. -/
theorem apply_eq_append (step : Step) :
    step.apply parse found = found ++ step.added parse := by
  cases step with
  | unit u => exact visitAll_eq_append found u.items
  | item i => exact visitAll_eq_append found [i]
  | decl d => exact visitAll_eq_append found [.decl d]
  | function name line body => exact visitAll_eq_append found body
  | text source =>
    rw [apply, added, tree]
    cases parse source with
    | none => exact (List.append_nil found).symm
    | some u => exact visitAll_eq_append found u.items

/-! ## A run of steps -/

/-- What a collector holds before the first step and after each step. -/
def held (steps : List Step) : List (List Finding) :=
  found :: states parse found steps

theorem held_cons (step : Step) (rest : List Step) :
    held parse found (step :: rest) = found :: held parse (step.apply parse found) rest := rfl

theorem length_held (steps : List Step) : (held parse found steps).length = steps.length + 1 := by
  induction steps generalizing found with
  | nil => rfl
  | cons step rest ih => rw [held_cons, List.length_cons, ih, List.length_cons]

/-- **After `n` steps a collector holds what these steps add**, one after the other. -/
theorem getElem?_held {steps : List Step} {n : ℕ} (hn : n ≤ steps.length) :
    (held parse found steps)[n]? = some (found ++ (steps.take n).flatMap (added parse)) := by
  induction steps generalizing found n with
  | nil =>
    obtain rfl : n = 0 := Nat.le_zero.mp hn
    simp [held]
  | cons step rest ih =>
    cases n with
    | zero => simp [held]
    | succ n =>
      have hrest : n ≤ rest.length := Nat.le_of_succ_le_succ hn
      rw [held_cons, List.getElem?_cons_succ, ih _ hrest, apply_eq_append, List.take_succ_cons,
        List.flatMap_cons, List.append_assoc]

/-- What is held before a step is still held at any time later, in front of what has come since. -/
theorem pairwise_held (steps : List Step) :
    (held parse found steps).Pairwise fun a b => a <+: b := by
  rw [List.pairwise_iff_getElem]
  intro m n hm hn hmn
  have hlength := length_held parse found steps
  have hm' := getElem?_held parse found (show m ≤ steps.length by omega)
  have hn' := getElem?_held parse found (show n ≤ steps.length by omega)
  rw [List.getElem?_eq_getElem hm, Option.some_inj] at hm'
  rw [List.getElem?_eq_getElem hn, Option.some_inj] at hn'
  rw [hm', hn']
  obtain ⟨later, hlater⟩ : steps.take m <+: steps.take n :=
    List.take_prefix_take_left (Nat.le_of_lt hmn)
  rw [← hlater, List.flatMap_append, ← List.append_assoc]
  exact List.prefix_append _ _

/-- The unit of a text, if a reader can read it. -/
def unit? (read : Reader) (source : String) : Option TranslationUnit :=
  (read source).toOption

/-- **What a run of steps adds, and which steps add the same.** After each step a collector holds
what it held before, and behind that the findings of the step. A function, an item that is this
function, and a unit of the items in its body add the same, and a text adds what its unit adds. -/
theorem held_steps_exact (read : Reader) (found : List Finding) :
    (∀ steps n step, steps[n]? = some step → ∃ before,
        (held (unit? read) found steps)[n]? = some before ∧
        (held (unit? read) found steps)[n + 1]? = some (before ++ step.added (unit? read))) ∧
      (∀ steps, (held (unit? read) found steps).length = steps.length + 1 ∧
        (held (unit? read) found steps).Pairwise fun a b => a <+: b) ∧
      (∀ name line name' line' body,
        (item (.function name' line' body)).apply (unit? read) found =
          (function name line body).apply (unit? read) found ∧
        (unit ⟨body⟩).apply (unit? read) found =
          (function name line body).apply (unit? read) found) ∧
      (∀ a b, (unit ⟨a ++ b⟩).apply (unit? read) found =
        (unit ⟨b⟩).apply (unit? read) ((unit ⟨a⟩).apply (unit? read) found)) ∧
      (∀ source u, read source = .ok u →
        (text source).apply (unit? read) found = (unit u).apply (unit? read) found) ∧
      ∀ source fault, read source = .error fault →
        (text source).apply (unit? read) found = found := by
  refine ⟨?_, ?_, ?_, ?_, ?_, ?_⟩
  · intro steps n step hstep
    obtain ⟨hn, rfl⟩ := List.getElem?_eq_some_iff.mp hstep
    refine ⟨_, getElem?_held _ found (Nat.le_of_lt hn), ?_⟩
    rw [getElem?_held _ found hn, List.take_succ_eq_append_getElem hn, List.flatMap_append,
      List.flatMap_singleton, List.append_assoc]
  · intro steps
    exact ⟨length_held _ found steps, pairwise_held _ found steps⟩
  · intro name line name' line' body
    simp only [apply_eq_append, added_eq_ofDecls, tree, Item.declsOf, Item.decls, List.append_nil]
    trivial
  · intro a b
    simp only [apply_eq_append, added_eq_ofDecls, tree, Item.declsOf_eq_flatMap,
      List.flatMap_append, ofDecls_append, List.append_assoc]
  · intro source u hu
    have hparse : unit? read source = some u := congrArg Except.toOption hu
    simp only [apply_eq_append, added_eq_ofDecls, tree, hparse, Option.getD_some]
  · intro source fault hfault
    have hparse : unit? read source = none := congrArg Except.toOption hfault
    rw [apply, hparse]

/-- A reader of one text, which misses the end of every other. -/
def oneTextReader : Reader := fun source =>
  if source = "int a;" then .ok ⟨[.decl ⟨some "a", 1, "int a", none⟩]⟩
  else .error ⟨1, 13, .missing ";"⟩

/-- A function with two declarations, of which one is initialized. -/
def functionStep : Step :=
  function (some "f") 2
    [.decl ⟨some "b", 3, "int b", some "0"⟩, .label (.compound [.decl ⟨some "c", 4, "int c", none⟩])]

/-- A text that cannot be read adds nothing between a text and a function. -/
theorem held_steps_exact_oneTextReader :
    oneTextReader "int a; int b" = .error ⟨1, 13, .missing ";"⟩ ∧
      (text "int a; int b").apply (unit? oneTextReader) [⟨1, some "a", "int a"⟩] =
        [⟨1, some "a", "int a"⟩] ∧
      (held (unit? oneTextReader) [] [text "int a;", text "int a; int b", functionStep])[3]? =
        some [⟨1, some "a", "int a"⟩, ⟨4, some "c", "int c"⟩] := by
  refine ⟨rfl, (held_steps_exact oneTextReader _).2.2.2.2.2 _ _ rfl, ?_⟩
  obtain ⟨before, hbefore, hafter⟩ := (held_steps_exact oneTextReader []).1
    [text "int a;", text "int a; int b", functionStep] 2 functionStep rfl
  obtain rfl : [⟨1, some "a", "int a"⟩] = before := Option.some.inj hbefore
  exact hafter

end Uninit.Finding.Step
