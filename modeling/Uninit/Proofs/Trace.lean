import Mathlib.Data.List.Basic
import Uninit.Proofs.Places

/-!
# What a pruned walk leaves out

A walk that prunes nothing meets the unit and then every item in the order of the paths, with the
event of its own hook directly behind it. A mark is one of these events together with the place
where it arises, so it can be said which events lie inside another one. A walk that prunes leaves
out exactly the events inside a pruned event, and the others keep their order.

## Main definitions

* `TranslationUnit.marks`: the events of a walk that prunes nothing, with their places
* `Mark.IsInside`: one event lies inside another one
* `Mark.IsKept`: an event lies inside no event at which the walk stops

## Main statements

* `Event.visit_recorder`: the events of an item in a walk that prunes
* `events_prune_exact`: the events of a unit, by its marks
-/
namespace Uninit

/-! ## The walk by children -/

namespace Visitor

variable {σ : Type} (v : Visitor σ)

theorem visitAll_append (s : σ) (items more : List Item) :
    v.visitAll s (items ++ more) = v.visitAll (v.visitAll s items) more := by
  induction items generalizing s with
  | nil => rfl
  | cons i rest ih => exact ih (v.visit s i)

/-- Go into an item: call the hook for its kind, if there is one, and visit its children. -/
def enter (s : σ) : Item → σ
  | .decl d => v.onDecl d s
  | .function name line body => v.visitFunction s name line body
  | i => v.visitAll s i.children

/-- An item is visited by its hook and, unless the hook stops, by going into it. -/
theorem visit_eq_enter (s : σ) (i : Item) :
    v.visit s i = if (v.onItem i s).2 then v.enter (v.onItem i s).1 i else (v.onItem i s).1 := by
  rw [visit]
  cases i
  case branch c o => cases o <;> rfl
  case forLoop init body => exact congrArg (ite _ · _) (v.visitAll_append _ init [body]).symm
  all_goals rfl

end Visitor

/-- The event of the hook for the kind of an item: declarations and functions have such a hook. -/
def Item.hookEvents : Item → List Event
  | decl d => [.decl d.name d.line d.isInitialized]
  | function name line body => [.function name line body.length]
  | _ => []

/-- Whether a walk stops at an event, and does not enter what lies inside it. -/
def Prune.stops (p : Prune) : Event → Bool
  | .unit => p.unit
  | .item kind => p.kinds.contains kind
  | .decl .. => false
  | .function .. => p.functionBodies

namespace Event

variable (p : Prune)

theorem onUnit_recorder (s : List Event) (u : TranslationUnit) :
    (recorder p).onUnit u s = (s ++ [.unit], !p.stops .unit) := rfl

theorem onItem_recorder (s : List Event) (i : Item) :
    (recorder p).onItem i s = (s ++ [.item i.kind], !p.stops (.item i.kind)) := rfl

/-- Going into an item, the recorder notes its hook and then visits the children, unless it stops
at the hook. -/
theorem enter_recorder (s : List Event) (i : Item) :
    (recorder p).enter s i =
      if i.hookEvents.any p.stops then s ++ i.hookEvents
      else (recorder p).visitAll (s ++ i.hookEvents) i.children := by
  cases i
  case decl d => rfl
  case function name line body =>
    cases h : p.functionBodies <;>
      simp [Visitor.enter, Visitor.visitFunction, recorder, Item.hookEvents, Item.children,
        Prune.stops, h]
  all_goals simp [Visitor.enter, Item.hookEvents, Item.children]

theorem visit_recorder_step (s : List Event) (i : Item) :
    (recorder p).visit s i =
      if p.stops (.item i.kind) then s ++ [.item i.kind]
      else if i.hookEvents.any p.stops then s ++ .item i.kind :: i.hookEvents
      else (recorder p).visitAll (s ++ .item i.kind :: i.hookEvents) i.children := by
  rw [Visitor.visit_eq_enter, onItem_recorder, enter_recorder]
  cases p.stops (.item i.kind) <;> simp

end Event

/-! ## Marks -/

/-- An event of a walk, with the place where it arises. The unit stands at the empty path. -/
structure Mark where
  /-- The path of the item. -/
  path : List ℕ
  /-- The event comes from the hook for the kind of the item. -/
  ofHook : Bool
  event : Event

namespace Mark

/-- A mark of child number `n`, as a mark of the parent. -/
def under (n : ℕ) (m : Mark) : Mark :=
  { m with path := n :: m.path }

/-- An event lies inside another one: it belongs to an item further down, or it is the event of the
hook for the same item. -/
def IsInside (m outer : Mark) : Prop :=
  outer.path <+: m.path ∧ (m.path = outer.path → m.ofHook = true ∧ outer.ofHook = false)

instance (m outer : Mark) : Decidable (m.IsInside outer) :=
  inferInstanceAs (Decidable (_ ∧ _))

/-- An event lies inside none of the marks at which a walk stops. -/
def IsKept (p : Prune) (marks : List Mark) (m : Mark) : Prop :=
  ∀ outer ∈ marks, p.stops outer.event = true → ¬ m.IsInside outer

instance (p : Prune) (marks : List Mark) (m : Mark) : Decidable (m.IsKept p marks) :=
  inferInstanceAs (Decidable (∀ outer ∈ marks, _))

end Mark

/-- The marks of the item at a place. -/
def Place.marks (q : Place) : List Mark :=
  ⟨q.path, false, .item q.item.kind⟩ :: q.item.hookEvents.map fun e => ⟨q.path, true, e⟩

/-- The marks of some items, of which the first is number `n`. -/
def Item.marksFrom (n : ℕ) (items : List Item) : List Mark :=
  (placesFrom n items).flatMap Place.marks

def Item.marks (i : Item) : List Mark :=
  i.places.flatMap Place.marks

def TranslationUnit.marks (u : TranslationUnit) : List Mark :=
  ⟨[], false, .unit⟩ :: u.places.flatMap Place.marks

namespace Item

theorem marks_eq_append (i : Item) :
    i.marks = Place.marks ⟨[], i⟩ ++ marksFrom 0 i.children := by
  rw [marks, places_eq_cons, List.flatMap_cons, marksFrom]

theorem marksFrom_cons (n : ℕ) (i : Item) (rest : List Item) :
    marksFrom n (i :: rest) = i.marks.map (Mark.under n) ++ marksFrom (n + 1) rest := by
  have hunder : (fun q => Place.marks (Place.under n q)) =
      fun q => (Place.marks q).map (Mark.under n) := by
    funext q
    simp [Place.marks, Place.under, Mark.under, Function.comp_def]
  rw [marksFrom, placesFrom, List.flatMap_append, List.flatMap_map, hunder, ← List.map_flatMap]
  rfl

/-- The marks of some items lie below the numbers of the items. -/
theorem exists_path_of_mem_marksFrom {n : ℕ} {items : List Item} {m : Mark}
    (h : m ∈ marksFrom n items) : ∃ k path, n ≤ k ∧ m.path = k :: path := by
  obtain ⟨q, hq, hm⟩ := List.mem_flatMap.mp h
  obtain ⟨k, c, -, r, -, rfl⟩ := mem_placesFrom.mp hq
  refine ⟨n + k, r.path, by omega, ?_⟩
  rw [Place.marks, List.mem_cons, List.mem_map] at hm
  rcases hm with rfl | ⟨e, -, rfl⟩ <;> rfl

end Item

/-! ## What is kept -/

namespace Mark

variable {p : Prune}

theorem isInside_under (n : ℕ) (m outer : Mark) :
    (m.under n).IsInside (outer.under n) ↔ m.IsInside outer := by
  simp [IsInside, under]

/-- Events below different children do not lie inside each other. -/
theorem not_isInside {m outer : Mark} {k n : ℕ} {path rest : List ℕ} (hm : m.path = k :: path)
    (houter : outer.path = n :: rest) (h : k ≠ n) : ¬ m.IsInside outer := by
  simp [IsInside, hm, houter, h.symm]

theorem isKept_append {marks more : List Mark} {m : Mark} :
    m.IsKept p (marks ++ more) ↔ m.IsKept p marks ∧ m.IsKept p more := by
  simp only [IsKept, List.forall_mem_append]

theorem isKept_cons {outer : Mark} {marks : List Mark} {m : Mark} :
    m.IsKept p (outer :: marks) ↔
      (p.stops outer.event = true → ¬ m.IsInside outer) ∧ m.IsKept p marks := by
  simp only [IsKept, List.forall_mem_cons]

theorem isKept_under {n : ℕ} {marks : List Mark} {m : Mark} :
    (m.under n).IsKept p (marks.map (under n)) ↔ m.IsKept p marks := by
  simp only [IsKept, List.forall_mem_map, isInside_under]
  rfl

theorem isKept_of_outside {marks : List Mark} {m : Mark}
    (h : ∀ outer ∈ marks, ¬ m.IsInside outer) : m.IsKept p marks :=
  fun outer houter _ => h outer houter

end Mark

/-- The events of the marks that are kept among themselves. -/
def keptEvents (p : Prune) (marks : List Mark) : List Event :=
  (marks.filter fun m => m.IsKept p marks).map Mark.event

variable {p : Prune}

theorem keptEvents_map_under (n : ℕ) (marks : List Mark) :
    keptEvents p (marks.map (.under n)) = keptEvents p marks := by
  simp only [keptEvents, List.filter_map, Function.comp_def, Mark.isKept_under, List.map_map]
  rfl

/-- Marks that do not lie inside each other are kept apart. -/
theorem keptEvents_append {marks more : List Mark}
    (h : ∀ m ∈ marks, ∀ n ∈ more, ¬ m.IsInside n ∧ ¬ n.IsInside m) :
    keptEvents p (marks ++ more) = keptEvents p marks ++ keptEvents p more := by
  have hmarks : ∀ m ∈ marks, decide (m.IsKept p (marks ++ more)) = decide (m.IsKept p marks) := by
    intro m hm
    have hmore : m.IsKept p more := Mark.isKept_of_outside fun n hn => (h m hm n hn).1
    simp [Mark.isKept_append, hmore]
  have hmore : ∀ n ∈ more, decide (n.IsKept p (marks ++ more)) = decide (n.IsKept p more) := by
    intro n hn
    have hmarks : n.IsKept p marks := Mark.isKept_of_outside fun m hm => (h m hm n hn).2
    simp [Mark.isKept_append, hmarks]
  rw [keptEvents, List.filter_append, List.filter_congr hmarks, List.filter_congr hmore,
    List.map_append]
  rfl

/-- Marks inside an outer one are kept unless the walk stops at that one. -/
theorem keptEvents_cons {m : Mark} {inner : List Mark}
    (h : ∀ n ∈ inner, n.IsInside m ∧ ¬ m.IsInside n) :
    keptEvents p (m :: inner) =
      m.event :: if p.stops m.event then [] else keptEvents p inner := by
  have hself : ¬ m.IsInside m := by simp [Mark.IsInside]
  have hm : m.IsKept p (m :: inner) :=
    Mark.isKept_of_outside (List.forall_mem_cons.mpr ⟨hself, fun n hn => (h n hn).2⟩)
  have hinner : ∀ n ∈ inner, decide (n.IsKept p (m :: inner)) =
      (!p.stops m.event && decide (n.IsKept p inner)) := by
    intro n hn
    have hkept : n.IsKept p (m :: inner) ↔ p.stops m.event = false ∧ n.IsKept p inner := by
      simp [Mark.isKept_cons, (h n hn).1]
    simp [hkept]
  rw [keptEvents, List.filter_cons_of_pos (by simpa using hm), List.map_cons,
    List.filter_congr hinner]
  cases p.stops m.event <;> simp [keptEvents]

/-! ## Items and units -/

namespace Item

theorem keptEvents_marksFrom (n : ℕ) (items : List Item) :
    keptEvents p (marksFrom n items) = items.flatMap fun i => keptEvents p i.marks := by
  induction items generalizing n with
  | nil => rfl
  | cons i rest ih =>
    rw [marksFrom_cons, keptEvents_append, keptEvents_map_under, ih, List.flatMap_cons]
    intro m hm m' hm'
    obtain ⟨own, -, rfl⟩ := List.mem_map.mp hm
    obtain ⟨k, path, hk, hpath⟩ := exists_path_of_mem_marksFrom hm'
    have hne : n ≠ k := by omega
    exact ⟨Mark.not_isInside rfl hpath hne, Mark.not_isInside hpath rfl hne.symm⟩

/-- The children of an item lie inside every mark of the item itself. -/
theorem isInside_of_mem_marksFrom {n : ℕ} {items : List Item} {m : Mark}
    (hm : m ∈ marksFrom n items) {outer : Mark} (houter : outer.path = []) :
    m.IsInside outer ∧ ¬ outer.IsInside m := by
  obtain ⟨k, path, -, hpath⟩ := exists_path_of_mem_marksFrom hm
  simp [Mark.IsInside, hpath, houter]

/-- What is kept of an item: its own event, that of its hook unless the walk stops at the item, and
what is kept of its children unless it stops at either. -/
theorem keptEvents_marks (i : Item) :
    keptEvents p i.marks = .item i.kind ::
      if p.stops (.item i.kind) then []
      else i.hookEvents ++ if i.hookEvents.any p.stops then []
        else i.children.flatMap fun c => keptEvents p c.marks := by
  have hinside : ∀ m ∈ i.hookEvents.map (fun e => Mark.mk [] true e) ++ marksFrom 0 i.children,
      m.IsInside ⟨[], false, .item i.kind⟩ ∧ ¬ Mark.IsInside ⟨[], false, .item i.kind⟩ m := by
    intro m hm
    rcases List.mem_append.mp hm with hm | hm
    · obtain ⟨e, -, rfl⟩ := List.mem_map.mp hm
      simp [Mark.IsInside]
    · exact isInside_of_mem_marksFrom hm rfl
  rw [← keptEvents_marksFrom 0, marks_eq_append, Place.marks, List.cons_append,
    keptEvents_cons hinside]
  congr 2
  -- there is at most one hook, and the children lie inside its event
  have hhook : ∀ e, keptEvents p (⟨[], true, e⟩ :: marksFrom 0 i.children) =
      e :: if p.stops e then [] else keptEvents p (marksFrom 0 i.children) := fun e =>
    keptEvents_cons fun m hm => isInside_of_mem_marksFrom hm rfl
  cases i <;> simp [hookEvents, hhook]

end Item

namespace Event

variable (p)

theorem visitAll_recorder {items : List Item}
    (h : ∀ c ∈ items, ∀ s, (recorder p).visit s c = s ++ keptEvents p c.marks)
    (s : List Event) :
    (recorder p).visitAll s items = s ++ items.flatMap fun c => keptEvents p c.marks := by
  induction items generalizing s with
  | nil => simp [Visitor.visitAll]
  | cons c rest ih =>
    obtain ⟨hc, hrest⟩ := List.forall_mem_cons.mp h
    rw [Visitor.visitAll, hc, ih hrest, List.flatMap_cons, List.append_assoc]

/-- **A walk that prunes notes what is kept of an item.** -/
theorem visit_recorder (s : List Event) (i : Item) :
    (recorder p).visit s i = s ++ keptEvents p i.marks := by
  induction i using Item.induct generalizing s with
  | item i ih =>
    have hchildren := visitAll_recorder p fun c hc s => ih c hc s
    rw [visit_recorder_step, hchildren, Item.keptEvents_marks]
    cases p.stops (.item i.kind) <;> cases i.hookEvents.any p.stops <;> simp

/-- A walk that prunes notes what is kept of a unit. -/
theorem ofUnit_eq_keptEvents (u : TranslationUnit) : ofUnit p u = keptEvents p u.marks := by
  have hinside : ∀ m ∈ Item.marksFrom 0 u.items,
      m.IsInside ⟨[], false, .unit⟩ ∧ ¬ Mark.IsInside ⟨[], false, .unit⟩ m := fun m hm =>
    Item.isInside_of_mem_marksFrom hm rfl
  have hmarks : u.marks = ⟨[], false, .unit⟩ :: Item.marksFrom 0 u.items := rfl
  have hvisit : ∀ c ∈ u.items, ∀ s, (recorder p).visit s c = s ++ keptEvents p c.marks :=
    fun c _ s => visit_recorder p s c
  rw [hmarks, keptEvents_cons hinside, Item.keptEvents_marksFrom, ofUnit, Visitor.visitUnit,
    onUnit_recorder]
  cases p.stops .unit <;> simp [visitAll_recorder p hvisit]

end Event

/-! ## Pruning less and more -/

namespace Prune

/-- One walk prunes no more than another. -/
instance : LE Prune where
  le p q := (p.unit = true → q.unit = true) ∧
    (p.functionBodies = true → q.functionBodies = true) ∧ p.kinds ⊆ q.kinds

instance (p q : Prune) : Decidable (p ≤ q) :=
  inferInstanceAs (Decidable (_ ∧ _ ∧ _))

theorem stops_of_le {p q : Prune} (h : p ≤ q) {e : Event} (he : p.stops e = true) :
    q.stops e = true := by
  obtain ⟨hunit, hbodies, hkinds⟩ := h
  cases e with
  | unit => exact hunit he
  | item k => simpa [stops] using hkinds (by simpa [stops] using he)
  | decl => exact he
  | function => exact hbodies he

end Prune

theorem Mark.IsKept.of_le {q : Prune} (h : p ≤ q) {marks : List Mark} {m : Mark}
    (hm : m.IsKept q marks) : m.IsKept p marks :=
  fun outer houter hstop => hm outer houter (Prune.stops_of_le h hstop)

/-- A walk that prunes nothing keeps every event. -/
theorem keptEvents_nothing (marks : List Mark) : keptEvents {} marks = marks.map Mark.event := by
  have hstops : ∀ e, ({} : Prune).stops e = false := fun e => by cases e <;> rfl
  have hkept : ∀ m ∈ marks, m.IsKept {} marks := fun m _ outer _ hstop => by
    simp [hstops] at hstop
  rw [keptEvents, List.filter_eq_self.mpr fun m hm => decide_eq_true (hkept m hm)]

/-- **The events of a walk that prunes** are the events of the walk that prunes nothing, less
those that lie inside an event at which it stops. The walk that prunes nothing meets the unit and
then each of its items once and in the order of the paths, with the event of its own hook directly
behind it. So a walk that prunes more leaves out events and changes nothing else. -/
theorem events_prune_exact (u : TranslationUnit) :
    (∀ q, q ∈ u.places ↔ u.at? q.path = some q.item) ∧
      (u.places.Pairwise fun a b => a.path < b.path) ∧
      Event.ofUnit {} u =
        .unit :: u.places.flatMap (fun q => .item q.item.kind :: q.item.hookEvents) ∧
      Event.ofUnit {} u = u.marks.map Mark.event ∧
      (∀ p, Event.ofUnit p u = (u.marks.filter fun m => m.IsKept p u.marks).map Mark.event) ∧
      ∀ p q : Prune, p ≤ q → (Event.ofUnit q u).Sublist (Event.ofUnit p u) := by
  have hall : Event.ofUnit {} u = u.marks.map Mark.event := by
    rw [Event.ofUnit_eq_keptEvents, keptEvents_nothing]
  refine ⟨fun q => u.mem_places, u.pairwise_places, ?_, hall,
    fun p => Event.ofUnit_eq_keptEvents p u, fun p q h => ?_⟩
  · rw [hall, TranslationUnit.marks, List.map_cons, List.map_flatMap]
    simp [Place.marks, Function.comp_def]
  · rw [Event.ofUnit_eq_keptEvents, Event.ofUnit_eq_keptEvents]
    exact (List.monotone_filter_right _ fun m hm =>
      decide_eq_true (Mark.IsKept.of_le h (of_decide_eq_true hm))).map _

/-- A function with a loop in its body, between two declarations. -/
def loopUnit : TranslationUnit :=
  ⟨[.decl ⟨some "a", 1, "int a", none⟩,
    .function (some "f") 2 [.forLoop [.decl ⟨some "i", 2, "int i", some "0"⟩] .other],
    .decl ⟨some "b", 3, "int b", none⟩]⟩

theorem events_prune_exact_loopUnit :
    ({ functionBodies := true } : Prune) ≤ { functionBodies := true, kinds := [.decl] } ∧
      (Event.ofUnit { functionBodies := true, kinds := [.decl] } loopUnit).Sublist
        (Event.ofUnit { functionBodies := true } loopUnit) ∧
      Event.ofUnit { functionBodies := true, kinds := [.decl] } loopUnit =
        [.unit, .item .decl, .item .function, .function (some "f") 2 1, .item .decl] := by
  have hle : ({ functionBodies := true } : Prune) ≤
      { functionBodies := true, kinds := [.decl] } := by
    decide
  refine ⟨hle, (events_prune_exact loopUnit).2.2.2.2.2 _ _ hle, ?_⟩
  rw [(events_prune_exact loopUnit).2.2.2.2.1]
  decide +kernel

end Uninit
