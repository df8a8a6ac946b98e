import Mathlib.Data.List.Basic
import Uninit.Grammar.Spelling
import Uninit.Grammar.State

/-!
# Productions under way

A state says which productions are under way. What it says can be relied on: every production is one
of the grammar, its parts still to come are what the grammar gives behind those that have been read,
and the symbol that led to the state is the last one read in each of them. States that are compared
by numbers alone are the same.

## Main definitions

* `Row.isRegular`: what is relied on in the rows of a rule
* `Item.IsSound`, `State.IsSound`: the productions under way are those of the grammar

## Main statements

* `Production.eq_of_rank_eq`: the rank of a production tells it
* `State.eq_of_same`: sound states that are compared as the same are equal
* `State.last_of_mem_after`: what has been read last in the productions of a state
-/
namespace Uninit.Grammar

/-! ## Tables -/

theorem Terminal.getElem?_all (t : Terminal) : Terminal.all[t.rank]? = some t := by
  have hrank : t.rank < Terminal.count := by
    cases t <;> exact Nat.le_of_ble_eq_true rfl
  rw [Terminal.all, List.getElem?_map, List.getElem?_range hrank, Option.map_some]
  exact congrArg some (Terminal.ofNat_ctorIdx t)

/-- What tokens are in a tree: a comment only by its own pattern, no error and no statement. -/
theorem Terminal.kind?_spec (t : Terminal) :
    (t.kind? = some .comment → t = .comment) ∧ t.kind? ≠ some .error ∧
      t.kind? ≠ some .ifStatement ∧ t.kind? ≠ some .forStatement := by
  cases t <;> decide

namespace Nonterminal

theorem getElem?_all (n : Nonterminal) : all[n.rank]? = some n := by
  have hrank : n.rank < count := by
    cases n <;> exact Nat.le_of_ble_eq_true rfl
  rw [all, List.getElem?_map, List.getElem?_range hrank, Option.map_some]
  exact congrArg some (ofNat_ctorIdx n)

theorem mem_all (n : Nonterminal) : n ∈ all :=
  List.mem_of_getElem? n.getElem?_all

/-- What phrases are in a tree: no comment, no error, and a statement only by its own rule. -/
theorem kind?_spec (n : Nonterminal) :
    n.kind? ≠ some .comment ∧ n.kind? ≠ some .error ∧
      (n.kind? = some .ifStatement → n = .ifStatement) ∧
      (n.kind? = some .forStatement → n = .forStatement) := by
  cases n <;> decide

theorem eq_of_rank_eq {m n : Nonterminal} (h : m.rank = n.rank) : m = n := by
  rw [← ofNat_ctorIdx m, ← ofNat_ctorIdx n]
  exact congrArg ofNat h

/-- What a table holds for a phrase. -/
theorem getElem?_toArray_map_all {α : Type} (f : Nonterminal → α) (n : Nonterminal) :
    (all.map f).toArray[n.rank]? = some (f n) := by
  rw [List.getElem?_toArray, List.getElem?_map, getElem?_all, Option.map_some]

theorem productions_eq (n : Nonterminal) : n.productions = Production.ofRule n := by
  rw [productions, Production.table, getElem?_toArray_map_all, Option.getD_some]

end Nonterminal

/-! ## Productions -/

namespace Production

def symbols (p : Production) : List Symbol :=
  p.steps.map Step.symbol

theorem mem_ofRows {n : Nonterminal} {k : ℕ} {rows : List Row} {p : Production}
    (h : p ∈ ofRows n k rows) : ∃ i r, rows[i]? = some r ∧
      p = ⟨k + i, n, r.steps, r.strength.getD 0, r.side, r.weight⟩ := by
  induction rows generalizing k with
  | nil => cases h
  | cons r rest ih =>
    rcases List.mem_cons.mp h with rfl | h
    · exact ⟨0, r, rfl, rfl⟩
    · obtain ⟨i, r', hr', rfl⟩ := ih h
      exact ⟨i + 1, r', hr', by rw [Nat.add_assoc, Nat.add_comm 1 i]⟩

/-- The productions of a phrase are the rows of its rule with their places. -/
theorem mem_productions {n : Nonterminal} {p : Production} (h : p ∈ n.productions) :
    ∃ i r, n.rule.expand[i]? = some r ∧
      p = ⟨n.rank * perPhrase + i, n, r.steps, r.strength.getD 0, r.side, r.weight⟩ := by
  rw [n.productions_eq] at h
  exact mem_ofRows h

theorem whole_eq {n : Nonterminal} {p : Production} (h : p ∈ n.productions) : p.whole = n := by
  obtain ⟨i, r, -, rfl⟩ := mem_productions h
  rfl

theorem length_rows_le (n : Nonterminal) : n.rule.expand.length ≤ perPhrase := by
  have hall : Nonterminal.all.all fun n => decide (n.rule.expand.length ≤ perPhrase) := by
    decide +kernel
  exact of_decide_eq_true (List.all_eq_true.mp hall n n.mem_all)

/-- **The rank of a production tells it.** -/
theorem eq_of_rank_eq {p q : Production} (hp : p ∈ p.whole.productions)
    (hq : q ∈ q.whole.productions) (h : p.rank = q.rank) : p = q := by
  obtain ⟨i, r, hr, hpi⟩ := mem_productions hp
  obtain ⟨j, r', hr', hqj⟩ := mem_productions hq
  have hi := Nat.lt_of_lt_of_le (List.getElem?_eq_some_iff.mp hr).1 (length_rows_le p.whole)
  have hj := Nat.lt_of_lt_of_le (List.getElem?_eq_some_iff.mp hr').1 (length_rows_le q.whole)
  have hrank : p.whole.rank * perPhrase + i = q.whole.rank * perPhrase + j := by
    rw [hpi, hqj] at h
    exact h
  have hwhole : p.whole = q.whole := by
    refine Nonterminal.eq_of_rank_eq ?_
    rw [perPhrase] at *
    omega
  rw [hwhole] at hrank hr
  obtain rfl : i = j := Nat.add_left_cancel hrank
  obtain rfl : r = r' := Option.some.inj (hr.symm.trans hr')
  rw [hpi, hqj, hwhole]

end Production

/-- Whether a symbol is found inside of a file. -/
def Symbol.isInner : Symbol → Bool
  | terminal t => t != .eof && t != .comment
  | nonterminal n => n != .translationUnit && n != .file

def Symbol.isPhrase : Symbol → Bool
  | terminal _ => false
  | nonterminal _ => true

/-- Whether a symbol is a token that is no node of a tree. -/
def Symbol.isHiddenToken : Symbol → Bool
  | terminal t => t.kind?.isNone
  | nonterminal _ => false

def Symbol.isNode : Symbol → Bool
  | terminal t => t.kind?.isSome
  | nonterminal n => n.kind?.isSome

/-- What is relied on in a row of the rule of a phrase: only a translation unit can be empty, a part
of a file is neither the file itself nor the end of the text nor a comment, some part shows in a
tree, and only a token is called by another kind. -/
def Row.isRegular (n : Nonterminal) (r : Row) : Bool :=
  if n = .file then r.steps.map Step.symbol == [.nonterminal .translationUnit]
  else
    (n == .translationUnit && r.steps.isEmpty || r.steps.any fun s => !s.symbol.isHiddenToken) &&
      r.steps.all fun s => s.symbol.isInner && (s.kind.isNone || !s.symbol.isPhrase) &&
        s.kind != some .comment && s.kind != some .error

theorem Row.isRegular_of_mem {n : Nonterminal} {r : Row} (h : r ∈ n.rule.expand) :
    r.isRegular n = true := by
  have hall : Nonterminal.all.all fun n => n.rule.expand.all (Row.isRegular n) := by
    decide +kernel
  exact List.all_eq_true.mp (List.all_eq_true.mp hall n n.mem_all) r h

/-- The parts of statements that are walked in an order of their own. -/
def isBranch : Tree.Field → Bool
  | .body | .consequence | .alternative => true
  | _ => false

/-- What is relied on for the order of parts: a phrase that gives way to its parts has no branch of
its own, the phrase for any statement shows one node and no more, the branch of an `if` statement
stands before the alternative, and the body of a `for` statement comes last. -/
def Row.isOrderly (n : Nonterminal) (r : Row) : Bool :=
  (n.kind?.isSome || r.steps.all fun s => !s.field.any isBranch) &&
    (n != .statement || r.steps.all fun s => s.field.isNone && s.symbol.isNode) &&
    (n != .ifStatement || decide (r.steps.Pairwise fun a b =>
      a.field = some .alternative → b.field ≠ some .consequence)) &&
    (n != .forStatement || decide (r.steps.Pairwise fun a _ => a.field ≠ some .body) &&
      r.steps.all fun s => s.field != some .body || s.symbol == .nonterminal .statement)

theorem Row.isOrderly_of_mem {n : Nonterminal} {r : Row} (h : r ∈ n.rule.expand) :
    r.isOrderly n = true := by
  have hall : Nonterminal.all.all fun n => n.rule.expand.all (Row.isOrderly n) := by
    decide +kernel
  exact List.all_eq_true.mp (List.all_eq_true.mp hall n n.mem_all) r h

theorem Production.isRegular_of_mem {n : Nonterminal} {p : Production} (h : p ∈ n.productions) :
    ∃ r : Row, r.isRegular n = true ∧ p.steps = r.steps := by
  obtain ⟨i, r, hr, rfl⟩ := Production.mem_productions h
  exact ⟨r, Row.isRegular_of_mem (List.mem_of_getElem? hr), rfl⟩

namespace Production

variable {n : Nonterminal} {p : Production}

theorem symbols_file (h : p ∈ Nonterminal.file.productions) :
    p.symbols = [.nonterminal .translationUnit] := by
  obtain ⟨r, hr, hsteps⟩ := isRegular_of_mem h
  rw [Row.isRegular, if_pos rfl, beq_iff_eq] at hr
  rw [symbols, hsteps, hr]

/-- What the parts of a phrase inside of a file are. -/
theorem isInner_of_mem_steps (h : p ∈ n.productions) (hn : n ≠ .file) {s : Step}
    (hs : s ∈ p.steps) :
    s.symbol.isInner = true ∧ (s.kind = none ∨ s.symbol.isPhrase = false) ∧
      s.kind ≠ some .comment ∧ s.kind ≠ some .error := by
  obtain ⟨r, hr, hsteps⟩ := isRegular_of_mem h
  rw [Row.isRegular, if_neg hn, Bool.and_eq_true, List.all_eq_true] at hr
  have hstep := hr.2 s (hsteps ▸ hs)
  simpa [and_assoc] using hstep

/-- A phrase that is not empty shows one of its parts, or a part of one of these. -/
theorem exists_mem_steps (h : p ∈ n.productions) (hn : n ≠ .file)
    (hunit : n ≠ .translationUnit ∨ p.steps ≠ []) :
    ∃ s ∈ p.steps, s.symbol.isHiddenToken = false := by
  obtain ⟨r, hr, hsteps⟩ := isRegular_of_mem h
  rw [Row.isRegular, if_neg hn, Bool.and_eq_true, Bool.or_eq_true, Bool.and_eq_true, beq_iff_eq,
    List.isEmpty_iff, List.any_eq_true, ← hsteps] at hr
  rcases hr.1 with ⟨rfl, hempty⟩ | ⟨s, hs, hshown⟩
  · exact absurd hempty (hunit.resolve_left (absurd rfl))
  · exact ⟨s, hs, by simpa using hshown⟩

/-- How the parts of a phrase stand. -/
theorem isOrderly_of_mem (h : p ∈ n.productions) :
    (n.kind? = none → ∀ s ∈ p.steps, s.field.any isBranch = false) ∧
      (n = .statement → ∀ s ∈ p.steps, s.field = none ∧ s.symbol.isNode = true) ∧
      (n = .ifStatement → p.steps.Pairwise fun a b =>
        a.field = some .alternative → b.field ≠ some .consequence) ∧
      (n = .forStatement → p.steps.Pairwise (fun a _ => a.field ≠ some .body) ∧
        ∀ s ∈ p.steps, s.field = some .body → s.symbol = .nonterminal .statement) := by
  obtain ⟨i, r, hr, rfl⟩ := mem_productions h
  have hall := Row.isOrderly_of_mem (List.mem_of_getElem? hr)
  rw [Row.isOrderly, Bool.and_eq_true, Bool.and_eq_true, Bool.and_eq_true] at hall
  obtain ⟨⟨⟨hhidden, hstatement⟩, hif⟩, hfor⟩ := hall
  refine ⟨fun hn => ?_, ?_, ?_, ?_⟩
  · simpa [hn] using hhidden
  · rintro rfl
    simpa using hstatement
  · rintro rfl
    simpa using hif
  · rintro rfl
    simpa [or_iff_not_imp_left] using hfor

theorem file_notMem_symbols (h : p ∈ n.productions) : .nonterminal .file ∉ p.symbols := by
  intro hmem
  by_cases hn : n = .file
  · subst hn
    rw [symbols_file h] at hmem
    simp at hmem
  · obtain ⟨s, hs, hsymbol⟩ := List.mem_map.mp hmem
    have hinner := (isInner_of_mem_steps h hn hs).1
    rw [hsymbol] at hinner
    simp [Symbol.isInner] at hinner

theorem head?_symbols {x : Symbol} (h : p.head? = some x) : p.symbols.head? = some x := by
  rw [symbols, List.head?_map]
  exact h

end Production

/-! ## Phrases that can begin -/

namespace PhraseSet

theorem contains_union (a b : PhraseSet) (n : Nonterminal) :
    (a.union b).contains n = (a.contains n || b.contains n) :=
  Nat.testBit_or ..

theorem contains_single (m n : Nonterminal) : (single m).contains n = decide (m = n) := by
  rw [contains, single, Nat.one_shiftLeft, Nat.testBit_two_pow]
  exact decide_eq_decide.mpr ⟨Nonterminal.eq_of_rank_eq, congrArg Nonterminal.rank⟩

variable {f : Nonterminal → PhraseSet} {m : Nonterminal}

/-- What belongs to no phrase is not found by going on from phrases to what belongs to them. -/
theorem contains_extend (hf : ∀ n, (f n).contains m = false) {s : PhraseSet}
    (hs : s.contains m = false) : (s.extend f).contains m = false := by
  refine List.foldlRecOn (motive := fun found : PhraseSet => found.contains m = false)
    Nonterminal.all _ hs fun found hfound n _ => ?_
  split_ifs
  · rw [contains_union, hfound, hf n, Bool.or_false]
  · exact hfound

theorem contains_settle (hf : ∀ n, (f n).contains m = false) (fuel : ℕ) {s : PhraseSet}
    (hs : s.contains m = false) : (settle f fuel s).contains m = false := by
  induction fuel generalizing s with
  | zero => exact hs
  | succ fuel ih =>
    rw [settle]
    split
    · exact hs
    · exact ih (contains_extend hf hs)

end PhraseSet

namespace Nonterminal

theorem contains_headsOf_file (n : Nonterminal) :
    (headsOf n.productions).contains .file = false := by
  refine List.foldlRecOn (motive := fun found : PhraseSet => found.contains .file = false)
    n.productions _ (Nat.zero_testBit _) fun found hfound p hp => ?_
  split
  · next m hhead =>
    rw [PhraseSet.contains_union, hfound, PhraseSet.contains_single, Bool.false_or,
      decide_eq_false_iff_not]
    rintro rfl
    exact Production.file_notMem_symbols hp
      (List.mem_of_head? (Production.head?_symbols hhead))
  · exact hfound

/-- No other phrase begins with a file. -/
theorem contains_reach_file {n : Nonterminal} (h : n ≠ .file) : n.reach.contains .file = false := by
  rw [reach, reachTable, getElem?_toArray_map_all, Option.getD_some, PhraseSet.closure]
  refine PhraseSet.contains_settle contains_headsOf_file count ?_
  rw [PhraseSet.contains_single, decide_eq_false_iff_not]
  exact h

end Nonterminal

/-! ## Productions that begin with a symbol -/

theorem Production.mem_beginningWith {x : Symbol} {n : Nonterminal} {ps : List Production}
    {p : Production} (h : (n, ps) ∈ beginningWith x) (hp : p ∈ ps) :
    p ∈ n.productions ∧ p.head? = some x := by
  obtain ⟨m, -, hm⟩ := List.mem_filterMap.mp h
  split at hm
  · cases hm
  · obtain ⟨rfl, rfl⟩ := Prod.mk.inj (Option.some.inj hm)
    obtain ⟨hmem, hhead⟩ := List.mem_filter.mp hp
    exact ⟨hmem, eq_of_beq hhead⟩

theorem Symbol.openings_eq (x : Symbol) : x.openings = Production.beginningWith x := by
  cases x with
  | terminal t =>
    rw [openings, Terminal.openingTable, List.getElem?_toArray, List.getElem?_map,
      t.getElem?_all, Option.map_some, Option.getD_some]
  | nonterminal n =>
    rw [openings, Nonterminal.openingTable, Nonterminal.getElem?_toArray_map_all, Option.getD_some]

/-! ## Sound states -/

namespace Item

/-- A production under way is one of the grammar, and what is still to come is what follows in it
behind the parts that have been read. -/
structure IsSound (i : Item) : Prop where
  mem : i.production ∈ i.production.whole.productions
  next_eq : i.next = i.production.steps.drop i.done
  done_le : i.done ≤ i.production.steps.length

variable {i j : Item}

theorem eq_of_same (hi : i.IsSound) (hj : j.IsSound) (h : i.same j = true) : i = j := by
  rw [same, Bool.and_eq_true, Bool.and_eq_true, beq_iff_eq, beq_iff_eq, beq_iff_eq] at h
  obtain ⟨⟨hrank, hdone⟩, hfollow⟩ := h
  have hproduction := Production.eq_of_rank_eq hi.mem hj.mem hrank
  have hnext : i.next = j.next := by rw [hi.next_eq, hj.next_eq, hproduction, hdone]
  obtain ⟨p, d, n, f⟩ := i
  simp only at hproduction hdone hnext hfollow
  rw [hproduction, hdone, hnext, hfollow]

/-- A production is whole when all its parts have been read. -/
theorem IsSound.done_eq (h : i.IsSound) (hnext : i.next = []) :
    i.done = i.production.steps.length := by
  rw [h.next_eq, List.drop_eq_nil_iff] at hnext
  exact Nat.le_antisymm h.done_le hnext

/-- What comes next in a production is the symbol at its place. -/
theorem IsSound.getElem?_symbols (h : i.IsSound) {x : Symbol} (hx : i.head? = some x) :
    i.production.symbols[i.done]? = some x := by
  rw [head?, h.next_eq, List.head?_drop] at hx
  rw [Production.symbols, List.getElem?_map]
  exact hx

/-- A production of which one more part has been read. -/
theorem IsSound.advance (h : i.IsSound) {x : Symbol} (hx : i.head? = some x) :
    IsSound { i with done := i.done + 1, next := i.next.tail } where
  mem := h.mem
  next_eq := by rw [h.next_eq, List.tail_drop]
  done_le := by
    have hget := h.getElem?_symbols hx
    have hlt := (List.getElem?_eq_some_iff.mp hget).1
    rwa [Production.symbols, List.length_map] at hlt

theorem mem_insert {l : List Item} : j ∈ i.insert l ↔ j = i ∨ j ∈ l := by
  induction l with
  | nil => simp [insert]
  | cons k rest ih =>
    rw [insert]
    split_ifs
    · rw [List.mem_cons, ih, List.mem_cons, or_left_comm]
    · exact List.mem_cons

theorem mem_foldl_insert {js l : List Item} :
    i ∈ js.foldl (fun items j => j.insert items) l ↔ i ∈ js ∨ i ∈ l := by
  induction js generalizing l with
  | nil => simp
  | cons k rest ih => rw [List.foldl_cons, ih, mem_insert, List.mem_cons, or_left_comm, or_assoc]

end Item

namespace State

/-- All productions under way are sound. -/
def IsSound (s : State) : Prop :=
  ∀ i ∈ s.items, i.IsSound

variable {s : State} {x : Symbol} {i : Item} {t : Terminal}

@[simp] theorem items_ofItems (items : List Item) : (ofItems items).items = items := rfl

theorem isLost_eq_false_of_mem (h : i ∈ s.items) : s.isLost = false := by
  rw [isLost, List.isEmpty_eq_false_iff]
  exact List.ne_nil_of_mem h

@[simp] theorem isLost_lost : lost.isLost = true := rfl

theorem isSound_lost : lost.IsSound :=
  fun _ h => absurd h List.not_mem_nil

theorem isSound_default : (default : State).IsSound :=
  fun _ h => absurd h List.not_mem_nil

theorem isSound_start : start.IsSound := by
  intro i hi
  rw [start, items_ofItems] at hi
  obtain ⟨p, hp, rfl⟩ := List.mem_map.mp hi
  have hmem : p ∈ p.whole.productions := by
    rcases List.mem_append.mp hp with hp | hp
    · rwa [Production.whole_eq hp]
    · have hunit := (List.mem_filter.mp hp).1
      rwa [Production.whole_eq hunit]
  exact ⟨hmem, rfl, Nat.zero_le _⟩

/-- **Sound states that are compared as the same are equal.** -/
theorem eq_of_same {a b : State} (ha : a.IsSound) (hb : b.IsSound) (h : a.same b = true) :
    a = b := by
  rw [same, Bool.and_eq_true, Bool.and_eq_true, beq_iff_eq, beq_iff_eq] at h
  obtain ⟨⟨hdigest, hlength⟩, hitems⟩ := h
  have hequal : a.items = b.items := by
    refine List.ext_getElem hlength fun k hk hk' => ?_
    have hzip : k < (a.items.zip b.items).length := by
      rw [List.length_zip]
      exact Nat.lt_min.mpr ⟨hk, hk'⟩
    have hsame := List.all_eq_true.mp hitems _ (List.getElem_mem hzip)
    rw [List.getElem_zip] at hsame
    exact Item.eq_of_same (ha _ (List.getElem_mem hk)) (hb _ (List.getElem_mem hk')) hsame
  obtain ⟨xs, d⟩ := a
  exact congrArg₂ State.mk hequal hdigest

/-- No production begins with a file, so that none of a file is opened further on. -/
theorem contains_reach_file (h : s.IsSound) : s.reach.contains .file = false := by
  refine List.foldlRecOn (motive := fun found : PhraseSet => found.contains .file = false) s.items _
    (Nat.zero_testBit _) fun found hfound i hi => ?_
  split
  · next n hhead =>
    rw [PhraseSet.contains_union, hfound, Bool.false_or]
    refine Nonterminal.contains_reach_file ?_
    rintro rfl
    exact Production.file_notMem_symbols (h i hi).mem
      (List.mem_of_getElem? ((h i hi).getElem?_symbols hhead))
  · exact hfound

/-- A production is opened by its first symbol, and it is none of a file. -/
theorem opened_of_mem (h : s.IsSound) (hi : i ∈ s.opened x) :
    i.IsSound ∧ i.done = 1 ∧ i.production.symbols[0]? = some x ∧ i.production.whole ≠ .file := by
  obtain ⟨⟨n, ps⟩, hopening, hi⟩ := List.mem_flatMap.mp hi
  dsimp only at hi
  split_ifs at hi with hreach
  · obtain ⟨p, hp, rfl⟩ := List.mem_map.mp hi
    rw [x.openings_eq] at hopening
    obtain ⟨hmem, hhead⟩ := Production.mem_beginningWith hopening hp
    have hwhole : p.whole = n := Production.whole_eq hmem
    have hsymbol : p.symbols[0]? = some x := by
      rw [← List.head?_eq_getElem?]
      exact Production.head?_symbols hhead
    refine ⟨⟨?_, List.drop_one.symm, ?_⟩, rfl, hsymbol, ?_⟩
    · rwa [hwhole]
    · have hlt := (List.getElem?_eq_some_iff.mp hsymbol).1
      rwa [Production.symbols, List.length_map] at hlt
    · rintro hfile
      rw [← hwhole, hfile, contains_reach_file h] at hreach
      cases hreach
  · exact absurd hi List.not_mem_nil

/-- The productions under way behind a symbol: some have come further over it, the others begin
with it. -/
theorem mem_after : i ∈ (s.after x).items ↔
    (∃ j ∈ s.items, j.head? = some x ∧ { j with done := j.done + 1, next := j.next.tail } = i) ∨
      i ∈ s.opened x := by
  have hadvanced : i ∈ s.items.filterMap (fun i =>
      if i.head? = some x then some { i with done := i.done + 1, next := i.next.tail } else none) ↔
      ∃ j ∈ s.items, j.head? = some x ∧ { j with done := j.done + 1, next := j.next.tail } = i := by
    simp only [List.mem_filterMap, Option.ite_none_right_eq_some, Option.some.injEq]
  rw [← hadvanced, or_comm]
  exact Item.mem_foldl_insert

theorem isSound_after (h : s.IsSound) (x : Symbol) : (s.after x).IsSound := by
  intro i hi
  rcases mem_after.mp hi with ⟨j, hj, hhead, rfl⟩ | hopened
  · exact (h j hj).advance hhead
  · exact (opened_of_mem h hopened).1

/-- **What has been read last in the productions of a state** is the symbol that led to it. A
production that has come further was under way before, and only one that is none of a file can have
begun there. -/
theorem last_of_mem_after (h : s.IsSound) (hi : i ∈ (s.after x).items) :
    ∃ n, i.done = n + 1 ∧ i.production.symbols[n]? = some x ∧
      ((∃ j ∈ s.items, j.production = i.production ∧ j.done = n) ∨
        n = 0 ∧ i.production.whole ≠ .file) := by
  rcases mem_after.mp hi with ⟨j, hj, hhead, rfl⟩ | hopened
  · exact ⟨j.done, rfl, (h j hj).getElem?_symbols hhead, .inl ⟨j, hj, rfl, rfl⟩⟩
  · obtain ⟨-, hdone, hsymbol, hwhole⟩ := opened_of_mem h hopened
    exact ⟨0, hdone, hsymbol, .inr ⟨rfl, hwhole⟩⟩

/-! ## What can be done at a token -/

theorem mem_reductions {complete : List Item} (h : i ∈ reductions complete) : i ∈ complete :=
  List.mem_of_mem_filter h

theorem mem_settleConflict {reading complete reduced : List Item} {a : Action}
    (h : a ∈ settleConflict reading complete reduced) :
    a = .shift ∨ a = .shiftInList ∨ ∃ i ∈ reduced, a = .reduce i.production := by
  rw [settleConflict] at h
  -- which of the outcomes it is does not matter
  split_ifs at h <;> clear * - h <;> grind

/-- What an action at a token says of a state: some production is under way; one that is made whole
has been read to its end and is none of a file; and a file is accepted when it has been read to its
end. -/
def Allows (s : State) : Action → Prop
  | .reduce p => ∃ i ∈ s.items, i.production = p ∧ i.next = [] ∧ p.whole ≠ .file
  | .accept => ∃ i ∈ s.items, i.production.whole = .file ∧ i.next = []
  | .shift | .shiftInList => s.isLost = false

/-- **A state allows what it gives as an action.** -/
theorem allows_of_mem_actions {a : Action} (h : a ∈ s.actions t) : s.Allows a := by
  have hcomplete : ∀ i ∈ s.items.filter (fun i => i.isComplete && i.follow.contains t),
      i ∈ s.items ∧ i.next = [] := by
    intro i hi
    obtain ⟨hmem, hwhole⟩ := List.mem_filter.mp hi
    rw [Bool.and_eq_true, Item.isComplete, List.isEmpty_iff] at hwhole
    exact ⟨hmem, hwhole.1⟩
  rw [actions] at h
  split_ifs at h with haccept hreads hnone
  · obtain rfl := List.mem_singleton.mp h
    obtain ⟨i, hi, hfile⟩ := List.any_eq_true.mp haccept
    exact ⟨i, (hcomplete i hi).1, eq_of_beq hfile, (hcomplete i hi).2⟩
  all_goals
    have hreduce : ∀ i ∈ reductions (s.items.filter fun i => i.isComplete && i.follow.contains t),
        s.Allows (.reduce i.production) := fun i hi =>
      have hi := mem_reductions hi
      ⟨i, (hcomplete i hi).1, rfl, (hcomplete i hi).2, fun hfile =>
        haccept (List.any_eq_true.mpr ⟨i, hi, beq_iff_eq.mpr hfile⟩)⟩
  · obtain ⟨i, hi, rfl⟩ := List.mem_map.mp h
    exact hreduce i hi
  all_goals
    obtain ⟨j, hj⟩ := List.exists_mem_of_ne_nil _ (mt List.isEmpty_iff.mpr hreads)
    have hread : s.isLost = false := isLost_eq_false_of_mem (List.mem_of_mem_filter hj)
  · obtain rfl := List.mem_singleton.mp h
    exact hread
  · rcases mem_settleConflict h with rfl | rfl | ⟨i, hi, rfl⟩
    · exact hread
    · exact hread
    · exact hreduce i hi

end State

end Uninit.Grammar
