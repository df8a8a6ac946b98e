import Mathlib.Data.List.TakeWhile
import Mathlib.Data.Nat.Basic
import Uninit.Grammar.Derivation
import Uninit.Proofs.Cursors
import Uninit.Proofs.Productions

/-!
# Sound derivations

A derivation is sound if it stands in the text with its parts one behind the other, if its parts are
those of a production of the grammar, unless it is a token or an error, and if it costs something as
soon as anything is wrong below it. What is built from sound derivations is sound.

## Main definitions

* `InRow`: some things stand one behind the other between two bytes
* `Derivation.IsWrong`: a derivation has repairs or is an error
* `Derivation.IsSound`: a derivation with everything below it is sound

## Main statements

* `Derivation.isSound_ofFault`, `Derivation.isSound_ofPhrase`: a derivation of sound parts is sound
-/
namespace Uninit.Grammar

/-! ## Things in a row -/

section InRow

variable {α : Type} {start stop : α → ℕ}

/-- Some things stand one behind the other between two bytes. -/
def InRow (start stop : α → ℕ) : ℕ → ℕ → List α → Prop
  | low, high, [] => low ≤ high
  | low, high, x :: rest => low ≤ start x ∧ start x ≤ stop x ∧ InRow start stop (stop x) high rest

variable {low mid high : ℕ} {xs ys : List α}

theorem InRow.le (h : InRow start stop low high xs) : low ≤ high := by
  induction xs generalizing low with
  | nil => exact h
  | cons x rest ih => exact (h.1.trans h.2.1).trans (ih h.2.2)

theorem InRow.mono {low' high' : ℕ} (h : InRow start stop low high xs) (hlow : low' ≤ low)
    (hhigh : high ≤ high') : InRow start stop low' high' xs := by
  induction xs generalizing low low' with
  | nil => exact (hlow.trans h).trans hhigh
  | cons x rest ih => exact ⟨hlow.trans h.1, h.2.1, ih h.2.2 le_rfl⟩

theorem inRow_append : InRow start stop low high (xs ++ ys) ↔
    ∃ mid, InRow start stop low mid xs ∧ InRow start stop mid high ys := by
  induction xs generalizing low with
  | nil =>
    exact ⟨fun h => ⟨low, le_rfl, h⟩, fun ⟨mid, hmid, hrest⟩ => hrest.mono hmid le_rfl⟩
  | cons x rest ih =>
    simp only [List.cons_append, InRow, ih]
    exact ⟨fun ⟨hlow, hx, mid, hfirst, hrest⟩ => ⟨mid, ⟨hlow, hx, hfirst⟩, hrest⟩,
      fun ⟨mid, ⟨hlow, hx, hfirst⟩, hrest⟩ => ⟨hlow, hx, mid, hfirst, hrest⟩⟩

theorem InRow.append (h : InRow start stop low mid xs) (h' : InRow start stop mid high ys) :
    InRow start stop low high (xs ++ ys) :=
  inRow_append.mpr ⟨mid, h, h'⟩

theorem InRow.concat (h : InRow start stop low mid xs) {x : α} (hstart : mid ≤ start x)
    (hx : start x ≤ stop x) (hstop : stop x ≤ high) : InRow start stop low high (xs ++ [x]) :=
  h.append ⟨hstart, hx, hstop⟩

theorem InRow.bounds (h : InRow start stop low high xs) {x : α} (hx : x ∈ xs) :
    low ≤ start x ∧ start x ≤ stop x ∧ stop x ≤ high := by
  induction xs generalizing low with
  | nil => cases hx
  | cons y rest ih =>
    rcases List.mem_cons.mp hx with rfl | hx
    · exact ⟨h.1, h.2.1, h.2.2.le⟩
    · obtain ⟨hlow, hspan, hhigh⟩ := ih h.2.2 hx
      exact ⟨(h.1.trans h.2.1).trans hlow, hspan, hhigh⟩

theorem InRow.pairwise (h : InRow start stop low high xs) :
    xs.Pairwise fun a b => stop a ≤ start b := by
  induction xs generalizing low with
  | nil => exact .nil
  | cons x rest ih => exact .cons (fun y hy => (h.2.2.bounds hy).1) (ih h.2.2)

/-- A row stands between the start of its first and the end of its last member. -/
theorem InRow.tighten (h : InRow start stop low high xs) (place : ℕ) :
    InRow start stop ((xs.head?.map start).getD place) ((xs.getLast?.map stop).getD place) xs := by
  cases xs with
  | nil => exact le_rfl
  | cons x rest =>
    have hlast : InRow start stop (stop x) ((rest.getLast?.map stop).getD (stop x)) rest := by
      have hrest := h.2.2
      generalize stop x = n at hrest
      clear h
      induction rest generalizing n with
      | nil => exact le_rfl
      | cons y more ih =>
        have hmore := ih (stop y) hrest.2.2
        rw [List.getLast?_cons, Option.map_some, Option.getD_some]
        refine ⟨hrest.1, hrest.2.1, ?_⟩
        cases more with
        | nil => exact le_rfl
        | cons z zs => simpa [List.getLast?_cons] using hmore
    refine ⟨le_rfl, h.2.1, ?_⟩
    cases rest with
    | nil => exact le_rfl
    | cons y more => simpa [List.getLast?_cons] using hlast

end InRow

/-! ## Derivations -/

/-- A symbol as the root of a derivation. -/
def Symbol.root : Symbol → Root
  | terminal t => .terminal t
  | nonterminal n => .nonterminal n

namespace Derivation

def startByte (d : Derivation) : ℕ :=
  d.summary.start.byte

def stopByte (d : Derivation) : ℕ :=
  d.summary.stop.point.byte

/-- The roots of the parts that belong to a production. -/
def roots (ps : List Derivation) : List Root :=
  (ps.filter fun d => !d.isExtra).map root

/-- Something is repaired in a derivation, or it is itself an error. -/
def IsWrong (d : Derivation) : Prop :=
  0 < d.cost ∨ d.root.isFault = true

end Derivation

/-- What a derivation can be: a token, a phrase of a production, an error that costs something, or
a piece that cannot be read. -/
inductive Summary.Form (s : Summary) (ps : List Derivation) : Prop
  | token (t : Terminal) (root_eq : s.root = .terminal t) (leaf : ps = []) (steps_eq : s.steps = [])
      (filled : s.missing = false → t ≠ .eof → s.start.byte < s.stop.point.byte)
  | phrase (p : Production) (mem : p ∈ p.whole.productions) (inner : p.whole ≠ .file)
      (root_eq : s.root = .nonterminal p.whole) (own : s.extra = false)
      (steps_eq : s.steps = p.steps ∨ s.steps = [])
      (parts : Derivation.roots ps = p.symbols.map Symbol.root)
  | fault (root_eq : s.root.isFault = true) (own : s.root = .skipped → s.extra = false)
      (steps_eq : s.steps = []) (dear : 0 < s.cost)
  | unreadable (root_eq : s.root = .error) (own : s.extra = false) (leaf : ps = [])
      (steps_eq : s.steps = [])

/-- A derivation stands in a text with its parts in a row, it is something that a derivation can be,
and it costs something if anything is wrong in it. -/
structure Summary.IsSound (text : List Char) (s : Summary) (ps : List Derivation) : Prop where
  start : Text.IsPlace text s.start
  stop : s.stop.IsIn text
  row : InRow Derivation.startByte Derivation.stopByte s.start.byte s.stop.point.byte ps
  missing : s.missing = true → 0 < s.cost
  dear : (∃ d ∈ ps, d.IsWrong) → 0 < s.cost
  form : s.Form ps

namespace Derivation

/-- A derivation with everything below it is sound. -/
inductive IsSound (text : List Char) : Derivation → Prop
  | node {s : Summary} {ps : List Derivation} (own : s.IsSound text ps)
      (parts : ∀ d ∈ ps, IsSound text d) : IsSound text (.node s ps)

variable {text : List Char} {d : Derivation} {ps qs : List Derivation}

theorem IsSound.summary (h : d.IsSound text) : d.summary.IsSound text d.parts := by
  cases h with
  | node own _ => exact own

theorem IsSound.of_mem_parts (h : d.IsSound text) {q : Derivation} (hq : q ∈ d.parts) :
    q.IsSound text := by
  cases h with
  | node _ parts => exact parts q hq

/-- A derivation among others may be opened up into its parts. -/
theorem isSound_of_mem_opened (h : ∀ p ∈ ps ++ [d] ++ qs, p.IsSound text) :
    ∀ p ∈ ps ++ d.parts ++ qs, p.IsSound text := by
  simp only [List.forall_mem_append, List.forall_mem_singleton] at h ⊢
  exact ⟨⟨h.1.1, fun q hq => h.1.2.of_mem_parts hq⟩, h.2⟩

theorem inRow_opened {low high : ℕ} (hd : d.IsSound text)
    (h : InRow startByte stopByte low high (ps ++ [d] ++ qs)) :
    InRow startByte stopByte low high (ps ++ d.parts ++ qs) := by
  obtain ⟨mid, hfirst, hrest⟩ := inRow_append.mp h
  obtain ⟨before, hps, hstart, -, hstop⟩ := inRow_append.mp hfirst
  exact (hps.append (hd.summary.row.mono hstart hstop)).append hrest

theorem IsSound.startByte_le (h : d.IsSound text) : d.startByte ≤ d.stopByte :=
  h.summary.row.le

/-- What may stand anywhere is a token, or an error that costs something. -/
theorem IsSound.of_isExtra (h : d.IsSound text) (hextra : d.isExtra = true) :
    (∃ t, d.root = .terminal t) ∨ d.root = .error ∧ 0 < d.cost := by
  have hextra' : d.summary.extra = true := hextra
  cases h.summary.form with
  | token t root_eq => exact .inl ⟨t, root_eq⟩
  | phrase _ _ _ _ own =>
    rw [own] at hextra'
    cases hextra'
  | fault root_eq own _ dear =>
    refine .inr ⟨?_, dear⟩
    cases hroot : d.summary.root with
    | error => exact hroot
    | skipped =>
      rw [own hroot] at hextra'
      cases hextra'
    | terminal t =>
      rw [hroot] at root_eq
      cases root_eq
    | nonterminal n =>
      rw [hroot] at root_eq
      cases root_eq
  | unreadable _ own =>
    rw [own] at hextra'
    cases hextra'

/-- A sound phrase has the parts of one of its productions. -/
theorem IsSound.exists_production (h : d.IsSound text) {n : Nonterminal}
    (hroot : d.root = .nonterminal n) : ∃ p ∈ n.productions, p.whole = n ∧ n ≠ .file ∧
      roots d.parts = p.symbols.map Symbol.root ∧
      (d.summary.steps = p.steps ∨ d.summary.steps = []) := by
  cases h.summary.form with
  | token t root_eq => cases hroot.symm.trans root_eq
  | phrase p mem inner root_eq _ steps_eq parts =>
    cases hroot.symm.trans root_eq
    exact ⟨p, mem, rfl, inner, parts, steps_eq⟩
  | fault root_eq =>
    rw [show d.summary.root = .nonterminal n from hroot] at root_eq
    cases root_eq
  | unreadable root_eq => cases hroot.symm.trans root_eq

/-- A token has no parts. -/
theorem IsSound.parts_eq_nil (h : d.IsSound text) {t : Terminal} (hroot : d.root = .terminal t) :
    d.parts = [] := by
  have hroot : d.summary.root = .terminal t := hroot
  cases h.summary.form with
  | token _ _ leaf => exact leaf
  | phrase _ _ _ root_eq => exact nomatch hroot.symm.trans root_eq
  | fault root_eq =>
    rw [hroot] at root_eq
    cases root_eq
  | unreadable _ _ leaf => exact leaf

/-! ### Parts of a production -/

@[simp] theorem roots_nil : roots [] = [] := rfl

theorem roots_append : roots (ps ++ qs) = roots ps ++ roots qs := by
  rw [roots, List.filter_append, List.map_append]
  rfl

theorem roots_cons_of_isExtra (h : d.isExtra = true) : roots (d :: ps) = roots ps := by
  rw [roots, List.filter_cons_of_neg (by simp [h])]
  rfl

theorem roots_cons_of_not_isExtra (h : d.isExtra = false) :
    roots (d :: ps) = d.root :: roots ps := by
  rw [roots, List.filter_cons_of_pos (by simp [h])]
  rfl

theorem roots_eq_nil (h : ∀ d ∈ ps, d.isExtra = true) : roots ps = [] := by
  rw [roots, List.map_eq_nil_iff, List.filter_eq_nil_iff]
  intro d hd
  simp [h d hd]

theorem root_mem_roots (hd : d ∈ ps) (h : d.isExtra = false) : d.root ∈ roots ps :=
  List.mem_map_of_mem (List.mem_filter.mpr ⟨hd, by simp [h]⟩)

theorem splitExtras_eq (ps : List Derivation) : splitExtras ps =
    ((ps.reverse.dropWhile isExtra).reverse, (ps.reverse.takeWhile isExtra).reverse) := by
  have happend : (ps.reverse.dropWhile isExtra).reverse ++ (ps.reverse.takeWhile isExtra).reverse =
      ps := by
    rw [← List.reverse_append, List.takeWhile_append_dropWhile, List.reverse_reverse]
  rw [splitExtras]
  generalize (ps.reverse.dropWhile isExtra).reverse = own at happend
  generalize (ps.reverse.takeWhile isExtra).reverse = trailing at happend ⊢
  rw [← happend, List.length_append, Nat.add_sub_cancel, List.take_left]

/-- The parts come apart into those up to the last that belongs to a production, and the rest. -/
theorem splitExtras_append (ps : List Derivation) :
    (splitExtras ps).1 ++ (splitExtras ps).2 = ps := by
  rw [splitExtras_eq, ← List.reverse_append, List.takeWhile_append_dropWhile, List.reverse_reverse]

theorem isExtra_of_mem_splitExtras (hd : d ∈ (splitExtras ps).2) : d.isExtra = true := by
  rw [splitExtras_eq, List.mem_reverse] at hd
  exact List.mem_takeWhile_imp hd

theorem roots_splitExtras (ps : List Derivation) : roots (splitExtras ps).1 = roots ps := by
  conv_rhs => rw [← splitExtras_append ps, roots_append]
  rw [roots_eq_nil fun d hd => isExtra_of_mem_splitExtras hd, List.append_nil]

/-- No part of a production has been skipped. -/
theorem root_ne_of_mem (hsound : ∀ d ∈ ps, d.IsSound text) {xs : List Symbol}
    (hroots : roots ps = xs.map Symbol.root) (hd : d ∈ ps) :
    d.root ≠ .skipped ∧ (d.root.isFault = true → 0 < d.cost) := by
  by_cases hextra : d.isExtra = true
  · rcases (hsound d hd).of_isExtra hextra with ⟨t, ht⟩ | ⟨herror, hcost⟩
    · rw [ht]
      exact ⟨by simp, fun h => nomatch h⟩
    · rw [herror]
      exact ⟨by simp, fun _ => hcost⟩
  · have hmem := root_mem_roots hd (Bool.eq_false_iff.mpr hextra)
    rw [hroots] at hmem
    obtain ⟨x, -, hx⟩ := List.mem_map.mp hmem
    rw [← hx]
    cases x <;> exact ⟨by simp [Symbol.root], fun h => nomatch h⟩

/-! ### Derivations from their parts -/

section OfParts

variable {root : Root} {steps : List Step} {place : Cursor} {high : ℕ}

theorem startByte_ofParts (root : Root) (steps : List Step) (place : Cursor)
    (ps : List Derivation) :
    (ofParts root steps place ps).startByte = (ps.head?.map startByte).getD place.point.byte := by
  cases ps <;> rfl

theorem stopByte_ofParts (root : Root) (steps : List Step) (place : Cursor)
    (ps : List Derivation) :
    (ofParts root steps place ps).stopByte = (ps.getLast?.map stopByte).getD place.point.byte := by
  change ((ps.getLast?.map fun d => d.summary.stop).getD place).point.byte = _
  cases ps.getLast? <;> rfl

/-- The byte at which some derivations end that stand behind a byte. -/
def endByte (low : ℕ) (ps : List Derivation) : ℕ :=
  ps.foldl (fun _ d => d.stopByte) low

theorem endByte_append (low : ℕ) (ps qs : List Derivation) :
    endByte low (ps ++ qs) = endByte (endByte low ps) qs :=
  List.foldl_append

/-- Sound derivations cover a text from one byte to another, but for gaps between them. -/
structure Covers (text : List Char) (low high : ℕ) (ps : List Derivation) : Prop where
  sound : ∀ d ∈ ps, d.IsSound text
  row : InRow startByte stopByte low high ps
  ends : endByte low ps = high

theorem covers_nil (text : List Char) (low : ℕ) : Covers text low low [] :=
  ⟨fun _ h => absurd h List.not_mem_nil, le_rfl, rfl⟩

theorem covers_cons {low high : ℕ} : Covers text low high (d :: ps) ↔
    d.IsSound text ∧ low ≤ d.startByte ∧ Covers text d.stopByte high ps := by
  constructor
  · rintro ⟨hsound, ⟨hlow, -, hrow⟩, hends⟩
    obtain ⟨hd, hps⟩ := List.forall_mem_cons.mp hsound
    exact ⟨hd, hlow, hps, hrow, hends⟩
  · rintro ⟨hd, hlow, hsound, hrow, hends⟩
    exact ⟨List.forall_mem_cons.mpr ⟨hd, hsound⟩, ⟨hlow, hd.startByte_le, hrow⟩, hends⟩

theorem covers_append {low high : ℕ} : Covers text low high (ps ++ qs) ↔
    Covers text low (endByte low ps) ps ∧ Covers text (endByte low ps) high qs := by
  induction ps generalizing low with
  | nil => exact ⟨fun h => ⟨covers_nil text low, h⟩, fun h => h.2⟩
  | cons d rest ih =>
    rw [List.cons_append, covers_cons, ih, covers_cons]
    tauto

/-- Sound derivations in a row cover a text up to their end. -/
theorem covers_of_inRow {low high : ℕ} (hsound : ∀ d ∈ ps, d.IsSound text)
    (hrow : InRow startByte stopByte low high ps) : Covers text low (endByte low ps) ps := by
  induction ps generalizing low with
  | nil => exact covers_nil text low
  | cons d rest ih =>
    obtain ⟨hd, hrest⟩ := List.forall_mem_cons.mp hsound
    exact covers_cons.mpr ⟨hd, hrow.1, ih hrest hrow.2.2⟩

/-- A derivation ends where its parts end. -/
theorem stopByte_ofParts_eq_endByte (root : Root) (steps : List Step) (place : Cursor)
    (ps : List Derivation) :
    (ofParts root steps place ps).stopByte = endByte place.point.byte ps := by
  rw [stopByte_ofParts]
  rcases List.eq_nil_or_concat ps with rfl | ⟨rest, d, rfl⟩
  · rfl
  · rw [List.concat_eq_append, List.getLast?_concat, endByte_append]
    rfl

/-- A derivation stands where its parts stand. -/
theorem bounds_ofParts (root : Root) (steps : List Step)
    (h : InRow startByte stopByte place.point.byte high ps) :
    place.point.byte ≤ (ofParts root steps place ps).startByte ∧
      (ofParts root steps place ps).stopByte ≤ high := by
  rw [startByte_ofParts, stopByte_ofParts]
  constructor
  · cases ps with
    | nil => exact le_rfl
    | cons d rest => exact h.1
  · cases hlast : ps.getLast? with
    | none => exact h.le
    | some d => exact (h.bounds (List.mem_of_getLast? hlast)).2.2

theorem le_repairs (ps : List Derivation) (n : ℕ) :
    n ≤ ps.foldl (fun n d => if d.root = .skipped then n else n + d.cost) n := by
  induction ps generalizing n with
  | nil => exact le_rfl
  | cons d rest ih =>
    refine le_trans ?_ (ih _)
    dsimp only
    split_ifs
    · exact le_rfl
    · exact Nat.le_add_right _ _

/-- What the repairs of a part cost, they cost in the whole. -/
theorem repairs_pos (hd : d ∈ ps) (hroot : d.root ≠ .skipped) (hcost : 0 < d.cost) (n : ℕ) :
    0 < ps.foldl (fun n d => if d.root = .skipped then n else n + d.cost) n := by
  induction ps generalizing n with
  | nil => cases hd
  | cons e rest ih =>
    rw [List.foldl_cons]
    rcases List.mem_cons.mp hd with rfl | hd
    · rw [if_neg hroot]
      exact Nat.lt_of_lt_of_le (Nat.add_pos_right n hcost) (le_repairs rest _)
    · exact ih hd _

theorem cost_ofParts_pos_of_isFault (h : root.isFault = true) :
    0 < (ofParts root steps place ps).cost := by
  change 0 < _ + ite _ _ _
  rw [if_pos h, Cost.between]
  simp only [Grammar.cost]
  omega

theorem cost_ofParts_pos_of_mem (hd : d ∈ ps) (hroot : d.root ≠ .skipped) (hcost : 0 < d.cost) :
    0 < (ofParts root steps place ps).cost :=
  Nat.add_pos_left (repairs_pos hd hroot hcost 0) _

/-- A derivation needs a place of its own only if it has no parts. -/
theorem isSound_ofParts (hplace : ps = [] → place.IsIn text)
    (hrow : InRow startByte stopByte place.point.byte high ps) (hsound : ∀ d ∈ ps, d.IsSound text)
    (hdear : (∃ d ∈ ps, d.IsWrong) → 0 < (ofParts root steps place ps).cost)
    (hform : (ofParts root steps place ps).summary.Form ps) :
    (ofParts root steps place ps).IsSound text := by
  refine .node ⟨?_, ?_, ?_, ?_, hdear, hform⟩ hsound
  · change Text.IsPlace text ((ps.head?.map fun d => d.summary.start).getD place.point)
    cases ps with
    | nil => exact (hplace rfl).isPlace
    | cons d rest => exact (hsound d List.mem_cons_self).summary.start
  · change ((ps.getLast?.map fun d => d.summary.stop).getD place).IsIn text
    cases hlast : ps.getLast? with
    | none => exact hplace (List.getLast?_eq_none_iff.mp hlast)
    | some d => exact (hsound d (List.mem_of_getLast? hlast)).summary.stop
  · have htight := hrow.tighten place.point.byte
    rwa [← startByte_ofParts root steps, ← stopByte_ofParts root steps] at htight
  · exact fun h => nomatch h

/-- **An error of sound parts is sound.** -/
theorem isSound_ofFault (hroot : root.isFault = true) (hplace : ps = [] → place.IsIn text)
    (hrow : InRow startByte stopByte place.point.byte high ps)
    (hsound : ∀ d ∈ ps, d.IsSound text) : (ofParts root [] place ps).IsSound text :=
  isSound_ofParts hplace hrow hsound (fun _ => cost_ofParts_pos_of_isFault hroot)
    (.fault hroot (fun _ => rfl) rfl (cost_ofParts_pos_of_isFault hroot))

/-- Something that is wrong in a part of a production costs something in the whole. -/
theorem cost_ofParts_pos (hsound : ∀ d ∈ ps, d.IsSound text) {xs : List Symbol}
    (hroots : roots ps = xs.map Symbol.root) (hwrong : ∃ d ∈ ps, d.IsWrong) :
    0 < (ofParts root steps place ps).cost := by
  obtain ⟨d, hd, hwrong⟩ := hwrong
  obtain ⟨hskipped, hfault⟩ := root_ne_of_mem hsound hroots hd
  exact cost_ofParts_pos_of_mem hd hskipped (hwrong.elim id hfault)

/-- **A phrase of sound parts is sound**, if they are the parts of a production. -/
theorem isSound_ofPhrase {p : Production} (hp : p ∈ p.whole.productions) (hfile : p.whole ≠ .file)
    (hsteps : steps = p.steps ∨ steps = []) (hroots : roots ps = p.symbols.map Symbol.root)
    (hplace : ps = [] → place.IsIn text) (hrow : InRow startByte stopByte place.point.byte high ps)
    (hsound : ∀ d ∈ ps, d.IsSound text) :
    (ofParts (.nonterminal p.whole) steps place ps).IsSound text :=
  isSound_ofParts hplace hrow hsound (cost_ofParts_pos hsound hroots)
    (.phrase p hp hfile rfl rfl hsteps hroots)

end OfParts

/-! ### Other derivations -/

@[simp] theorem root_weighed (d : Derivation) (weight : ℤ) : (d.weighed weight).root = d.root := by
  cases d
  rfl

@[simp] theorem isExtra_weighed (d : Derivation) (weight : ℤ) :
    (d.weighed weight).isExtra = d.isExtra := by
  cases d
  rfl

@[simp] theorem startByte_weighed (d : Derivation) (weight : ℤ) :
    (d.weighed weight).startByte = d.startByte := by
  cases d
  rfl

@[simp] theorem stopByte_weighed (d : Derivation) (weight : ℤ) :
    (d.weighed weight).stopByte = d.stopByte := by
  cases d
  rfl

theorem isSound_weighed (h : d.IsSound text) (weight : ℤ) : (d.weighed weight).IsSound text := by
  cases h with
  | @node s ps own parts =>
    refine .node ⟨own.start, own.stop, own.row, own.missing, own.dear, ?_⟩ parts
    cases own.form with
    | token t root_eq leaf steps_eq filled => exact .token t root_eq leaf steps_eq filled
    | phrase p mem inner root_eq own steps_eq hparts =>
      exact .phrase p mem inner root_eq own steps_eq hparts
    | fault root_eq own steps_eq dear => exact .fault root_eq own steps_eq dear
    | unreadable root_eq own leaf steps_eq => exact .unreadable root_eq own leaf steps_eq

/-- An error may stand anywhere if it costs something. -/
theorem isSound_asExtra (h : d.IsSound text) (hroot : d.root = .error)
    (hsteps : d.summary.steps = []) (hcost : 0 < d.cost) : d.asExtra.IsSound text := by
  cases h with
  | @node s ps own parts =>
    have hroot : s.root = .error := hroot
    refine .node ⟨own.start, own.stop, own.row, own.missing, own.dear,
      .fault ?_ (fun hskipped => ?_) hsteps hcost⟩ parts
    · exact congrArg Root.isFault hroot
    · exact nomatch hroot.symm.trans hskipped

theorem isSound_ofLexeme {l : Lexeme} {place : ℕ} (h : l.StandsIn text place) (extra : Bool)
    (hextra : l.terminal? = none → extra = false) : (ofLexeme l extra).IsSound text := by
  refine .node ⟨h.start, h.stop, h.ordered, (fun hmissing => nomatch hmissing), ?_, ?_⟩ ?_
  · rintro ⟨d, hd, -⟩
    exact absurd hd List.not_mem_nil
  · cases ht : l.terminal? with
    | none => exact .unreadable (by rw [Option.map_none, Option.getD_none]) (hextra ht) rfl rfl
    | some t =>
      exact .token t (by rw [Option.map_some, Option.getD_some]) rfl rfl fun _ heof =>
        h.filled t ht heof
  · exact fun d hd => absurd hd List.not_mem_nil

theorem isSound_ofMissing {place : Cursor} (h : place.IsIn text) (t : Terminal) :
    (ofMissing t place).IsSound text := by
  refine .node ⟨h.isPlace, h, le_rfl, fun _ => Nat.succ_pos _, ?_, ?_⟩ ?_
  · rintro ⟨d, hd, -⟩
    exact absurd hd List.not_mem_nil
  · exact .token t rfl rfl rfl fun hmissing => nomatch hmissing
  · exact fun d hd => absurd hd List.not_mem_nil

end Derivation

end Uninit.Grammar
