import Uninit.Grammar.Stack
import Uninit.Proofs.Derivations

/-!
# Sound stacks

A stack is sound if every way down goes over sound derivations, one behind the other in the text,
and every derivation leads from the state below it to the one above. Joining two stacks that meet
keeps this, and so the derivations on a way down are the parts of the production that a state says
has been read.

## Main definitions

* `State.Reads`: a derivation leads from a state to another
* `Link.Fits`: what is known of a link below a state
* `Stack.IsSound`: a stack with everything below it is sound
* `Stack.Path.Leads`: a way down from a stack

## Main statements

* `Stack.widens_join`: two sound stacks at the same state and place are sound when they are joined
* `Stack.Path.Leads.roots_eq`: the ways down go over what a state says has been read
* `Stack.roots_of_accepts`: what is below a state that accepts a file
-/
namespace Uninit.Grammar

/-- A derivation leads from a state to another: one that may stand anywhere leaves the state as it
is, and any other is read as its symbol. -/
def State.Reads (s : State) (d : Derivation) (s' : State) : Prop :=
  if d.isExtra then s' = s else ∃ x : Symbol, d.root = x.root ∧ s' = s.after x

theorem State.reads_of_isExtra {s s' : State} {d : Derivation} (h : d.isExtra = true) :
    s.Reads d s' ↔ s' = s := by
  rw [Reads, if_pos h]

theorem State.reads_of_not_isExtra {s s' : State} {d : Derivation} (h : d.isExtra = false) :
    s.Reads d s' ↔ ∃ x : Symbol, d.root = x.root ∧ s' = s.after x := by
  rw [Reads, if_neg (by simp [h])]

/-- What is known of a link below a state at a byte: the derivation stands between the places, and
it leads to the state unless the reading is lost there. Only a lost reading has no derivation. -/
def Link.Fits (text : List Char) (state : State) (byte : ℕ) : Link → Prop
  | (none, below) => below.place.point.byte = byte ∧ state.isLost = true
  | (some d, below) => d.IsSound text ∧ below.place.point.byte ≤ d.startByte ∧ d.stopByte = byte ∧
      (state.isLost = false → below.state.Reads d state)

/-- A stack with everything below it is sound. At its ground no part of a production has been
read. -/
inductive Stack.IsSound (text : List Char) : Stack → Prop
  | node {t : Top} {ls : List Link} (place : t.place.IsIn text) (state : t.state.IsSound)
      (ground : ls = [] → ∀ i ∈ t.state.items, i.done = 0)
      (lower : ∀ l ∈ ls, IsSound text l.2)
      (links : ∀ l ∈ ls, Link.Fits text t.state t.place.point.byte l) : IsSound text (.node t ls)

namespace Stack

variable {text : List Char} {s a b : Stack}

namespace IsSound

theorem place (h : s.IsSound text) : s.place.IsIn text := by
  cases h with
  | node place => exact place

theorem state (h : s.IsSound text) : s.state.IsSound := by
  cases h with
  | node _ state => exact state

theorem ground (h : s.IsSound text) (hlinks : s.links = []) : ∀ i ∈ s.state.items, i.done = 0 := by
  cases h with
  | node _ _ ground => exact ground hlinks

theorem lower (h : s.IsSound text) {l : Link} (hl : l ∈ s.links) : l.2.IsSound text := by
  cases h with
  | node _ _ _ lower => exact lower l hl

theorem fits (h : s.IsSound text) {l : Link} (hl : l ∈ s.links) :
    l.Fits text s.state s.place.point.byte := by
  cases h with
  | node _ _ _ _ links => exact links l hl

end IsSound

theorem isSound_default : (default : Stack).IsSound text :=
  .node (Cursor.isIn_default text) State.isSound_default (fun _ _ h => absurd h List.not_mem_nil)
    (fun _ h => absurd h List.not_mem_nil) fun _ h => absurd h List.not_mem_nil

theorem isSound_bottom (text : List Char) : (bottom text).IsSound text := by
  refine .node (Cursor.isIn_start text) State.isSound_start (fun _ i hi => ?_)
    (fun _ h => absurd h List.not_mem_nil) fun _ h => absurd h List.not_mem_nil
  change i ∈ State.start.items at hi
  rw [State.start, State.items_ofItems] at hi
  obtain ⟨p, -, rfl⟩ := List.mem_map.mp hi
  rfl

theorem isSound_make {state : State} {place : Cursor} {cost nodes : ℕ} {weight : ℤ}
    {ls : List Link} (hplace : place.IsIn text) (hstate : state.IsSound) (hne : ls ≠ [])
    (hls : ∀ l ∈ ls, l.2.IsSound text ∧ l.Fits text state place.point.byte) :
    (make state place cost weight nodes ls).IsSound text :=
  .node hplace hstate (fun h => absurd h hne) (fun l hl => (hls l hl).1) fun l hl => (hls l hl).2

theorem isSound_make_singleton {state : State} {place : Cursor} {cost nodes : ℕ} {weight : ℤ}
    {l : Link} (hplace : place.IsIn text) (hstate : state.IsSound) (hbelow : l.2.IsSound text)
    (hfits : l.Fits text state place.point.byte) :
    (make state place cost weight nodes [l]).IsSound text :=
  isSound_make hplace hstate (List.cons_ne_nil l []) (List.forall_mem_singleton.mpr ⟨hbelow, hfits⟩)

/-- A derivation is put on a stack behind it, where it leads to the new state. -/
theorem isSound_push {d : Derivation} {state : State} (hs : s.IsSound text) (hd : d.IsSound text)
    (hplace : s.place.point.byte ≤ d.startByte) (hstate : state.IsSound)
    (hreads : state.isLost = false → s.state.Reads d state) : (s.push d state).IsSound text :=
  isSound_make_singleton hd.summary.stop hstate hs ⟨hd, hplace, rfl, hreads⟩

theorem isSound_loseWay (hs : s.IsSound text) : s.loseWay.IsSound text :=
  isSound_make_singleton hs.place State.isSound_lost hs ⟨rfl, State.isLost_lost⟩

/-! ## Joining stacks -/

/-- Stacks that meet are at the same state and at the same byte. -/
theorem eq_of_meets (ha : a.IsSound text) (hb : b.IsSound text) (h : a.meets b = true) :
    a.state = b.state ∧ a.place.point.byte = b.place.point.byte := by
  rw [meets, Bool.and_eq_true, Bool.and_eq_true, beq_iff_eq] at h
  exact ⟨State.eq_of_same ha.state hb.state h.2, h.1.1⟩

/-- A stack has more links than another, and is sound. -/
structure Widens (text : List Char) (s s' : Stack) : Prop where
  isSound : s'.IsSound text
  state_eq : s'.state = s.state
  place_eq : s'.place = s.place

theorem Widens.refl (h : s.IsSound text) : s.Widens text s :=
  ⟨h, rfl, rfl⟩

/-- What is known of a link is known of it too if the stack below is replaced by a wider one. -/
theorem Widens.fits {o : Option Derivation} {state : State} {byte : ℕ} (h : a.Widens text b)
    (hfits : Link.Fits text state byte (o, a)) : Link.Fits text state byte (o, b) := by
  cases o with
  | none => rwa [Link.Fits, h.place_eq]
  | some d => rwa [Link.Fits, h.place_eq, h.state_eq]

section FitLink

variable {unite : Stack → Stack → Stack} {state : State} {byte : ℕ} {new : Link}

/-- A link is fitted in by keeping one of two that agree, or by joining what is below them. -/
theorem fits_of_fitLink
    (hunite : ∀ a b : Stack, a.IsSound text → b.IsSound text → a.meets b = true →
      a.Widens text (unite a b))
    (hnew : new.2.IsSound text ∧ new.Fits text state byte) {ls ls' : List Link} {f : ℤ → ℤ}
    (hls : ∀ l ∈ ls, l.2.IsSound text ∧ l.Fits text state byte)
    (h : fitLink unite new ls = some (ls', f)) :
    ls' ≠ [] ∧ ∀ l ∈ ls', l.2.IsSound text ∧ l.Fits text state byte := by
  induction ls generalizing ls' f with
  | nil => cases h
  | cons l rest ih =>
    obtain ⟨hl, hrest⟩ := List.forall_mem_cons.mp hls
    have hkeep : l :: rest ≠ [] ∧ ∀ k ∈ l :: rest, k.2.IsSound text ∧ k.Fits text state byte :=
      ⟨List.cons_ne_nil l rest, hls⟩
    rw [fitLink] at h
    split_ifs at h with hsame hmeets
    · split at h
      · split_ifs at h
        · obtain ⟨rfl, -⟩ := Prod.mk.inj (Option.some.inj h)
          exact ⟨List.cons_ne_nil _ _, List.forall_mem_cons.mpr ⟨hnew, hrest⟩⟩
        · obtain ⟨rfl, -⟩ := Prod.mk.inj (Option.some.inj h)
          exact hkeep
      · obtain ⟨rfl, -⟩ := Prod.mk.inj (Option.some.inj h)
        exact hkeep
    · obtain ⟨rfl, -⟩ := Prod.mk.inj (Option.some.inj h)
      rw [Bool.and_eq_true] at hmeets
      have hwidens := hunite l.2 new.2 hl.1 hnew.1 hmeets.2
      exact ⟨List.cons_ne_nil _ _,
        List.forall_mem_cons.mpr ⟨⟨hwidens.isSound, hwidens.fits hl.2⟩, hrest⟩⟩
    · obtain ⟨⟨more, g⟩, hmore, hrfl⟩ := Option.map_eq_some_iff.mp h
      obtain ⟨rfl, -⟩ := Prod.mk.inj hrfl
      exact ⟨List.cons_ne_nil _ _, List.forall_mem_cons.mpr ⟨hl, (ih hrest hmore).2⟩⟩

end FitLink

/-- Links that fit are added one by one. -/
theorem widens_foldl {add : Stack → Link → Stack} {ls : List Link}
    (hadd : ∀ (s : Stack) (l : Link), s.IsSound text → l.2.IsSound text →
      l.Fits text s.state s.place.point.byte → s.Widens text (add s l))
    (hs : s.IsSound text)
    (hls : ∀ l ∈ ls, l.2.IsSound text ∧ l.Fits text s.state s.place.point.byte) :
    s.Widens text (ls.foldl add s) := by
  induction ls generalizing s with
  | nil => exact .refl hs
  | cons l rest ih =>
    obtain ⟨hl, hrest⟩ := List.forall_mem_cons.mp hls
    have hfirst := hadd s l hs hl.1 hl.2
    have hlast := ih hfirst.isSound (by rwa [hfirst.state_eq, hfirst.place_eq])
    exact ⟨hlast.isSound, hlast.state_eq.trans hfirst.state_eq,
      hlast.place_eq.trans hfirst.place_eq⟩

/-- The links of a stack fit below another one at the same state and place. -/
theorem fits_of_eq (hb : b.IsSound text) (hstate : a.state = b.state)
    (hplace : a.place.point.byte = b.place.point.byte) :
    ∀ l ∈ b.links, l.2.IsSound text ∧ l.Fits text a.state a.place.point.byte := by
  intro l hl
  rw [hstate, hplace]
  exact ⟨hb.lower hl, hb.fits hl⟩

theorem widens_addLink (fuel : ℕ) {l : Link} (hs : s.IsSound text) (hbelow : l.2.IsSound text)
    (hfits : l.Fits text s.state s.place.point.byte) : s.Widens text (addLink fuel s l) := by
  induction fuel generalizing s l with
  | zero => exact .refl hs
  | succ fuel ih =>
    have hunite : ∀ a b : Stack, a.IsSound text → b.IsSound text → a.meets b = true →
        a.Widens text (b.links.foldl (addLink fuel) a) := by
      intro a b ha hb hmeets
      obtain ⟨hstate, hplace⟩ := eq_of_meets ha hb hmeets
      exact widens_foldl (fun _ _ hs hl hfits => ih hs hl hfits) ha (fits_of_eq hb hstate hplace)
    have hlinks : ∀ k ∈ s.links, k.2.IsSound text ∧ k.Fits text s.state s.place.point.byte :=
      fun k hk => ⟨hs.lower hk, hs.fits hk⟩
    rw [addLink]
    split
    · next ls f hfit =>
      obtain ⟨hne, hls⟩ := fits_of_fitLink hunite ⟨hbelow, hfits⟩ hlinks hfit
      exact ⟨isSound_make hs.place hs.state hne hls, rfl, rfl⟩
    · split_ifs
      · exact .refl hs
      · refine ⟨isSound_make hs.place hs.state (by simp) fun k hk => ?_, rfl, rfl⟩
        rcases List.mem_append.mp hk with hk | hk
        · exact hlinks k hk
        · obtain rfl := List.mem_singleton.mp hk
          exact ⟨hbelow, hfits⟩

/-- **Two sound stacks at the same state and place are sound when they are joined.** -/
theorem widens_join (ha : a.IsSound text) (hb : b.IsSound text) (hstate : a.state = b.state)
    (hplace : a.place.point.byte = b.place.point.byte) : a.Widens text (a.join b) :=
  widens_foldl (fun _ _ hs hl hfits => widens_addLink _ hs hl hfits) ha
    (fits_of_eq hb hstate hplace)

/-! ## Ways down -/

namespace Path

/-- A way down from a stack. -/
inductive Leads (s : Stack) : Path → Prop
  | start : Leads s ⟨s, [], 0⟩
  | extend {p : Path} {l : Link} (before : Leads s p) (link : l ∈ p.below.links) :
      Leads s (p.extend l)

theorem leads_stepAll (count n : ℕ) {ps : List Path} (h : ∀ p ∈ ps, p.Leads s) :
    (∀ p ∈ (stepAll count n ps).ended, p.Leads s ∧ p.depth = count) ∧
      (∀ p ∈ (stepAll count n ps).kept, p.Leads s) ∧
      ∀ p ∈ (stepAll count n ps).added, p.Leads s := by
  induction ps generalizing n with
  | nil => simp [stepAll]
  | cons p rest ih =>
    obtain ⟨hp, hrest⟩ := List.forall_mem_cons.mp h
    rw [stepAll]
    split_ifs with hdepth
    · obtain ⟨hended, hkept, hadded⟩ := ih (n - 1) hrest
      exact ⟨List.forall_mem_cons.mpr ⟨⟨hp, eq_of_beq hdepth⟩, hended⟩, hkept, hadded⟩
    · split
      · exact ih _ hrest
      · next l more hlinks =>
        have hextend : ∀ k ∈ l :: more, (p.extend k).Leads s := fun k hk =>
          .extend hp (hlinks ▸ hk)
        obtain ⟨hended, hkept, hadded⟩ :=
          ih (n + ((more.take (maxCount - n)).map p.extend).length) hrest
        refine ⟨hended, List.forall_mem_cons.mpr ⟨hextend l List.mem_cons_self, hkept⟩, ?_⟩
        intro q hq
        rcases List.mem_append.mp hq with hq | hq
        · obtain ⟨k, hk, rfl⟩ := List.mem_map.mp hq
          exact hextend k (List.mem_cons_of_mem l (List.mem_of_mem_take hk))
        · exact hadded q hq

theorem leads_collect {count fuel : ℕ} {ps : List Path} (h : ∀ p ∈ ps, p.Leads s) :
    ∀ p ∈ collect count fuel ps, p.Leads s ∧ p.depth = count := by
  induction fuel generalizing ps with
  | zero => simp [collect]
  | succ fuel ih =>
    cases ps with
    | nil => simp [collect]
    | cons p rest =>
      obtain ⟨hended, hkept, hadded⟩ := leads_stepAll count (p :: rest).length h
      intro q hq
      simp only [collect, List.mem_append] at hq
      rcases hq with hq | hq
      · exact hended q hq
      · refine ih (fun p hp => ?_) q hq
        rw [List.mem_append] at hp
        exact hp.elim (hkept p) (hadded p)

end Path

theorem leads_of_mem_paths {count : ℕ} {p : Path} (h : p ∈ s.paths count) :
    p.Leads s ∧ p.depth = count :=
  Path.leads_collect (fun _ hq => List.mem_singleton.mp hq ▸ .start) p h

theorem leads_pathsToBottom {fuel : ℕ} {ps : List Path} (h : ∀ p ∈ ps, p.Leads s)
    {ds : List Derivation} (hds : ds ∈ pathsToBottom fuel ps) :
    ∃ p : Path, p.Leads s ∧ p.below.links = [] ∧ p.parts = ds := by
  induction fuel generalizing ps with
  | zero => cases hds
  | succ fuel ih =>
    cases ps with
    | nil => cases hds
    | cons p rest =>
      simp only [pathsToBottom, List.mem_append] at hds
      rcases hds with hds | hds
      · obtain ⟨q, hq, rfl⟩ := List.mem_map.mp hds
        obtain ⟨hmem, hbottom⟩ := List.mem_filter.mp hq
        exact ⟨q, h q hmem, List.isEmpty_iff.mp hbottom, rfl⟩
      · refine ih (fun q hq => ?_) hds
        obtain ⟨r, hr, hq⟩ := List.mem_flatMap.mp (List.mem_of_mem_take hq)
        obtain ⟨l, hl, rfl⟩ := List.mem_map.mp hq
        exact .extend (h r hr) hl

theorem leads_of_mem_contents {ds : List Derivation} (h : ds ∈ s.contents) :
    ∃ p : Path, p.Leads s ∧ p.below.links = [] ∧ p.parts = ds :=
  leads_pathsToBottom (fun _ hq => List.mem_singleton.mp hq ▸ .start) h

end Stack

/-! ## What is on a way down -/

namespace Stack.Path.Leads

open Uninit.Grammar.Derivation

variable {text : List Char} {s : Stack} {p : Path}

/-- A way down goes over sound derivations that cover the text. -/
theorem isSound (h : p.Leads s) (hs : s.IsSound text) :
    p.below.IsSound text ∧
      Covers text p.below.place.point.byte s.place.point.byte p.parts := by
  induction h with
  | start => exact ⟨hs, covers_nil text _⟩
  | @extend p l before link ih =>
    obtain ⟨hbelow, hcovers⟩ := ih
    have hfits := hbelow.fits link
    have hlower := hbelow.lower link
    obtain ⟨_ | d, c⟩ := l
    · rw [← hfits.1] at hcovers
      exact ⟨hlower, hcovers⟩
    · obtain ⟨hd, hstart, hstop, -⟩ := hfits
      rw [← hstop] at hcovers
      exact ⟨hlower, covers_cons.mpr ⟨hd, hstart, hcovers⟩⟩

/-- A way down a stack with one link goes over that link first. -/
theorem eq_append_of_links {o : Derivation} {b : Stack} (h : p.Leads s)
    (hlinks : s.links = [(some o, b)]) :
    p = ⟨s, [], 0⟩ ∨ ∃ q : Path, q.Leads b ∧ q.below = p.below ∧ p.parts = q.parts ++ [o] := by
  induction h with
  | start => exact .inl rfl
  | @extend p l before link ih =>
    right
    rcases ih with rfl | ⟨q, hq, hbelow, hparts⟩
    · rw [show (⟨s, [], 0⟩ : Path).below.links = s.links from rfl, hlinks] at link
      obtain rfl := List.mem_singleton.mp link
      exact ⟨⟨b, [], 0⟩, .start, rfl, rfl⟩
    · rw [← hbelow] at link
      refine ⟨q.extend l, .extend hq link, ?_, ?_⟩
      all_goals obtain ⟨_ | d, c⟩ := l
      · rfl
      · rfl
      · exact hparts
      · exact congrArg (d :: ·) hparts

variable {i : Item}

theorem depth_extend_of_isExtra {d : Derivation} (h : d.isExtra = true) (p : Path) (c : Stack) :
    (p.extend (some d, c)).depth = p.depth :=
  if_pos h

theorem depth_extend_of_counts {o : Option Derivation} (h : ¬ o.any isExtra = true) (p : Path)
    (c : Stack) : (p.extend (o, c)).depth = p.depth + 1 := by
  cases o with
  | none => rfl
  | some d => exact if_neg h

theorem depth_le_extend (p : Path) (l : Link) : p.depth ≤ (p.extend l).depth := by
  obtain ⟨o, c⟩ := l
  by_cases hcounts : o.any isExtra = true
  · obtain ⟨d, rfl, hextra⟩ := (Option.any_eq_true _ _).mp hcounts
    rw [depth_extend_of_isExtra hextra]
  · rw [depth_extend_of_counts hcounts]
    exact Nat.le_succ _

/-- Where something of a production has been read, the reading is not lost: the state comes from
the one below by a derivation. -/
theorem reads_of_mem {below : Stack} {l : Link} (hbelow : below.IsSound text)
    (hl : l ∈ below.links) (hi : i ∈ below.state.items) :
    ∃ d c, l = (some d, c) ∧ c.state.Reads d below.state := by
  have hfound : below.state.isLost = false := State.isLost_eq_false_of_mem hi
  have hfits := hbelow.fits hl
  obtain ⟨_ | d, c⟩ := l
  · exact nomatch hfound.symm.trans hfits.2
  · exact ⟨d, c, rfl, hfits.2.2.2 hfound⟩

/-- **The ways down go over what a state says has been read.** On a way down over some parts of a
production they are its last ones that have been read, and the state below says that the others have
been, unless the production begins there; for a production of a file, the state says so too. -/
theorem roots_eq (h : p.Leads s) (hs : s.IsSound text) (hi : i ∈ s.state.items)
    (hdepth : p.depth ≤ i.done) :
    ∃ n, n + p.depth = i.done ∧
      roots p.parts = ((i.production.symbols.take i.done).drop n).map Symbol.root ∧
      (n ≠ 0 ∨ i.production.whole = .file →
        ∃ j ∈ p.below.state.items, j.production = i.production ∧ j.done = n) := by
  induction h with
  | start =>
    refine ⟨i.done, rfl, ?_, fun _ => ⟨i, hi, rfl, rfl⟩⟩
    rw [List.drop_take_self]
    rfl
  | @extend p l before link ih =>
    have hbelow : p.below.IsSound text := (before.isSound hs).1
    obtain ⟨n, hn, hroots, hitem⟩ := ih ((depth_le_extend p l).trans hdepth)
    obtain ⟨o, c⟩ := l
    by_cases hcounts : o.any isExtra = true
    · -- the state below is the same
      obtain ⟨d, rfl, hextra⟩ := (Option.any_eq_true _ _).mp hcounts
      refine ⟨n, ?_, ?_, fun hcase => ?_⟩
      · rwa [depth_extend_of_isExtra hextra]
      · exact (roots_cons_of_isExtra hextra).trans hroots
      · obtain ⟨j, hj, hsame⟩ := hitem hcase
        obtain ⟨d', c', heq, hreads⟩ := reads_of_mem hbelow link hj
        cases heq
        rw [State.reads_of_isExtra hextra] at hreads
        exact ⟨j, hreads ▸ hj, hsame⟩
    · -- one more part of the production is on the way
      rw [depth_extend_of_counts hcounts] at hdepth ⊢
      obtain ⟨j, hj, hproduction, hdone⟩ := hitem (.inl (by omega))
      obtain ⟨d, c', heq, hreads⟩ := reads_of_mem hbelow link hj
      cases heq
      have hown : d.isExtra = false := Bool.eq_false_iff.mpr hcounts
      obtain ⟨x, hroot, hstate⟩ := (State.reads_of_not_isExtra hown).mp hreads
      rw [hstate] at hj
      obtain ⟨m, hm, hsymbol, hfrom⟩ := State.last_of_mem_after (hbelow.lower link).state hj
      refine ⟨m, by omega, ?_, fun hcase => ?_⟩
      · have htaken : (i.production.symbols.take i.done)[m]? = some x := by
          rw [List.getElem?_take_of_lt (by omega), ← hproduction, hsymbol]
        obtain ⟨hlt, hget⟩ := List.getElem?_eq_some_iff.mp htaken
        rw [List.drop_eq_getElem_cons hlt, hget, List.map_cons, ← hroot, ← hm, hdone, ← hroots]
        exact roots_cons_of_not_isExtra hown
      · rcases hfrom with ⟨k, hk, hsame, hkdone⟩ | ⟨rfl, hwhole⟩
        · exact ⟨k, hk, hsame.trans hproduction, hkdone⟩
        · rw [hproduction] at hwhole
          exact absurd hcase (by simp [hwhole])

/-- The parts of a production that has been read to its end are found on the ways down over as many
parts as it has. -/
theorem roots_eq_symbols (h : p.Leads s) (hs : s.IsSound text) (hi : i ∈ s.state.items)
    (hwhole : i.next = []) (hdepth : p.depth = i.production.steps.length) :
    roots p.parts = i.production.symbols.map Symbol.root := by
  have hdone : i.done = i.production.steps.length := (hs.state i hi).done_eq hwhole
  obtain ⟨n, hn, hroots, -⟩ := h.roots_eq hs hi (by omega)
  obtain rfl : n = 0 := by omega
  rwa [hdone, Production.symbols, List.drop_zero, ← List.length_map (f := Step.symbol),
    List.take_length] at hroots

/-- Below a state in which a file has been read to its end there is nothing but the translation unit
and what may stand anywhere. -/
theorem depth_le_of_file (h : p.Leads s) (hs : s.IsSound text) (hi : i ∈ s.state.items)
    (hfile : i.production.whole = .file) : p.depth ≤ i.done := by
  induction h with
  | start => exact Nat.zero_le _
  | @extend p l before link ih =>
    have hbelow : p.below.IsSound text := (before.isSound hs).1
    obtain ⟨n, hn, -, hitem⟩ := before.roots_eq hs hi ih
    obtain ⟨j, hj, -, hdone⟩ := hitem (.inr hfile)
    obtain ⟨d, c, rfl, hreads⟩ := reads_of_mem hbelow link hj
    by_cases hextra : d.isExtra = true
    · rwa [depth_extend_of_isExtra hextra]
    · rw [State.reads_of_not_isExtra (Bool.eq_false_iff.mpr hextra)] at hreads
      obtain ⟨x, -, hstate⟩ := hreads
      rw [hstate] at hj
      obtain ⟨m, hm, -⟩ := State.last_of_mem_after (hbelow.lower link).state hj
      rw [depth_extend_of_counts (o := some d) hextra]
      omega

end Stack.Path.Leads

/-- **What is below a state that accepts a file**: on every way to the ground, a translation unit
and what may stand anywhere. -/
theorem Stack.roots_of_accepts {text : List Char} {s : Stack} {i : Item} (hs : s.IsSound text)
    (hi : i ∈ s.state.items) (hwhole : i.next = []) (hfile : i.production.whole = .file)
    {p : Path} (h : p.Leads s) (hground : p.below.links = []) :
    Derivation.roots p.parts = [.nonterminal .translationUnit] := by
  obtain ⟨n, hn, hroots, hitem⟩ := h.roots_eq hs hi (h.depth_le_of_file hs hi hfile)
  obtain ⟨j, hj, -, hdone⟩ := hitem (.inr hfile)
  have hfirst : n = 0 := hdone.symm.trans ((h.isSound hs).1.ground hground j hj)
  have hmem := (hs.state i hi).mem
  rw [hfile] at hmem
  have hsymbols := Production.symbols_file hmem
  have hlength : i.done = i.production.symbols.length := by
    rw [(hs.state i hi).done_eq hwhole, Production.symbols, List.length_map]
  rw [hroots, hfirst, hlength, List.take_length, hsymbols]
  rfl

end Uninit.Grammar
