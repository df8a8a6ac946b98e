import Uninit.Grammar.Version
import Uninit.Proofs.Stacks

/-!
# Sound versions of a reading

Every version of a reading has a sound stack until it is at its end. Making a production whole takes
its parts from a way down, which are those that the production asks for, and puts a sound phrase on
the stack below; so new versions are sound, they have come to the same place, and other versions are
left as they are or joined with them. What a version reads as a whole text is a sound derivation of
a translation unit, or an error.

## Main definitions

* `Version.IsSound`, `Version.IsAt`: a version is sound, and it has come to a place
* `Reading.IsSound`: all versions of a reading are sound
* `Reading.Grows`: new versions at a place have been added

## Main statements

* `Reading.grows_reduce`: making a production whole adds sound versions
* `Reading.isSound_accept`: what has been read as a whole text is sound
-/
namespace Uninit.Grammar

open Uninit.Grammar.Derivation

variable {text : List Char} {n : ℕ}

namespace Stack

theorem state_push (s : Stack) (d : Derivation) (state : State) :
    (s.push d state).state = state := rfl

/-- Derivations that may stand anywhere are put on a stack without a change of its state. -/
theorem isSound_foldl_push {s : Stack} {ds : List Derivation} {state : State}
    (hs : s.IsSound text) (hstate : s.state = state) (hextra : ∀ d ∈ ds, d.isExtra = true)
    (hcovers : Covers text s.place.point.byte n ds) :
    (ds.foldl (fun t d => t.push d state) s).IsSound text ∧
      (ds.foldl (fun t d => t.push d state) s).place.point.byte = n := by
  induction ds generalizing s with
  | nil => exact ⟨hs, hcovers.ends⟩
  | cons d rest ih =>
    obtain ⟨hd, hstart, hrest⟩ := covers_cons.mp hcovers
    obtain ⟨hextra, hextras⟩ := List.forall_mem_cons.mp hextra
    have hpush : (s.push d state).IsSound text :=
      isSound_push hs hd hstart (hstate ▸ hs.state) fun _ =>
        (State.reads_of_isExtra hextra).mpr hstate.symm
    exact ih hpush (state_push s d state) hextras hrest

end Stack

namespace Version

/-- A version has a sound stack until it is at its end, goes back to sound states alone, and waits
for a token of the text. -/
structure IsSound (text : List Char) (v : Version) : Prop where
  stack : v.isEnded = false → v.stack.IsSound text
  retreats : ∀ e ∈ v.retreats, e.state.IsSound
  waiting : ∀ l, v.status = .waiting l → l.StandsIn text v.stack.place.point.byte

/-- A version goes on with a sound stack and has come to a byte of the text. -/
structure IsAt (text : List Char) (n : ℕ) (v : Version) : Prop where
  stack : v.stack.IsSound text
  place : v.stack.place.point.byte = n
  running : v.status = .running

/-- What is said of a version is kept when its stack gets more links. -/
def IsStable (text : List Char) (P : Version → Prop) : Prop :=
  ∀ v w : Version, v.stack.Widens text w.stack → w.status = v.status → P v → P w

variable {v w : Version}

theorem isStable_isAt (text : List Char) (n : ℕ) : IsStable text (IsAt text n) := by
  rintro v w hwidens hstatus ⟨-, hplace, hrunning⟩
  exact ⟨hwidens.isSound, hwidens.place_eq ▸ hplace, hstatus.trans hrunning⟩

theorem isStable_state (text : List Char) (st : State) : IsStable text fun v => v.state = st := by
  rintro v w hwidens - rfl
  exact hwidens.state_eq

theorem IsStable.and {P Q : Version → Prop} (hP : IsStable text P) (hQ : IsStable text Q) :
    IsStable text fun v => P v ∧ Q v :=
  fun v w h hstatus hv => ⟨hP v w h hstatus hv.1, hQ v w h hstatus hv.2⟩

theorem isSound_of {s : Stack} (h : s.IsSound text) (mark : ℕ) : (of s mark).IsSound text :=
  ⟨fun _ => h, fun _ he => absurd he List.not_mem_nil, fun _ hl => nomatch hl⟩

theorem isSound_default : (default : Version).IsSound text :=
  isSound_of Stack.isSound_default 0

theorem running_ne_waiting (l : Lexeme) : Status.running ≠ .waiting l := nofun

/-- A version is sound with another stack if it goes on. -/
theorem IsSound.with_stack (h : v.IsSound text) {s : Stack} (hs : s.IsSound text) (mark : ℕ)
    {status : Status} (hstatus : ∀ l, status ≠ .waiting l) :
    (⟨s, mark, status, v.retreats⟩ : Version).IsSound text :=
  ⟨fun _ => hs, h.retreats, fun l hl => absurd hl (hstatus l)⟩

/-- A version at its end is sound. -/
theorem IsSound.ended (h : v.IsSound text) (s : Stack) (mark : ℕ) :
    (⟨s, mark, .ended, v.retreats⟩ : Version).IsSound text :=
  ⟨(fun hended => nomatch hended), h.retreats, fun _ hl => nomatch hl⟩

theorem status_of_isRunning (h : v.isRunning = true) : v.status = .running := by
  unfold isRunning at h
  split at h
  · assumption
  · cases h

theorem isRunning_of_meets (h : v.meets w = true) :
    v.status = .running ∧ w.status = .running ∧ v.stack.meets w.stack = true := by
  rw [meets, Bool.and_eq_true, Bool.and_eq_true] at h
  exact ⟨status_of_isRunning h.1.1, status_of_isRunning h.1.2, h.2⟩

theorem isEnded_eq_false_of_running (h : v.status = .running) : v.isEnded = false := by
  rw [isEnded, h]

/-- Versions that meet are joined to a sound one. -/
theorem join_of_meets (hv : v.IsSound text) (hw : w.stack.IsSound text) (h : v.meets w = true) :
    v.stack.Widens text (v.join w).stack ∧ (v.join w).IsSound text ∧
      (v.join w).IsAt text w.stack.place.point.byte := by
  obtain ⟨hrunning, -, hstacks⟩ := isRunning_of_meets h
  have hstack : v.stack.IsSound text := hv.stack (isEnded_eq_false_of_running hrunning)
  obtain ⟨hstate, hplace⟩ := Stack.eq_of_meets hstack hw hstacks
  have hwidens := Stack.widens_join hstack hw hstate hplace
  refine ⟨hwidens, hv.with_stack hwidens.isSound _ (by simp [hrunning]), hwidens.isSound, ?_,
    hrunning⟩
  rw [← hplace]
  exact congrArg (fun c => c.point.byte) hwidens.place_eq

end Version

/-! ## Versions of a reading -/

namespace Derivation

/-- A sound derivation of a whole text is one of a translation unit, or an error that costs
something. -/
def IsWhole (text : List Char) (d : Derivation) : Prop :=
  d.IsSound text ∧ (d.root = .nonterminal .translationUnit ∨ d.root = .error ∧ 0 < d.cost)

end Derivation

namespace Reading

/-- All versions of a reading are sound, and so is the best way to read the whole text so far. -/
structure IsSound (text : List Char) (r : Reading) : Prop where
  versions : ∀ v ∈ r.versions, v.IsSound text
  finished : ∀ d, r.finished = some d → d.IsWhole text

/-- Something is said of the version at a place, which is there. -/
def Has (P : Version → Prop) (r : Reading) (k : ℕ) : Prop :=
  ∃ v, r.versions[k]? = some v ∧ P v

/-- All versions from some place on have come to a byte of the text. -/
def IsAtFrom (text : List Char) (n : ℕ) (r : Reading) (m : ℕ) : Prop :=
  ∀ k v, m ≤ k → r.versions[k]? = some v → v.IsAt text n

variable {r r' r'' : Reading} {P : Version → Prop} {i j k m : ℕ} {v new : Version}

theorem Has.get (h : r.Has P k) : P (r.get k) := by
  obtain ⟨v, hv, hP⟩ := h
  rwa [Reading.get, hv, Option.getD_some]

theorem Has.lt_length (h : r.Has P k) : k < r.versions.length := by
  obtain ⟨v, hv, -⟩ := h
  exact (List.getElem?_eq_some_iff.mp hv).1

theorem Has.imp {Q : Version → Prop} (h : r.Has P k) (hPQ : ∀ v, P v → Q v) : r.Has Q k := by
  obtain ⟨v, hv, hP⟩ := h
  exact ⟨v, hv, hPQ v hP⟩

theorem has_get (hk : k < r.versions.length) (h : P (r.get k)) : r.Has P k := by
  rw [Reading.get, List.getElem?_eq_getElem hk, Option.getD_some] at h
  exact ⟨r.versions[k], List.getElem?_eq_getElem hk, h⟩

/-- The version at a place is sound, also if there is none. -/
theorem IsSound.get (h : r.IsSound text) (k : ℕ) : (r.get k).IsSound text := by
  rw [Reading.get]
  cases hk : r.versions[k]? with
  | none => exact Version.isSound_default
  | some v => exact h.versions v (List.mem_of_getElem? hk)

theorem isAtFrom_length (text : List Char) (n : ℕ) (r : Reading) :
    r.IsAtFrom text n r.versions.length := by
  intro k v hk hv
  have hlt := (List.getElem?_eq_some_iff.mp hv).1
  omega

theorem IsAtFrom.mono (h : r.IsAtFrom text n m) (hm : m ≤ k) : r.IsAtFrom text n k :=
  fun j v hj => h j v (hm.trans hj)

theorem IsAtFrom.has (h : r.IsAtFrom text n m) (hm : m ≤ k) (hk : k < r.versions.length) :
    r.Has (Version.IsAt text n) k :=
  ⟨r.versions[k], List.getElem?_eq_getElem hk, h k _ hm (List.getElem?_eq_getElem hk)⟩

/-! ### Changing the list of versions -/

theorem isSound_set (h : r.IsSound text) (hv : v.IsSound text) : (r.set k v).IsSound text := by
  refine ⟨fun w hw => ?_, h.finished⟩
  rcases List.mem_or_eq_of_mem_set hw with hw | rfl
  · exact h.versions w hw
  · exact hv

theorem isSound_append (h : r.IsSound text) {vs : List Version} (hvs : ∀ v ∈ vs, v.IsSound text) :
    ({ r with versions := r.versions ++ vs } : Reading).IsSound text :=
  ⟨fun w hw => (List.mem_append.mp hw).elim (h.versions w) (hvs w), h.finished⟩

theorem isSound_remove (h : r.IsSound text) (k : ℕ) : (r.remove k).IsSound text :=
  ⟨fun w hw => h.versions w (List.mem_of_mem_eraseIdx hw), h.finished⟩

theorem isSound_move (h : r.IsSound text) (j i : ℕ) : (r.move j i).IsSound text :=
  isSound_remove (isSound_set h (h.get j)) j

theorem has_set_self (hk : k < r.versions.length) (hv : P v) : (r.set k v).Has P k :=
  ⟨v, by rw [Reading.set, List.getElem?_set_self hk], hv⟩

theorem Has.set_of_ne (h : r.Has P k) (hne : j ≠ k) : (r.set j v).Has P k := by
  obtain ⟨w, hw, hP⟩ := h
  exact ⟨w, by rw [Reading.set, List.getElem?_set_ne hne, hw], hP⟩

theorem Has.set (h : r.Has P k) (hv : P v) (j : ℕ) : (r.set j v).Has P k := by
  by_cases hne : j = k
  · subst hne
    exact has_set_self h.lt_length hv
  · exact h.set_of_ne hne

theorem Has.append (h : r.Has P k) (vs : List Version) :
    ({ r with versions := r.versions ++ vs } : Reading).Has P k := by
  obtain ⟨w, hw, hP⟩ := h
  exact ⟨w, by rw [List.getElem?_append_left (List.getElem?_eq_some_iff.mp hw).1, hw], hP⟩

theorem Has.remove_of_lt (h : r.Has P k) (hlt : k < j) : (r.remove j).Has P k := by
  obtain ⟨w, hw, hP⟩ := h
  exact ⟨w, by rw [Reading.remove, List.getElem?_eraseIdx_of_lt hlt, hw], hP⟩

theorem IsAtFrom.set (h : r.IsAtFrom text n m) (hv : m ≤ j → v.IsAt text n) :
    (r.set j v).IsAtFrom text n m := by
  intro k w hk hw
  rw [Reading.set, List.getElem?_set] at hw
  split_ifs at hw with hjk
  · obtain rfl := Option.some.inj hw
    exact hv (hjk ▸ hk)
  · exact h k w hk hw

theorem IsAtFrom.append (h : r.IsAtFrom text n m) {vs : List Version}
    (hvs : ∀ v ∈ vs, v.IsAt text n) :
    ({ r with versions := r.versions ++ vs } : Reading).IsAtFrom text n m := by
  intro k w hk hw
  rw [List.getElem?_append] at hw
  split_ifs at hw
  · exact h k w hk hw
  · exact hvs w (List.mem_of_getElem? hw)

theorem IsAtFrom.remove (h : r.IsAtFrom text n m) (j : ℕ) : (r.remove j).IsAtFrom text n m := by
  intro k w hk hw
  rw [Reading.remove, List.getElem?_eraseIdx] at hw
  split_ifs at hw
  · exact h k w hk hw
  · exact h (k + 1) w (Nat.le_succ_of_le hk) hw

/-! ### Adding versions -/

/-- New versions at a byte have been added to a sound reading, and nothing that is stable has
changed for the others. -/
structure Grows (text : List Char) (n : ℕ) (r r' : Reading) : Prop where
  isSound : r'.IsSound text
  length_le : r.versions.length ≤ r'.versions.length
  keeps : ∀ P, Version.IsStable text P → ∀ k, r.Has P k → r'.Has P k
  isAtFrom : ∀ m, r.IsAtFrom text n m → r'.IsAtFrom text n m

theorem Grows.refl (h : r.IsSound text) : r.Grows text n r :=
  ⟨h, le_rfl, fun _ _ _ h => h, fun _ h => h⟩

theorem Grows.trans (h : r.Grows text n r') (h' : r'.Grows text n r'') : r.Grows text n r'' :=
  ⟨h'.isSound, h.length_le.trans h'.length_le,
    fun P hP k hk => h'.keeps P hP k (h.keeps P hP k hk),
    fun m hm => h'.isAtFrom m (h.isAtFrom m hm)⟩

/-- A new version is joined with one that it meets, or kept at the end. -/
theorem grows_add (hr : r.IsSound text) (hnew : new.IsAt text n) (hsound : new.IsSound text)
    (skip : ℕ) : r.Grows text n (r.add new skip) := by
  rw [add]
  split
  · next w j hfind =>
    have hfits := List.find?_some hfind
    rw [Bool.and_eq_true] at hfits
    have hw : r.versions[j]? = some w :=
      List.mk_mem_zipIdx_iff_getElem?.mp (List.mem_of_find?_eq_some hfind)
    obtain ⟨hwidens, hjoined, hat⟩ :=
      Version.join_of_meets (hr.versions w (List.mem_of_getElem? hw)) hnew.stack hfits.2
    rw [hnew.place] at hat
    refine ⟨isSound_set hr hjoined, by rw [Reading.set, List.length_set], ?_, ?_⟩
    · intro P hP k hk
      by_cases hjk : j = k
      · subst hjk
        obtain ⟨w', hw', hPw⟩ := hk
        obtain rfl : w = w' := Option.some.inj (hw.symm.trans hw')
        exact has_set_self (List.getElem?_eq_some_iff.mp hw).1 (hP w _ hwidens rfl hPw)
      · exact hk.set_of_ne hjk
    · exact fun m hm => hm.set fun _ => hat
  · refine ⟨isSound_append hr ?_, by simp, fun P _ k hk => hk.append _, fun m hm => hm.append ?_⟩
    · exact fun w hw => List.mem_singleton.mp hw ▸ hsound
    · exact fun w hw => List.mem_singleton.mp hw ▸ hnew

/-! ### Making a production whole -/

section Reduce

variable {p : Production}

/-- The ways over the parts of a production that have been put together at a stack below them. -/
structure Gathers (text : List Char) (p : Production) (n : ℕ)
    (g : Stack × List (List Derivation)) : Prop where
  below : g.1.IsSound text
  ways : ∀ parts ∈ g.2, Covers text g.1.place.point.byte n parts ∧
    roots parts = p.symbols.map Symbol.root

theorem gathers_groupPaths {groups : List (Stack × List (List Derivation))}
    {paths : List Stack.Path} (hgroups : ∀ g ∈ groups, Gathers text p n g)
    (hpaths : ∀ q ∈ paths, Gathers text p n (q.below, [q.parts])) :
    ∀ g ∈ groupPaths groups paths, Gathers text p n g := by
  induction paths generalizing groups with
  | nil => exact hgroups
  | cons q rest ih =>
    obtain ⟨hq, hrest⟩ := List.forall_mem_cons.mp hpaths
    rw [groupPaths]
    refine ih ?_ hrest
    split
    · next k hfind =>
      -- the way joins those over a stack that is the same
      obtain ⟨hk, hsame, -⟩ := List.findIdx?_eq_some_iff_getElem.mp hfind
      intro g hg
      rw [List.modify_eq_set_getElem?, List.getElem?_eq_getElem hk] at hg
      rcases List.mem_or_eq_of_mem_set hg with hg | rfl
      · exact hgroups g hg
      · have hold := hgroups _ (List.getElem_mem hk)
        rw [Stack.same, Bool.and_eq_true, Bool.and_eq_true] at hsame
        obtain ⟨-, hplace⟩ := Stack.eq_of_meets hold.below hq.below hsame.1.2
        refine ⟨hold.below, fun parts hparts => ?_⟩
        rcases List.mem_append.mp hparts with hparts | hparts
        · exact hold.ways parts hparts
        · have hway := hq.ways parts hparts
          rwa [← hplace] at hway
    · exact fun g hg => (List.mem_append.mp hg).elim (hgroups g) fun hg =>
        List.mem_singleton.mp hg ▸ hq

/-- The best way is one of those that there are. -/
theorem mem_of_bestWhole {below : Stack} {found : Option (Derivation × List Derivation)}
    {ways : List (List Derivation)} {whole : Derivation} {trailing : List Derivation}
    (h : bestWhole p below found ways = some (whole, trailing)) :
    found = some (whole, trailing) ∨ ∃ parts ∈ ways, trailing = (splitExtras parts).2 ∧
      whole = ofParts (.nonterminal p.whole) p.steps below.place (splitExtras parts).1 := by
  induction ways generalizing found with
  | nil => exact .inl h
  | cons parts rest ih =>
    rw [bestWhole] at h
    rcases ih h with hfound | ⟨parts', hmem, hway⟩
    · split_ifs at hfound
      · obtain ⟨rfl, rfl⟩ := Prod.mk.inj (Option.some.inj hfound)
        exact .inr ⟨parts, List.mem_cons_self, rfl, rfl⟩
      · exact .inl hfound
    · exact .inr ⟨parts', List.mem_cons_of_mem _ hmem, hway⟩

/-- A phrase is put on the stack below its parts, with what stands behind it. -/
theorem isAt_pushWhole {below : Stack} {whole : Derivation} {trailing : List Derivation}
    (hbelow : below.IsSound text) (hwhole : whole.IsSound text)
    (hroot : whole.root = .nonterminal p.whole) (hown : whole.isExtra = false)
    (hstart : below.place.point.byte ≤ whole.startByte)
    (hextra : ∀ d ∈ trailing, d.isExtra = true) (hcovers : Covers text whole.stopByte n trailing)
    (mark : ℕ) : (Version.of (pushWhole p below whole trailing) mark).IsAt text n := by
  have hreads : below.state.Reads (whole.weighed p.weight)
      (below.state.after (.nonterminal p.whole)) := by
    rw [State.reads_of_not_isExtra ((isExtra_weighed _ _).trans hown), root_weighed]
    exact ⟨.nonterminal p.whole, hroot, rfl⟩
  rw [← startByte_weighed whole p.weight] at hstart
  rw [← stopByte_weighed whole p.weight] at hcovers
  have hpush := Stack.isSound_push hbelow (isSound_weighed hwhole p.weight) hstart
    (State.isSound_after hbelow.state _) fun _ => hreads
  obtain ⟨hsound, hplace⟩ :=
    Stack.isSound_foldl_push hpush (Stack.state_push _ _ _) hextra hcovers
  exact ⟨hsound, hplace, rfl⟩

/-- The best way over the parts of a production is put on the stack below it. -/
theorem isAt_bestWhole {below : Stack} {parts : List Derivation}
    (hp : p ∈ p.whole.productions) (hfile : p.whole ≠ .file) (hbelow : below.IsSound text)
    (hcovers : Covers text below.place.point.byte n parts)
    (hroots : roots parts = p.symbols.map Symbol.root) (mark : ℕ) :
    (Version.of (pushWhole p below
      (ofParts (.nonterminal p.whole) p.steps below.place (splitExtras parts).1)
      (splitExtras parts).2) mark).IsAt text n := by
  rw [← splitExtras_append parts, covers_append] at hcovers
  obtain ⟨hown, htrailing⟩ := hcovers
  have hsound : (ofParts (.nonterminal p.whole) p.steps below.place
      (splitExtras parts).1).IsSound text :=
    isSound_ofPhrase hp hfile (.inl rfl) ((roots_splitExtras parts).trans hroots)
      (fun _ => hbelow.place) hown.row hown.sound
  refine isAt_pushWhole hbelow hsound rfl rfl (bounds_ofParts _ _ hown.row).1
    (fun d hd => isExtra_of_mem_splitExtras hd) ?_ mark
  rwa [stopByte_ofParts_eq_endByte]

/-- **Making a production whole adds sound versions** that have come to the same byte. -/
theorem grows_reduce (hr : r.IsSound text)
    (hi : r.Has (fun v => v.IsAt text n ∧ v.state.Allows (.reduce p)) i) :
    r.Grows text n (r.reduce i p).1 ∧
      ∀ j, (r.reduce i p).2 = some j →
        j = r.versions.length ∧ j < (r.reduce i p).1.versions.length := by
  obtain ⟨⟨hsound, hplace, -⟩, item, hitem, rfl, hwhole, hfile⟩ := hi.get
  have hmem := (hsound.state item hitem).mem
  have hgroups : ∀ g ∈ groupPaths [] ((r.get i).stack.paths item.production.steps.length),
      Gathers text item.production n g := by
    refine gathers_groupPaths (fun g hg => absurd hg List.not_mem_nil) fun q hq => ?_
    obtain ⟨hleads, hdepth⟩ := Stack.leads_of_mem_paths hq
    obtain ⟨hbelow, hcovers⟩ := hleads.isSound hsound
    rw [hplace] at hcovers
    refine ⟨hbelow, fun parts hparts => ?_⟩
    obtain rfl := List.mem_singleton.mp hparts
    exact ⟨hcovers, hleads.roots_eq_symbols hsound hitem hwhole hdepth⟩
  have hgrows : r.Grows text n (r.reduce i item.production).1 := by
    refine List.foldlRecOn (motive := fun r' => r.Grows text n r') _ _ (.refl hr)
      fun r' hr' g hg => ?_
    have hg := hgroups g hg
    obtain ⟨below, ways⟩ := g
    dsimp only
    split_ifs
    · exact hr'
    · split
      · next whole trailing hbest =>
        rcases mem_of_bestWhole hbest with hnone | ⟨parts, hparts, rfl, rfl⟩
        · cases hnone
        · obtain ⟨hcovers, hroots⟩ := hg.ways parts hparts
          have hat := isAt_bestWhole hmem hfile hg.below hcovers hroots (r.get i).mark
          exact hr'.trans (grows_add hr'.isSound hat (Version.isSound_of hat.stack _) i)
      · exact hr'
  refine ⟨hgrows, fun j hj => ?_⟩
  rw [reduce] at hj
  dsimp only at hj
  split_ifs at hj with hmore
  obtain rfl := Option.some.inj hj
  exact ⟨rfl, hmore⟩

end Reduce

/-! ### Reading a whole text -/

/-- Some derivations make a whole text: they are a translation unit with what may stand anywhere, or
they end with an error. -/
structure Completes (text : List Char) (n : ℕ) (ps : List Derivation) : Prop where
  sound : ∀ d ∈ ps, d.IsSound text
  row : InRow startByte stopByte 0 n ps
  form : roots ps = [.nonterminal .translationUnit] ∨
    ∃ ds d, ps = ds ++ [d] ∧ d.isExtra = false ∧ d.root = .error

/-- The last part that belongs to a whole is none that may stand anywhere. -/
theorem isExtra_of_getLast?_splitExtras {ps : List Derivation} {d : Derivation}
    (h : (splitExtras ps).1.getLast? = some d) : d.isExtra = false := by
  rw [splitExtras_eq, List.getLast?_reverse] at h
  have hhead := List.head?_dropWhile_not isExtra ps.reverse
  rw [h] at hhead
  simpa using hhead

theorem splitExtras_concat_of_not_isExtra {ds : List Derivation} {d ending : Derivation}
    (hd : d.isExtra = false) (hending : ending.isExtra = true) :
    (splitExtras (ds ++ [d] ++ [ending])).1 = ds ++ [d] := by
  rw [splitExtras_eq, List.append_assoc, List.reverse_append, List.reverse_append]
  simp [hd, hending]

/-- The last part that belongs to a whole text is a translation unit, or an error. -/
theorem Completes.root_last {ps : List Derivation} {ending last : Derivation}
    (hps : Completes text n ps) (hextra : ending.isExtra = true)
    (hlast : (splitExtras (ps ++ [ending])).1.getLast? = some last) :
    (roots (splitExtras (ps ++ [ending])).1.dropLast = [] ∧
      last.root = .nonterminal .translationUnit) ∨ last.root = .error := by
  rcases hps.form with hunit | ⟨ds, d, rfl, hd, herror⟩
  · left
    have hroots : roots ((splitExtras (ps ++ [ending])).1.dropLast ++ [last]) =
        [] ++ [.nonterminal .translationUnit] := by
      rw [List.dropLast_append_getLast? last hlast, roots_splitExtras, roots_append, hunit,
        roots_eq_nil fun d hd => List.mem_singleton.mp hd ▸ hextra]
      rfl
    rw [roots_append, roots_cons_of_not_isExtra (isExtra_of_getLast?_splitExtras hlast),
      roots_nil] at hroots
    obtain ⟨hfront, hroot⟩ := List.append_inj' hroots rfl
    exact ⟨hfront, List.singleton_inj.mp hroot⟩
  · right
    rw [splitExtras_concat_of_not_isExtra hd hextra, List.getLast?_concat] at hlast
    rwa [← Option.some.inj hlast]

theorem splitExtras_snd_ne_nil {ps : List Derivation} {ending : Derivation}
    (hextra : ending.isExtra = true) : (splitExtras (ps ++ [ending])).2 ≠ [] := by
  intro hnil
  have hall := splitExtras_append (ps ++ [ending])
  rw [hnil, List.append_nil] at hall
  have hown := isExtra_of_getLast?_splitExtras (hall ▸ List.getLast?_concat)
  rw [hown] at hextra
  cases hextra

/-- A whole text is made of the parts of its last part, with all that may stand anywhere. -/
theorem isWhole_ofParts {ps : List Derivation} {ending last : Derivation} {place : Cursor}
    (hps : Completes text n ps) (hending : ending.IsSound text) (hextra : ending.isExtra = true)
    (hbehind : n ≤ ending.startByte) (hplace : place.point.byte = 0)
    (hlast : (splitExtras (ps ++ [ending])).1.getLast? = some last) :
    (ofParts last.root [] place ((splitExtras (ps ++ [ending])).1.dropLast ++ last.parts ++
      (splitExtras (ps ++ [ending])).2)).IsWhole text := by
  have hall : (splitExtras (ps ++ [ending])).1.dropLast ++ [last] ++
      (splitExtras (ps ++ [ending])).2 = ps ++ [ending] := by
    rw [List.dropLast_append_getLast? last hlast, splitExtras_append]
  have hsound : ∀ d ∈ ps ++ [ending], d.IsSound text :=
    List.forall_mem_append.mpr ⟨hps.sound, List.forall_mem_singleton.mpr hending⟩
  have hrow : InRow startByte stopByte place.point.byte ending.stopByte (ps ++ [ending]) :=
    hplace ▸ hps.row.concat hbehind hending.startByte_le le_rfl
  rw [← hall] at hsound hrow
  have hlastSound : last.IsSound text := hsound last (by simp)
  have hnonempty : (splitExtras (ps ++ [ending])).2 ≠ [] := splitExtras_snd_ne_nil hextra
  have hextras : roots (splitExtras (ps ++ [ending])).2 = [] :=
    roots_eq_nil fun d hd => isExtra_of_mem_splitExtras hd
  rcases hps.root_last hextra hlast with ⟨hfront, hroot⟩ | herror
  · obtain ⟨p, hp, hwhole, hfile, hsymbols, -⟩ := hlastSound.exists_production hroot
    rw [hroot, ← hwhole]
    rw [← hwhole] at hp hfile
    refine ⟨isSound_ofPhrase hp hfile (.inr rfl) ?_ (fun hnil => ?_)
      (inRow_opened hlastSound hrow) (isSound_of_mem_opened hsound), .inl ?_⟩
    · rw [roots_append, roots_append, hfront, hextras, List.nil_append, List.append_nil, hsymbols]
    · exact absurd (List.append_eq_nil_iff.mp hnil).2 hnonempty
    · exact congrArg Root.nonterminal hwhole
  · rw [herror]
    refine ⟨isSound_ofFault rfl (fun hnil => ?_) (inRow_opened hlastSound hrow)
      (isSound_of_mem_opened hsound), .inr ⟨rfl, cost_ofParts_pos_of_isFault rfl⟩⟩
    exact absurd (List.append_eq_nil_iff.mp hnil).2 hnonempty

theorem versions_finish (ps : List Derivation) (r : Reading) :
    (r.finish ps).versions = r.versions := by
  rw [finish]
  dsimp only
  split <;> rfl

theorem isWhole_finish {ps : List Derivation} {ending d : Derivation}
    (hr : ∀ d, r.finished = some d → d.IsWhole text) (hps : Completes text n ps)
    (hending : ending.IsSound text) (hextra : ending.isExtra = true)
    (hbehind : n ≤ ending.startByte) (hd : (r.finish (ps ++ [ending])).finished = some d) :
    d.IsWhole text := by
  rw [finish] at hd
  dsimp only at hd
  split at hd
  · exact hr d hd
  · next last hlast =>
    dsimp only at hd
    split_ifs at hd
    · obtain rfl := Option.some.inj hd
      exact isWhole_ofParts hps hending hextra hbehind rfl hlast
    · exact hr d hd

/-- **What has been read as a whole text is sound**, and the version that has read it is at its end:
nothing is asked of its stack but that the ways down make a whole text. -/
theorem isSound_accept {l : Lexeme} (hr : (r.set i { r.get i with status := .ended }).IsSound text)
    (hl : l.StandsIn text n) (hterminal : l.terminal? ≠ none)
    (hcontents : ∀ ps ∈ (r.get i).stack.contents, Completes text n ps) :
    (r.accept i l).IsSound text := by
  have hending : (ofLexeme l true).IsSound text :=
    isSound_ofLexeme hl true fun hnone => absurd hnone hterminal
  have hfold := List.foldlRecOn (motive := fun r' => r'.versions = r.versions ∧
      ∀ d, r'.finished = some d → d.IsWhole text) (r.get i).stack.contents
    (fun r parts => r.finish (parts ++ [ofLexeme l true])) ⟨rfl, hr.finished⟩
    fun r' hr' ps hps => ⟨(versions_finish _ r').trans hr'.1, fun d hd =>
      isWhole_finish hr'.2 (hcontents ps hps) hending rfl hl.behind hd⟩
  refine ⟨fun v hv => hr.versions v ?_, hfold.2⟩
  rw [accept] at hv
  dsimp only [Reading.set] at hv ⊢
  rwa [hfold.1] at hv

/-- The ways down from a state that accepts a file make a whole text. -/
theorem completes_of_accepts {s : Stack} (hs : s.IsSound text) (hallows : s.state.Allows .accept)
    {ps : List Derivation} (hps : ps ∈ s.contents) : Completes text s.place.point.byte ps := by
  obtain ⟨i, hi, hfile, hwhole⟩ := hallows
  obtain ⟨q, hleads, hground, rfl⟩ := Stack.leads_of_mem_contents hps
  obtain ⟨-, hcovers⟩ := hleads.isSound hs
  exact ⟨hcovers.sound, hcovers.row.mono (Nat.zero_le _) le_rfl,
    .inl (Stack.roots_of_accepts hs hi hwhole hfile hleads hground)⟩

end Reading

end Uninit.Grammar
