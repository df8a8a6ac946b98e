import Uninit.Grammar.Repair
import Uninit.Proofs.Versions

/-!
# Repairs keep a reading sound

Where no version can go on, phrases are made whole whatever comes next, tokens are taken to be
there, and the reading gets lost; then it goes back to a state that it has been in, or skips a
token. All this puts sound derivations on sound stacks: the parts that are taken out of the text
become an error that costs something, and no production has such a part.

## Main definitions

* `Reading.Reduces`: what making phrases whole from a version on does to a reading

## Main statements

* `Reading.isSound_recover`: going on where a reading got lost keeps it sound
* `Reading.isSound_repair`: a repair keeps a reading sound
-/
namespace Uninit.Grammar

open Uninit.Grammar.Derivation

variable {text : List Char} {n : ℕ}

namespace Reading

variable {r r' r'' : Reading} {P : Version → Prop} {i j k first : ℕ} {v w : Version}

/-! ## Phrases that can be made whole -/

theorem allows_of_mem_wholes {s : State} {ts : List Terminal} {p : Production}
    (h : p ∈ wholes s ts) : s.Allows (.reduce p) := by
  have hall : ∀ q ∈ wholes s ts, s.Allows (.reduce q) := by
    refine List.foldlRecOn (motive := fun ps => ∀ q ∈ ps, s.Allows (.reduce q)) ts _
      (fun q hq => absurd hq List.not_mem_nil) fun ps hps t _ => ?_
    refine List.foldlRecOn (motive := fun ps => ∀ q ∈ ps, s.Allows (.reduce q)) (s.actions t) _ hps
      fun ps hps a ha => ?_
    split
    · next p =>
      rw [addProduction]
      split_ifs
      · exact hps
      · intro q hq
        rcases List.mem_append.mp hq with hq | hq
        · exact hps q hq
        · obtain rfl := List.mem_singleton.mp hq
          exact State.allows_of_mem_actions ha
    · exact hps
  exact hall p h

/-- What making phrases whole from a version on does to a sound reading: nothing that is stable
changes for the versions before that one, those that are new have come to the same byte, and so has
the version itself if it is kept. -/
structure Reduces (text : List Char) (n start first : ℕ) (kept : Bool) (r r' : Reading) : Prop where
  isSound : r'.IsSound text
  length_le : start ≤ r.versions.length → start ≤ r'.versions.length
  keeps : ∀ P, Version.IsStable text P → ∀ k < start, r.Has P k → r'.Has P k
  isAtFrom : r.IsAtFrom text n first → r'.IsAtFrom text n first
  has_start : kept = true → r.Has (Version.IsAt text n) start → r'.Has (Version.IsAt text n) start

section Reduces

variable {start : ℕ} {kept : Bool}

theorem Reduces.refl (h : r.IsSound text) : r.Reduces text n start first kept r :=
  ⟨h, id, fun _ _ _ _ h => h, id, fun _ h => h⟩

theorem Reduces.trans (h : r.Reduces text n start first kept r')
    (h' : r'.Reduces text n start first kept r'') : r.Reduces text n start first kept r'' :=
  ⟨h'.isSound, fun hr => h'.length_le (h.length_le hr),
    fun P hP k hk hr => h'.keeps P hP k hk (h.keeps P hP k hk hr),
    fun hr => h'.isAtFrom (h.isAtFrom hr),
    fun hkept hr => h'.has_start hkept (h.has_start hkept hr)⟩

theorem Grows.reduces (h : r.Grows text n r') (start first : ℕ) (kept : Bool) :
    r.Reduces text n start first kept r' :=
  ⟨h.isSound, fun hr => hr.trans h.length_le, fun P hP k _ hk => h.keeps P hP k hk,
    h.isAtFrom first, fun _ hr => h.keeps _ (Version.isStable_isAt text n) start hr⟩

theorem reduces_set (h : r.IsSound text) (hv : v.IsAt text n) (hsound : v.IsSound text)
    (hk : start ≤ k) : r.Reduces text n start first kept (r.set k v) where
  isSound := isSound_set h hsound
  length_le hr := by rwa [Reading.set, List.length_set]
  keeps P _ j hj hr := hr.set_of_ne (by omega)
  isAtFrom hr := hr.set fun _ => hv
  has_start _ hr := hr.set hv k

theorem reduces_remove (h : r.IsSound text) (hk : start ≤ k) (hkept : kept = true → k ≠ start) :
    r.Reduces text n start first kept (r.remove k) where
  isSound := isSound_remove h k
  length_le hr := by
    rw [Reading.remove, List.length_eraseIdx]
    split_ifs <;> omega
  keeps P _ j hj hr := hr.remove_of_lt (by omega)
  isAtFrom hr := hr.remove k
  has_start hkept' hr := hr.remove_of_lt (by have := hkept hkept'; omega)

/-- A new version is put in the place of the one that it comes from. -/
theorem reduces_move (h : r.IsSound text) (hj : r.Has (Version.IsAt text n) j) (hi : start ≤ i)
    (hij : i < j) : r.Reduces text n start first kept (r.move j i) := by
  have hset : r.Reduces text n start first kept (r.set i (r.get j)) :=
    reduces_set h hj.get (h.get j) hi
  exact hset.trans (reduces_remove hset.isSound (by omega) (fun _ => by omega))

theorem has_move (hj : r.Has (Version.IsAt text n) j) (hij : i < j) :
    (r.move j i).Has (Version.IsAt text n) i :=
  (has_set_self (hij.trans hj.lt_length) hj.get).remove_of_lt hij

/-- Productions that a version allows are made whole in it one after the other. -/
theorem grows_foldl_reduce {ps : List Production} {s : State} {o : Option ℕ} (hr : r.IsSound text)
    (hi : r.Has (fun v => v.IsAt text n ∧ v.state = s) i)
    (hps : ∀ p ∈ ps, s.Allows (.reduce p)) (ho : ∀ j, o = some j → i < j ∧
      r.Has (Version.IsAt text n) j) :
    r.Grows text n (ps.foldl (fun (x : Reading × Option ℕ) p => x.1.reduce i p) (r, o)).1 ∧
      ∀ j, (ps.foldl (fun (x : Reading × Option ℕ) p => x.1.reduce i p) (r, o)).2 = some j →
        i < j ∧ (ps.foldl (fun (x : Reading × Option ℕ) p => x.1.reduce i p) (r, o)).1.Has
          (Version.IsAt text n) j := by
  induction ps generalizing r o with
  | nil => exact ⟨.refl hr, ho⟩
  | cons p rest ih =>
    obtain ⟨hp, hrest⟩ := List.forall_mem_cons.mp hps
    have hallows : r.Has (fun v => v.IsAt text n ∧ v.state.Allows (.reduce p)) i :=
      hi.imp fun v hv => ⟨hv.1, hv.2 ▸ hp⟩
    obtain ⟨hgrows, hlast⟩ := grows_reduce hr hallows
    have hstable := (Version.isStable_isAt text n).and (Version.isStable_state text s)
    have hnext := ih hgrows.isSound (hgrows.keeps _ hstable i hi) hrest
      (o := (r.reduce i p).2) fun j hj => by
        obtain ⟨rfl, hlt⟩ := hlast j hj
        exact ⟨hi.lt_length,
          (hgrows.isAtFrom _ (isAtFrom_length text n r)).has le_rfl hlt⟩
    exact ⟨hgrows.trans hnext.1, hnext.2⟩

/-- All phrases that are whole in a version at some tokens are made whole. -/
theorem grows_wholes (ts : List Terminal) (hr : r.IsSound text)
    (hi : r.Has (Version.IsAt text n) i) :
    r.Grows text n ((wholes (r.get i).state ts).foldl
        (fun (x : Reading × Option ℕ) p => x.1.reduce i p) (r, none)).1 ∧
      ∀ j, ((wholes (r.get i).state ts).foldl
          (fun (x : Reading × Option ℕ) p => x.1.reduce i p) (r, none)).2 = some j →
        i < j ∧ ((wholes (r.get i).state ts).foldl
          (fun (x : Reading × Option ℕ) p => x.1.reduce i p) (r, none)).1.Has
            (Version.IsAt text n) j :=
  grows_foldl_reduce hr (has_get hi.lt_length ⟨hi.get, rfl⟩) (fun _ => allows_of_mem_wholes)
    fun _ hj => nomatch hj

/-- A version that nothing more is made whole in is left out where one token is considered. -/
theorem reduces_pass {look : Option Terminal}
    (h : r.Reduces text n start first (!isSingle look) r') (hi : start ≤ i)
    (hfrom : r'.IsAtFrom text n k) :
    r.Reduces text n start first (!isSingle look) (if isSingle look then r'.remove i else r') ∧
      (if isSingle look then r'.remove i else r').IsAtFrom text n k := by
  split_ifs with hsingle
  · exact ⟨h.trans (reduces_remove h.isSound hi (by simp [hsingle])), hfrom.remove i⟩
  · exact ⟨h, hfrom⟩

/-- Where the next version is looked for, all versions from there on have come to the same byte. -/
theorem isAtFrom_next (hr : r.Grows text n r')
    (hi : i = start ∨ r.IsAtFrom text n i) :
    r'.IsAtFrom text n (if i = start then r.versions.length else i + 1) := by
  split_ifs with hsame
  · exact hr.isAtFrom _ (isAtFrom_length text n r)
  · exact (hr.isAtFrom i (hi.resolve_left hsame)).mono (Nat.le_succ i)

/-- Versions that meet are joined in the place of the first. -/
theorem reduces_join (hr : r.IsSound text) (hstart : start < first)
    (hi : r.Has (Version.IsAt text n) i)
    (hw : (w, j) ∈ (r.versions.zipIdx.take i).drop first) (hmeets : w.meets (r.get i) = true) :
    i ≠ start ∧ r.Reduces text n start first kept ((r.set j (w.join (r.get i))).remove i) ∧
      ∀ m, r.IsAtFrom text n m →
        ((r.set j (w.join (r.get i))).remove i).IsAtFrom text n m := by
  obtain ⟨m, hm⟩ := List.mem_iff_getElem?.mp hw
  rw [List.getElem?_drop, List.getElem?_take] at hm
  split_ifs at hm with hlt
  obtain ⟨rfl, hversion⟩ : first + m = j ∧ r.versions[first + m]? = some w := by
    rw [List.getElem?_zipIdx, Option.map_eq_some_iff] at hm
    obtain ⟨w', hw', heq⟩ := hm
    obtain ⟨rfl, hj⟩ := Prod.mk.inj heq
    exact ⟨by omega, hw'⟩
  obtain ⟨-, hjoined, hat⟩ := Version.join_of_meets
    (hr.versions w (List.mem_of_getElem? hversion)) hi.get.stack hmeets
  rw [hi.get.place] at hat
  have hset : r.Reduces text n start first kept (r.set (first + m) (w.join (r.get i))) :=
    reduces_set hr hat hjoined (by omega)
  exact ⟨by omega, hset.trans (reduces_remove hset.isSound (by omega) (fun _ => by omega)),
    fun _ hfrom => (hfrom.set fun _ => hat).remove i⟩

/-- **Making phrases whole from a version on** keeps a reading sound. -/
theorem reduces_reduceFrom (look : Option Terminal) {fuel : ℕ} (m : ℕ) (can : Bool)
    (hr : r.IsSound text) (hstart : start < first) (hi : start ≤ i)
    (hat : i = start ∧ r.Has (Version.IsAt text n) i ∨ r.IsAtFrom text n i) :
    r.Reduces text n start first (!isSingle look)
      (reduceFrom look start first fuel i m can r).1 := by
  induction fuel generalizing i m can r with
  | zero => exact .refl hr
  | succ fuel ih =>
    rw [reduceFrom]
    by_cases hlength : r.versions.length ≤ i
    · rw [if_pos hlength]
      exact .refl hr
    · rw [if_neg hlength]
      have hhas : r.Has (Version.IsAt text n) i :=
        hat.elim And.right fun hfrom => hfrom.has le_rfl (by omega)
      dsimp only
      split
      · next w j hfind =>
        have hmeets := List.find?_some hfind
        obtain ⟨hne, hreduces, hfrom⟩ :=
          reduces_join hr hstart hhas (List.mem_of_find?_eq_some hfind) hmeets
        exact hreduces.trans (ih _ _ hreduces.isSound hi
          (.inr (hfrom i (hat.resolve_left fun h => hne h.1))))
      · obtain ⟨hgrows, hlast⟩ := grows_wholes (considered look) hr hhas
        generalize (wholes (r.get i).state (considered look)).foldl
          (fun (x : Reading × Option ℕ) p => x.1.reduce i p) (r, none) = folded at hgrows hlast ⊢
        obtain ⟨r', last⟩ := folded
        have hreduces := hgrows.reduces start first (!isSingle look)
        have hnext := isAtFrom_next hgrows (hat.imp And.left id)
        have hle : start ≤ if i = start then r.versions.length else i + 1 := by
          split_ifs <;> omega
        split
        · exact hreduces.trans (ih _ _ hgrows.isSound hle (.inr hnext))
        · obtain ⟨hpass, hfrom⟩ := reduces_pass hreduces hi hnext
          have hpassed := hpass.trans (ih (m + 1) can hpass.isSound hle (.inr hfrom))
          split
          · next j hsome =>
            obtain ⟨hij, hj⟩ := hlast j hsome
            split
            · have hmove : r.Reduces text n start first (!isSingle look) (r'.move j i) :=
                hreduces.trans (reduces_move hgrows.isSound hj hi hij)
              refine hmove.trans (ih _ _ hmove.isSound hi ?_)
              refine hat.imp (fun h => ⟨h.1, has_move hj hij⟩) fun hfrom => ?_
              exact ((hgrows.isAtFrom i hfrom).set fun _ => hj.get).remove j
            · exact hpassed
          · exact hpassed

end Reduces

/-- All ways to make phrases whole from a version that has come to a byte keep the versions before
it, and the versions behind it have come to the same byte. -/
theorem reduces_reduceAll (hr : r.IsSound text) (hi : r.Has (Version.IsAt text n) i)
    (look : Option Terminal) :
    r.Reduces text n i r.versions.length (!isSingle look) (r.reduceAll i look).1 :=
  reduces_reduceFrom look 0 false hr hi.lt_length le_rfl (.inl ⟨rfl, hi⟩)

/-! ## Going back -/

theorem isSound_noteRetreat {d : Descent} {found : List Retreat} (hd : d.below.IsSound text)
    (hfound : ∀ e ∈ found, e.state.IsSound) : ∀ e ∈ noteRetreat d found, e.state.IsSound := by
  rw [noteRetreat]
  split_ifs
  · exact hfound
  · intro e he
    rcases List.mem_append.mp he with he | he
    · exact hfound e he
    · obtain rfl := List.mem_singleton.mp he
      exact hd.state

theorem isSound_descendAll {m : ℕ} {found : List Retreat} {ds : List Descent}
    (hfound : ∀ e ∈ found, e.state.IsSound) (hds : ∀ d ∈ ds, d.below.IsSound text) :
    (∀ e ∈ (descendAll m found ds).1, e.state.IsSound) ∧
      (∀ d ∈ (descendAll m found ds).2.1, d.below.IsSound text) ∧
      ∀ d ∈ (descendAll m found ds).2.2, d.below.IsSound text := by
  induction ds generalizing m found with
  | nil => exact ⟨hfound, fun d hd => absurd hd List.not_mem_nil,
      fun d hd => absurd hd List.not_mem_nil⟩
  | cons d rest ih =>
    obtain ⟨hd, hrest⟩ := List.forall_mem_cons.mp hds
    rw [descendAll]
    split_ifs
    · exact ih hfound hrest
    · have hnoted := isSound_noteRetreat hd hfound
      dsimp only
      split
      · exact ih hnoted hrest
      · next l more hlinks =>
        have hlower : ∀ k ∈ l :: more, k.2.IsSound text := fun k hk => hd.lower (hlinks ▸ hk)
        obtain ⟨hlast, hkept, hadded⟩ := ih hnoted hrest
        refine ⟨hlast, List.forall_mem_cons.mpr ⟨hlower l List.mem_cons_self, hkept⟩, ?_⟩
        intro e he
        rcases List.mem_append.mp he with he | he
        · obtain ⟨k, hk, rfl⟩ := List.mem_map.mp he
          exact hlower k (List.mem_cons_of_mem l (List.mem_of_mem_take hk))
        · exact hadded e he

theorem isSound_retreatsFrom {fuel : ℕ} {found : List Retreat} {ds : List Descent}
    (hfound : ∀ e ∈ found, e.state.IsSound) (hds : ∀ d ∈ ds, d.below.IsSound text) :
    ∀ e ∈ retreatsFrom fuel found ds, e.state.IsSound := by
  induction fuel generalizing found ds with
  | zero => exact hfound
  | succ fuel ih =>
    cases ds with
    | nil => exact hfound
    | cons d rest =>
      obtain ⟨hlast, hkept, hadded⟩ :=
        isSound_descendAll (m := (d :: rest).length) hfound hds
      exact ih hlast fun e he => (List.mem_append.mp he).elim (hkept e) (hadded e)

theorem isSound_retreats {s : Stack} (hs : s.IsSound text) :
    ∀ e ∈ retreats s, e.state.IsSound :=
  isSound_retreatsFrom (fun e he => absurd he List.not_mem_nil) fun d hd => by
    obtain rfl := List.mem_singleton.mp hd
    exact hs

/-- An error that was taken out of the text before is opened again: the state below it is the same,
and its parts stand there. -/
theorem reopen_spec {below : Stack} (hbelow : below.IsSound text)
    (hfound : below.state.isLost = false) :
    (reopen below).1.IsSound text ∧ (reopen below).1.state = below.state ∧
      InRow startByte stopByte (reopen below).1.place.point.byte below.place.point.byte
        (reopen below).2 ∧ ∀ d ∈ (reopen below).2, d.IsSound text := by
  rw [reopen]
  split
  · next d lower hfind =>
    have hlink := List.mem_of_find?_eq_some hfind
    have herror := List.find?_some hfind
    rw [Option.any_some, beq_iff_eq] at herror
    obtain ⟨hd, hstart, hstop, hreads⟩ := hbelow.fits hlink
    refine ⟨hbelow.lower hlink, ?_, hd.summary.row.mono hstart hstop.le, fun _ => hd.of_mem_parts⟩
    -- an error is no symbol, so it may stand anywhere
    cases hextra : d.isExtra with
    | true => exact ((State.reads_of_isExtra hextra).mp (hreads hfound)).symm
    | false =>
      obtain ⟨x, hroot, -⟩ := (State.reads_of_not_isExtra hextra).mp (hreads hfound)
      rw [herror] at hroot
      cases x <;> cases hroot
  · exact ⟨hbelow, rfl, le_rfl, fun _ h => absurd h List.not_mem_nil⟩

/-- Some parts are taken out of the text: they become an error that may stand anywhere, and what
may stand anywhere at their end is kept. -/
theorem isSound_takeOut {below : Stack} {goal : State} {ps : List Derivation}
    (hbelow : below.IsSound text) (hstate : below.state = goal)
    (hrow : InRow startByte stopByte below.place.point.byte n ps)
    (hsound : ∀ d ∈ ps, d.IsSound text) :
    ((splitExtras ps).2.foldl (fun s d => s.push d goal)
      (if (splitExtras ps).1.isEmpty then below
        else below.push (ofParts .error [] below.place (splitExtras ps).1).asExtra
          goal)).IsSound text := by
  have hcovers := covers_of_inRow hsound hrow
  rw [← splitExtras_append ps, covers_append] at hcovers
  obtain ⟨hown, htrailing⟩ := hcovers
  have hextra : ∀ d ∈ (splitExtras ps).2, d.isExtra = true := fun d hd =>
    isExtra_of_mem_splitExtras hd
  split_ifs with hnone
  · rw [List.isEmpty_iff.mp hnone] at htrailing
    exact (Stack.isSound_foldl_push hbelow hstate hextra htrailing).1
  · have herror : (ofParts .error [] below.place (splitExtras ps).1).IsSound text :=
      isSound_ofFault rfl (fun _ => hbelow.place) hown.row hown.sound
    have hpush := Stack.isSound_push hbelow
      (isSound_asExtra herror rfl rfl (cost_ofParts_pos_of_isFault rfl))
      (bounds_ofParts .error [] hown.row).1 (hstate ▸ hbelow.state)
      fun _ => (State.reads_of_isExtra rfl).mpr hstate.symm
    rw [← stopByte_ofParts_eq_endByte .error []] at htrailing
    exact (Stack.isSound_foldl_push hpush (Stack.state_push _ _ _) hextra htrailing).1

/-- Going back to a state gives sound versions. -/
theorem isSound_goBackOver {goal : State} {seen : List Stack} {ps : List Stack.Path}
    (hgoal : goal.IsSound) (hfound : goal.isLost = false) (hv : v.stack.IsSound text)
    (hps : ∀ p ∈ ps, p.Leads v.stack) : ∀ w ∈ goBackOver v goal seen ps, w.IsSound text := by
  induction ps generalizing seen with
  | nil => exact fun w hw => absurd hw List.not_mem_nil
  | cons p rest ih =>
    obtain ⟨hp, hrest⟩ := List.forall_mem_cons.mp hps
    obtain ⟨hbelow, hcovers⟩ := hp.isSound hv
    rw [goBackOver]
    split_ifs with hskip
    · exact ih hrest
    · rw [Bool.or_eq_true, Bool.not_eq_true', not_or, Bool.not_eq_false] at hskip
      have hstate : p.below.state = goal := State.eq_of_same hbelow.state hgoal hskip.2
      obtain ⟨hlower, hsame, hrow, hsound⟩ := reopen_spec hbelow (hstate ▸ hfound)
      refine List.forall_mem_cons.mpr ⟨Version.isSound_of ?_ _, ih hrest⟩
      exact isSound_takeOut hlower (hsame.trans hstate) (hrow.append hcovers.row) fun d hd =>
        (List.mem_append.mp hd).elim (hsound d) (hcovers.sound d)

theorem isSound_firstRetreat {t : Terminal} {es : List Retreat} (hes : ∀ e ∈ es, e.state.IsSound)
    (hv : (r.get i).stack.IsSound text) : ∀ w ∈ firstRetreat i t r es, w.IsSound text := by
  induction es with
  | nil => exact fun w hw => absurd hw List.not_mem_nil
  | cons e rest ih =>
    obtain ⟨he, hrest⟩ := List.forall_mem_cons.mp hes
    have hback : ∀ depth, e.state.isLost = false →
        ∀ w ∈ goBack (r.get i) depth e.state, w.IsSound text := fun depth hfound =>
      isSound_goBackOver he hfound hv fun p hp => (Stack.leads_of_mem_paths hp).1
    rw [firstRetreat]
    dsimp only
    by_cases hskip : (e.state.isLost || e.place.byte == (r.get i).place.byte ||
        r.versions.any fun w => w.place.byte == (r.get i).place.byte &&
          w.state.same e.state) = true
    · rw [if_pos hskip]
      exact ih hrest
    · rw [if_neg hskip]
      rw [Bool.or_eq_true, Bool.or_eq_true, not_or, not_or, Bool.not_eq_true] at hskip
      split_ifs
      all_goals first
        | exact ih hrest
        | exact fun w hw => absurd hw List.not_mem_nil
        | exact hback _ hskip.1.1

/-! ## Skipping a token -/

/-- A token that is skipped is put on the stack with what had been skipped before. -/
theorem isSound_skip {l : Lexeme} (hv : v.IsAt text n) (hl : l.StandsIn text n) :
    (skip v l).IsSound text := by
  obtain ⟨hstack, rfl, -⟩ := hv
  have hlost : ∀ (s : Stack) (d : Derivation), State.lost.isLost = false →
      s.state.Reads d .lost := fun _ _ h => nomatch h
  have htoken : (ofLexeme l (l.terminal? == some .comment)).IsSound text :=
    isSound_ofLexeme hl _ fun hnone => by rw [hnone]; rfl
  have hrow : InRow startByte stopByte v.stack.place.point.byte l.stop.point.byte
      [ofLexeme l (l.terminal? == some .comment)] := ⟨hl.behind, hl.ordered, le_rfl⟩
  have hskipped : (ofParts .skipped [] v.stack.place
      [ofLexeme l (l.terminal? == some .comment)]).IsSound text :=
    isSound_ofFault rfl (fun _ => hstack.place) hrow fun d hd => List.mem_singleton.mp hd ▸ htoken
  rw [skip]
  dsimp only
  split
  · next p hhead =>
    have hleads : p.Leads v.stack := by
      split_ifs at hhead
      exact (Stack.leads_of_mem_paths (List.mem_of_head? hhead)).1
    obtain ⟨hbelow, hcovers⟩ := hleads.isSound hstack
    have hall := hcovers.row.concat (bounds_ofParts .skipped [] hrow).1 hskipped.startByte_le le_rfl
    refine Stack.isSound_push hbelow (isSound_ofFault rfl (fun _ => hbelow.place) hall ?_)
      (bounds_ofParts .skipped [] hall).1 State.isSound_lost (hlost _ _)
    intro d hd
    rcases List.mem_append.mp hd with hd | hd
    · exact hcovers.sound d hd
    · exact List.mem_singleton.mp hd ▸ hskipped
  · exact Stack.isSound_push hstack hskipped (bounds_ofParts .skipped [] hrow).1
      State.isSound_lost (hlost _ _)

/-! ## Going on where a reading got lost -/

/-- What has been read of a text that comes to its end is taken as an error. -/
theorem completes_of_push {s : Stack} (hs : s.IsSound text) {ps : List Derivation}
    (hps : ps ∈ (s.push (ofParts .error [] s.place []) .start).contents) :
    Completes text s.place.point.byte ps := by
  obtain ⟨p, hleads, hground, rfl⟩ := Stack.leads_of_mem_contents hps
  rcases hleads.eq_append_of_links rfl with rfl | ⟨q, hq, -, hparts⟩
  · exact nomatch hground
  · obtain ⟨-, hcovers⟩ := hq.isSound hs
    have hrest : (ofParts .error [] s.place []).IsSound text :=
      isSound_ofFault rfl (fun _ => hs.place) (le_refl s.place.point.byte) fun _ h =>
        absurd h List.not_mem_nil
    rw [hparts]
    refine ⟨fun d hd => ?_, ?_, .inr ⟨q.parts, _, rfl, rfl, rfl⟩⟩
    · rcases List.mem_append.mp hd with hd | hd
      · exact hcovers.sound d hd
      · exact List.mem_singleton.mp hd ▸ hrest
    · exact (hcovers.row.concat le_rfl le_rfl le_rfl).mono (Nat.zero_le _) le_rfl

/-- At the end of the text, a version whose reading got lost reads an error. -/
theorem isSound_acceptRest {l : Lexeme} {s : Stack} (hr : r.IsSound text)
    (hi : i < r.versions.length) (hs : s.IsSound text) (hplace : s.place.point.byte = n)
    (hl : l.StandsIn text n) (hterminal : l.terminal? ≠ none) :
    ((r.set i (.of (s.push (ofParts .error [] s.place []) .start) 0)).accept i l).IsSound text := by
  have hget : (r.set i (.of (s.push (ofParts .error [] s.place []) .start) 0)).get i =
      .of (s.push (ofParts .error [] s.place []) .start) 0 :=
    (has_set_self (P := (· = _)) hi rfl).get
  refine isSound_accept ?_ hl hterminal ?_
  · rw [hget, Reading.set, Reading.set, List.set_set]
    exact isSound_set hr (Version.isSound_default.ended _ _)
  · rw [hget, ← hplace]
    exact fun ps hps => completes_of_push hs hps

theorem isSound_back (hr : r.IsSound text) (hi : (r.get i).stack.IsSound text)
    (o : Option Terminal) (w : Version)
    (hw : w ∈ match o with | some t => firstRetreat i t r (r.get i).retreats | none => []) :
    w.IsSound text := by
  cases o with
  | none => exact absurd hw List.not_mem_nil
  | some t => exact isSound_firstRetreat (hr.get i).retreats hi w hw

/-- **Going on where a reading got lost keeps it sound.** -/
theorem isSound_recover {l : Lexeme} (hr : r.IsSound text) (hi : r.Has (Version.IsAt text n) i)
    (hl : l.StandsIn text n) : (r.recover i l).IsSound text := by
  have hafter := isSound_append hr (isSound_back hr hi.get.stack l.terminal?)
  rw [recover]
  dsimp only
  split_ifs with heof
  · exact isSound_acceptRest hafter (hi.append _).lt_length hi.get.stack hi.get.place hl
      (by simp [heof])
  · exact isSound_set hafter ((hr.get i).ended _ _)
  · exact isSound_set hafter ((hr.get i).ended _ _)
  · exact isSound_set hafter ((hr.get i).with_stack (isSound_skip hi.get hl) _
      Version.running_ne_waiting)

/-! ## Missing tokens -/

/-- Taking a token to be there adds versions and keeps what is stable of the others. -/
theorem isSound_insertMissing (look : Terminal) (ts : List Terminal) (hr : r.IsSound text)
    (hv : v.IsAt text n) : (insertMissing v look ts r).1.IsSound text ∧
      r.versions.length ≤ (insertMissing v look ts r).1.versions.length ∧
      ∀ P, Version.IsStable text P → ∀ k, r.Has P k → (insertMissing v look ts r).1.Has P k := by
  induction ts generalizing r with
  | nil => exact ⟨hr, le_rfl, fun _ _ _ h => h⟩
  | cons t rest ih =>
    rw [insertMissing]
    dsimp only
    split
    · exact ih hr
    split
    · exact ih hr
    -- the version in which the token is there comes last
    have hpush : (v.stack.push (ofMissing t v.stack.place)
        (v.state.after (.terminal t))).IsSound text :=
      Stack.isSound_push hv.stack (isSound_ofMissing hv.stack.place t) le_rfl
        (State.isSound_after hv.stack.state _) fun _ =>
          (State.reads_of_not_isExtra rfl).mpr ⟨.terminal t, rfl, rfl⟩
    have happend := isSound_append hr (List.forall_mem_singleton.mpr
      (Version.isSound_of hpush v.mark))
    have hreduces := reduces_reduceAll (i := r.versions.length) (n := n) happend
      ⟨_, List.getElem?_concat_length .., hpush, hv.place, rfl⟩ (some look)
    have hlength := hreduces.length_le (by simp)
    have hkeeps : ∀ P, Version.IsStable text P → ∀ k, r.Has P k → _ := fun P hP k hk =>
      hreduces.keeps P hP k hk.lt_length (hk.append _)
    split
    · exact ⟨hreduces.isSound, hlength, hkeeps⟩
    · obtain ⟨hsound, hmore, hkept⟩ := ih hreduces.isSound
      exact ⟨hsound, hlength.trans hmore, fun P hP k hk => hkept P hP k (hkeeps P hP k hk)⟩

/-! ## Getting lost -/

/-- A version that has come to a byte of the text and got lost there. -/
def IsLostAt (text : List Char) (n : ℕ) (v : Version) : Prop :=
  v.IsAt text n ∧ v.state = .lost

theorem isStable_isLostAt (text : List Char) (n : ℕ) : Version.IsStable text (IsLostAt text n) :=
  (Version.isStable_isAt text n).and (Version.isStable_state text .lost)

theorem isSound_loseWay (h : v.IsSound text) (hv : v.IsAt text n) :
    ({ v with stack := v.stack.loseWay } : Version).IsSound text ∧
      IsLostAt text n { v with stack := v.stack.loseWay } :=
  have hstack := Stack.isSound_loseWay hv.stack
  ⟨⟨fun _ => hstack, h.retreats, h.waiting⟩, ⟨hstack, hv.place, hv.running⟩, rfl⟩

/-- All versions that get lost stay where they are. -/
theorem isSound_loseWays (look : Option Terminal) {is : List ℕ} (hr : r.IsSound text)
    (his : ∀ i ∈ is, r.Has (Version.IsAt text n) i) :
    (loseWays look is r).IsSound text ∧
      ∀ k, k ∈ is ∨ r.Has (IsLostAt text n) k → (loseWays look is r).Has (IsLostAt text n) k := by
  induction is generalizing look r with
  | nil => exact ⟨hr, fun k hk => hk.resolve_left List.not_mem_nil⟩
  | cons i rest ih =>
    obtain ⟨hi, hrest⟩ := List.forall_mem_cons.mp his
    have hstep : ∀ (r' : Reading) (look' : Option Terminal), r'.IsSound text →
        (∀ P, Version.IsStable text P → ∀ k, r.Has P k → r'.Has P k) →
        (loseWays look' rest (r'.set i { r'.get i with stack := (r'.get i).stack.loseWay })).IsSound
            text ∧
          ∀ k, k ∈ i :: rest ∨ r.Has (IsLostAt text n) k →
            (loseWays look' rest (r'.set i
              { r'.get i with stack := (r'.get i).stack.loseWay })).Has (IsLostAt text n) k := by
      intro r' look' hsound hkeeps
      have hat := hkeeps _ (Version.isStable_isAt text n) i hi
      obtain ⟨hlost, hlostAt⟩ := isSound_loseWay (hsound.get i) hat.get
      obtain ⟨hlast, hall⟩ := ih look' (isSound_set hsound hlost) fun k hk =>
        (hkeeps _ (Version.isStable_isAt text n) k (hrest k hk)).set hlostAt.1 i
      refine ⟨hlast, fun k hk => hall k ?_⟩
      rw [List.mem_cons, or_assoc] at hk
      rcases hk with rfl | hk | hk
      · exact .inr (has_set_self hat.lt_length hlostAt)
      · exact .inl hk
      · exact .inr ((hkeeps _ (isStable_isLostAt text n) k hk).set hlostAt i)
    cases look with
    | none => exact hstep r none hr fun _ _ _ h => h
    | some t =>
      obtain ⟨hsound, -, hkeeps⟩ := isSound_insertMissing t (Terminal.all.drop 1) hr hi.get
      rw [loseWays]
      exact hstep _ _ hsound hkeeps

/-- Stacks of versions that got lost at the same byte are joined to one of them. -/
theorem widens_foldl_join {js : List ℕ} {s : Stack} (hs : s.IsSound text)
    (hplace : s.place.point.byte = n) (hstate : s.state = .lost)
    (hjs : ∀ j ∈ js, r.Has (IsLostAt text n) j) :
    s.Widens text ((js.map fun j => (r.get j).stack).foldl Stack.join s) := by
  induction js generalizing s with
  | nil => exact .refl hs
  | cons j rest ih =>
    obtain ⟨hj, hrest⟩ := List.forall_mem_cons.mp hjs
    obtain ⟨⟨hsound, hbyte, -⟩, hlost⟩ := hj.get
    have hjoin := Stack.widens_join hs hsound (hstate.trans hlost.symm) (hplace.trans hbyte.symm)
    have hlast := ih hjoin.isSound (hjoin.place_eq ▸ hplace) (hjoin.state_eq.trans hstate) hrest
    exact ⟨hlast.isSound, hlast.state_eq.trans hjoin.state_eq,
      hlast.place_eq.trans hjoin.place_eq⟩

/-- The places of the versions that were made by a repair. -/
theorem le_of_mem_drop_range {m j last : ℕ} (h : j ∈ (List.range last).drop m) :
    m ≤ j ∧ j < last := by
  obtain ⟨k, hk, rfl⟩ := List.mem_iff_getElem.mp h
  rw [List.getElem_drop, List.getElem_range]
  rw [List.length_drop, List.length_range] at hk
  omega

/-- **A repair keeps a reading sound.** -/
theorem isSound_repair {l : Lexeme} (hr : r.IsSound text) (hi : r.Has (Version.IsAt text n) i)
    (hl : l.StandsIn text n) : (r.repair i l).IsSound text := by
  have hmade := reduces_reduceAll hr hi none
  have hown := hmade.has_start rfl hi
  have hfrom := hmade.isAtFrom (isAtFrom_length text n r)
  rw [repair]
  dsimp only
  generalize (r.reduceAll i none).1 = made at hmade hown hfrom ⊢
  have hall : ∀ j ∈ i :: (List.range made.versions.length).drop r.versions.length,
      made.Has (Version.IsAt text n) j := by
    refine List.forall_mem_cons.mpr ⟨hown, fun j hj => ?_⟩
    obtain ⟨hle, hlt⟩ := le_of_mem_drop_range hj
    exact hfrom.has hle hlt
  obtain ⟨hsound, hlost⟩ := isSound_loseWays l.terminal? hmade.isSound hall
  generalize loseWays l.terminal? (i :: (List.range made.versions.length).drop r.versions.length)
    made = lost at hsound hlost ⊢
  have hiLost := hlost i (.inl List.mem_cons_self)
  obtain ⟨⟨hstack, hplace, -⟩, hstate⟩ := hiLost.get
  have hwidens := widens_foldl_join hstack hplace hstate fun j hj =>
    hlost j (.inl (List.mem_cons_of_mem i hj))
  generalize (((List.range made.versions.length).drop r.versions.length).map fun j =>
    (lost.get j).stack).foldl Stack.join (lost.get i).stack = stack at hwidens ⊢
  -- the version that goes on takes the place of the first, and those joined with it are left out
  have hkept : (⟨lost.versions.take r.versions.length ++ lost.versions.drop made.versions.length,
      lost.finished, lost.accepted⟩ : Reading).IsSound text := by
    refine ⟨fun v hv => ?_, hsound.finished⟩
    rcases List.mem_append.mp hv with hv | hv
    · exact hsound.versions v (List.mem_of_mem_take hv)
    · exact hsound.versions v (List.mem_of_mem_drop hv)
  have hlength : i < (lost.versions.take r.versions.length ++
      lost.versions.drop made.versions.length).length := by
    rw [List.length_append, List.length_take]
    have := hi.lt_length
    have := hiLost.lt_length
    omega
  have hnew : Version.IsSound text ⟨stack, stack.top.nodes, .running, retreats stack⟩ :=
    ⟨fun _ => hwidens.isSound, isSound_retreats hwidens.isSound,
      fun l h => absurd h (Version.running_ne_waiting l)⟩
  refine isSound_recover (isSound_set hkept hnew)
    (has_set_self hlength ⟨hwidens.isSound, ?_, rfl⟩) hl
  rw [hwidens.place_eq, hplace]

end Reading

end Uninit.Grammar
