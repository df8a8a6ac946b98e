import Uninit.Grammar.Parse
import Uninit.Proofs.Repairs

/-!
# Readings keep what is sound

A reading starts with one version on an empty stack. Whatever is done at a token leaves all versions
sound, and so does comparing them, so the derivation of a text is sound from its root down: it
stands in the text, and it costs something if anything is wrong in it.

## Main statements

* `Reading.isSound_advance`: a version that reads a token keeps the reading sound
* `Reading.isSound_condense`: comparing all versions keeps a reading sound
* `isWhole_of_derive`: the derivation of a text is sound
-/
namespace Uninit.Grammar

open Uninit.Grammar.Derivation

variable {text : List Char} {n : ℕ}

namespace Reading

variable {r : Reading} {i : ℕ} {v : Version} {l : Lexeme}

/-! ## Reading a token -/

theorem isSound_shift (h : v.IsSound text) (hv : v.IsAt text n) (hl : l.StandsIn text n) :
    (shift v l).IsSound text := by
  have hpush : (v.stack.push (ofLexeme l false)
      (l.terminal?.elim State.lost fun t => v.state.after (.terminal t))).IsSound text := by
    refine Stack.isSound_push hv.stack (isSound_ofLexeme hl false fun _ => rfl)
      (hv.place ▸ hl.behind) ?_ ?_
    all_goals cases hterminal : l.terminal? with
    | none => ?_
    | some t => ?_
    · exact State.isSound_lost
    · exact State.isSound_after hv.stack.state _
    · exact fun hfound => nomatch hfound
    · refine fun _ => (State.reads_of_not_isExtra rfl).mpr ⟨.terminal t, ?_, rfl⟩
      change (l.terminal?.map Root.terminal).getD .error = _
      rw [hterminal]
      rfl
  exact h.with_stack hpush _ fun _ hwaiting => nomatch hv.running.symm.trans hwaiting

theorem isSound_shiftExtra (h : v.IsSound text) (hv : v.IsAt text n) (hl : l.StandsIn text n)
    (hterminal : l.terminal? ≠ none) : (shiftExtra v l).IsSound text := by
  have hpush : (v.stack.push (ofLexeme l true) v.state).IsSound text :=
    Stack.isSound_push hv.stack (isSound_ofLexeme hl true fun hnone => absurd hnone hterminal)
      (hv.place ▸ hl.behind) hv.stack.state fun _ => (State.reads_of_isExtra rfl).mpr rfl
  exact h.with_stack hpush _ fun _ hwaiting => nomatch hv.running.symm.trans hwaiting

/-- A version that waits at a token is sound. -/
theorem isSound_waiting (h : v.IsSound text) (hv : v.IsAt text n) (hl : l.StandsIn text n) :
    ({ v with status := .waiting l } : Version).IsSound text := by
  refine ⟨fun _ => hv.stack, h.retreats, fun l' hl' => ?_⟩
  obtain rfl := Status.waiting.inj hl'
  exact hv.place ▸ hl

/-- **What is done at a token keeps a reading sound**, and a version with which the reading goes on
stands behind the one that has been looked at. -/
theorem isSound_act {s : State} {as : List Action} {o : Outcome} (hr : r.IsSound text)
    (hi : r.Has (fun v => v.IsAt text n ∧ v.state = s) i) (has : ∀ a ∈ as, s.Allows a)
    (hl : l.StandsIn text n) (hterminal : l.terminal? ≠ none)
    (ho : ∀ j, o = .reduced (some j) → i < j ∧ r.Has (Version.IsAt text n) j) :
    (act i l o as r).1.IsSound text ∧ ∀ j, (act i l o as r).2 = .reduced (some j) →
      i < j ∧ (act i l o as r).1.Has (Version.IsAt text n) j := by
  induction as generalizing o r with
  | nil => exact ⟨hr, ho⟩
  | cons a rest ih =>
    obtain ⟨ha, hrest⟩ := List.forall_mem_cons.mp has
    obtain ⟨hat, hstate⟩ := hi.get
    cases a with
    | shift => exact ⟨isSound_set hr (isSound_shift (hr.get i) hat hl), fun j hj => nomatch hj⟩
    | shiftInList => exact ih hr hi hrest ho
    | accept =>
      refine ⟨isSound_accept (isSound_set hr ((hr.get i).ended _ _)) hl hterminal fun ps hps => ?_,
        fun j hj => nomatch hj⟩
      subst hstate
      have hcompletes := completes_of_accepts hat.stack ha hps
      rwa [hat.place] at hcompletes
    | reduce p =>
      obtain ⟨hgrows, hlast⟩ := grows_reduce (p := p) hr
        (hi.imp fun v hv => ⟨hv.1, hv.2 ▸ ha⟩)
      have hstable := (Version.isStable_isAt text n).and (Version.isStable_state text s)
      refine ih hgrows.isSound (hgrows.keeps _ hstable i hi) hrest fun j hj => ?_
      have hj := Outcome.reduced.inj hj
      change (r.reduce i p).2.or _ = some j at hj
      rcases Option.or_eq_some_iff.mp hj with hmade | ⟨-, hbefore⟩
      · obtain ⟨rfl, hlt⟩ := hlast j hmade
        exact ⟨hi.lt_length, (hgrows.isAtFrom _ (isAtFrom_length text n r)).has le_rfl hlt⟩
      · obtain ⟨hij, hj⟩ := ho j (by
          split at hbefore
          · rw [hbefore]
          · cases hbefore)
        exact ⟨hij, hgrows.keeps _ (Version.isStable_isAt text n) j hj⟩

theorem ne_eof_of_isKeyword {t : Terminal} (h : t.isKeyword = true) : t ≠ .eof := by
  rintro rfl
  cases h

/-- A version that goes on keeps the reading sound, whatever is made whole before the token. -/
theorem isSound_advanceFrom {fuel : ℕ} (hr : r.IsSound text) (hi : r.Has (Version.IsAt text n) i)
    (hl : l.StandsIn text n) : (advanceFrom i fuel l r).IsSound text := by
  induction fuel generalizing l r with
  | zero => exact hr
  | succ fuel ih =>
    have hstuck := isSound_set (k := i) hr (isSound_waiting (hr.get i) hi.get hl)
    have hown : r.Has (fun v => v.IsAt text n ∧ v.state = (r.get i).state) i :=
      has_get hi.lt_length ⟨hi.get, rfl⟩
    rw [advanceFrom]
    split
    · split
      · exact isSound_recover hr hi hl
      · exact hstuck
    · split
      · exact hstuck
      · next hterminal =>
        exact isSound_set hr (isSound_shiftExtra (hr.get i) hi.get hl (by simp [hterminal]))
      · next t _ hterminal =>
        have hact := isSound_act (o := .stuck) hr hown
          (fun a ha => State.allows_of_mem_actions (t := t) ha) hl (by simp [hterminal])
          fun j hj => nomatch hj
        split
        · next r' hmatch =>
          rw [hmatch] at hact
          exact hact.1
        · next r' j hmatch =>
          rw [hmatch] at hact
          obtain ⟨hij, hj⟩ := hact.2 j rfl
          exact ih (isSound_move hact.1 j i) (has_move hj hij) hl
        · next r' hmatch =>
          rw [hmatch] at hact
          exact isSound_set hact.1 ((hr.get i).ended _ _)
        · split
          · next hkeyword =>
            -- a keyword is no end of the text
            rw [Bool.and_eq_true] at hkeyword
            have hlength := hl.filled t hterminal (ne_eof_of_isKeyword hkeyword.1)
            exact ih hr hi ⟨hl.start, hl.stop, hl.behind, hl.ordered, fun _ _ _ => hlength⟩
          · exact hstuck

/-- **A version that reads a token keeps the reading sound.** -/
theorem isSound_advance (hr : r.IsSound text) (hi : i < r.versions.length)
    (hrunning : (r.get i).status = .running) : (r.advance i).IsSound text := by
  have hstack := (hr.get i).stack (Version.isEnded_eq_false_of_running hrunning)
  exact isSound_advanceFrom hr (has_get hi ⟨hstack, rfl, hrunning⟩)
    (Lexeme.standsIn_read hstack.place _)

theorem isSound_advanceTo (i fuel reached : ℕ) (hr : r.IsSound text) :
    (r.advanceTo i fuel reached).1.IsSound text := by
  induction fuel generalizing r with
  | zero => exact hr
  | succ fuel ih =>
    rw [advanceTo]
    dsimp only
    split
    · next hgoes =>
      rw [Bool.and_eq_true, decide_eq_true_iff] at hgoes
      have hadvance := isSound_advance hr hgoes.2 (Version.status_of_isRunning hgoes.1)
      split
      · exact hadvance
      · exact ih hadvance
    · exact hr

theorem isSound_advanceAll (fuel i reached : ℕ) (hr : r.IsSound text) :
    (advanceAll fuel i reached r).1.IsSound text := by
  induction fuel generalizing r i reached with
  | zero => exact hr
  | succ fuel ih =>
    have hadvance := isSound_advanceTo i advanceSteps reached hr
    rw [advanceAll]
    split
    · exact ih _ _ hadvance
    · exact hr

/-! ## Comparing versions -/

/-- A version of some is sound, also if it is none of them. -/
theorem isSound_getD {vs : List Version} (hvs : ∀ v ∈ vs, v.IsSound text) (j : ℕ) :
    (vs[j]?.getD default).IsSound text :=
  IsSound.get (r := ⟨vs, none, 0⟩) ⟨hvs, fun _ h => nomatch h⟩ j

theorem isSound_place {own : Version.Standing} {fuel j : ℕ} {vs : List Version}
    (hvs : ∀ v ∈ vs, v.IsSound text) : ∀ v ∈ place own fuel j vs, v.IsSound text := by
  have hset : ∀ (us : List Version) (k : ℕ) (w : Version), (∀ v ∈ us, v.IsSound text) →
      w.IsSound text → ∀ v ∈ us.set k w, v.IsSound text := by
    intro us k w hus hw v hv
    rcases List.mem_or_eq_of_mem_set hv with hv | rfl
    · exact hus v hv
    · exact hw
  induction fuel generalizing j vs with
  | zero => exact hvs
  | succ fuel ih =>
    rw [place]
    dsimp only
    split
    · exact hvs
    split
    · exact fun v hv => hvs v (List.mem_of_mem_eraseIdx hv)
    · exact ih fun v hv => hvs v (List.mem_of_mem_eraseIdx hv)
    · split
      · next hmeets =>
        obtain ⟨-, hrunning, -⟩ := Version.isRunning_of_meets hmeets
        have hjoin := Version.join_of_meets (isSound_getD hvs j)
          ((isSound_getD hvs _).stack (Version.isEnded_eq_false_of_running hrunning)) hmeets
        exact fun v hv => hset vs j _ hvs hjoin.2.1 v (List.mem_of_mem_eraseIdx hv)
      · split
        · exact ih (hset _ _ _ (hset vs j _ hvs (isSound_getD hvs _)) (isSound_getD hvs j))
        · exact ih hvs

theorem isSound_compareAll {vs : List Version} (hvs : ∀ v ∈ vs, v.IsSound text) :
    ∀ v ∈ compareAll vs, v.IsSound text := by
  refine List.foldlRecOn (motive := fun found : List Version => ∀ v ∈ found, v.IsSound text) vs _
    (fun v hv => absurd hv List.not_mem_nil) fun found hfound v hv => ?_
  split
  · exact hfound
  · refine isSound_place fun w hw => ?_
    rcases List.mem_append.mp hw with hw | hw
    · exact hfound w hw
    · exact List.mem_singleton.mp hw ▸ hvs v hv

theorem isSound_resume {fuel : ℕ} {running : Bool} {least : Option ℕ} (hr : r.IsSound text) :
    (resume fuel i running least r).1.IsSound text := by
  induction fuel generalizing i running least r with
  | zero => exact hr
  | succ fuel ih =>
    rw [resume]
    dsimp only
    split
    · exact hr
    split
    · next hlength _ l hwaiting =>
      split
      · -- the version goes on where it waited
        have hlt : i < r.versions.length := by omega
        have hstack := (hr.get i).stack (by rw [Version.isEnded, hwaiting])
        have hset := isSound_set (k := i) hr
          ((hr.get i).with_stack hstack (r.get i).mark Version.running_ne_waiting)
        exact ih (isSound_repair hset (has_set_self hlt ⟨hstack, rfl, rfl⟩)
          ((hr.get i).waiting l hwaiting))
      · exact ih (isSound_remove hr i)
    · exact ih hr

/-- **Comparing all versions keeps a reading sound.** -/
theorem isSound_condense (hr : r.IsSound text) : r.condense.1.IsSound text :=
  isSound_resume ⟨fun v hv => isSound_compareAll hr.versions v (List.mem_of_mem_take hv),
    hr.finished⟩

/-! ## Reading a text -/

theorem isSound_run {fuel reached : ℕ} (hr : r.IsSound text) :
    (r.run fuel reached).IsSound text := by
  induction fuel generalizing r reached with
  | zero => exact hr
  | succ fuel ih =>
    have hcondensed := isSound_condense
      (isSound_advanceAll (maxVersions * (overflow + maxVersions)) 0 reached hr)
    rw [run]
    dsimp only
    split
    · exact hcondensed
    · exact ih hcondensed

theorem isSound_start (text : List Char) : (start text).IsSound text :=
  ⟨fun _ hv => List.mem_singleton.mp hv ▸ Version.isSound_of (Stack.isSound_bottom text) 0,
    fun _ h => nomatch h⟩

end Reading

/-- **The derivation of a text is sound.** It is one of a translation unit, or an error. -/
theorem isWhole_of_derive {d : Derivation} (h : derive text = some d) : d.IsWhole text :=
  (Reading.isSound_run (Reading.isSound_start text)).finished d h

end Uninit.Grammar
