import Uninit.Grammar.Syntax
import Uninit.Proofs.Derivations
import Uninit.Proofs.Faults
import Uninit.Proofs.Layout
import Uninit.Proofs.Lowering

/-!
# Trees of sound derivations

A sound derivation makes nodes that stand where it stands. Its parts make the children of its node,
each in the part that the steps of its production give it, or the nodes that take its place. So the
nodes of the tree are ordered and placed in the text, a node is marked as soon as anything is wrong
in one of its children, and the parts of statements stand in the order in which they are walked.

## Main definitions

* `Derivation.ShownAs`: how a derivation is shown among the parts of a phrase
* `Tree.IsPlaced`: a node is ordered, and its ends are places of a text

## Main statements

* `Derivation.isPlaced_of_mem_shown`: the nodes of a sound derivation are ordered and in the text
* `Derivation.marksUp_of_mem_shown`: nothing that is wrong goes without a mark
* `Derivation.partsInOrder_of_mem_shown`: the parts of statements are in order
-/
namespace Uninit

namespace Tree

/-- A node is ordered, and it starts and ends at places of a text. -/
def IsPlaced (text : List Char) (t : Tree) : Prop :=
  t.IsOrdered ∧ Text.IsPlace text t.start ∧ Text.IsPlace text t.stop

end Tree

namespace Grammar

open Uninit.Tree (Field Kind)

/-- What is relied on in a step of a production: an inner symbol, which is called by another kind
only if it is a token, and is neither a comment nor an error then. -/
structure Step.IsRegular (s : Step) : Prop where
  inner : s.symbol.isInner = true
  called : s.kind = none ∨ s.symbol.isPhrase = false
  not_comment : s.kind ≠ some .comment
  not_error : s.kind ≠ some .error

namespace Derivation

variable {text : List Char} {d : Derivation} {ps : List Derivation} {steps : List Step}
  {field f : Option Field} {k : Option Kind} {t : Tree}

/-! ## How parts are shown -/

/-- Some derivations follow some steps: they are the parts of these, unless there are no steps. -/
def Follows (steps : List Step) (ps : List Derivation) : Prop :=
  steps = [] ∨ roots ps = steps.map fun s => s.symbol.root

/-- How a derivation is shown among the parts that follow some steps, where the whole plays a part:
as itself if it may stand anywhere, in the part of the whole if there are no steps, and else in the
part and kind that its step gives it. -/
inductive ShownAs (field : Option Field) (steps : List Step) (d : Derivation) :
    Option Field → Option Kind → Prop
  | alone (extra : d.isExtra = true) : ShownAs field steps d none none
  | free (own : d.isExtra = false) (none_left : steps = []) : ShownAs field steps d field none
  | step (s : Step) (own : d.isExtra = false) (mem : s ∈ steps) (root_eq : d.root = s.symbol.root) :
      ShownAs field steps d (s.field.or field) s.kind

theorem ShownAs.field_eq_none (h : ShownAs field steps d f k) (hextra : d.isExtra = true) :
    f = none := by
  cases h with
  | alone => rfl
  | free own => exact nomatch hextra.symm.trans own
  | step _ own => exact nomatch hextra.symm.trans own

/-- What is shown by a step that is still to come is shown by a step. -/
theorem ShownAs.cons {s : Step} (h : ShownAs field steps d f k) (hd : d ∈ ps)
    (hroots : roots ps = steps.map fun s => s.symbol.root) : ShownAs field (s :: steps) d f k := by
  cases h with
  | alone extra => exact .alone extra
  | free own none_left =>
    subst none_left
    exact absurd (root_mem_roots hd own) (by rw [hroots]; exact List.not_mem_nil)
  | step s' own mem root_eq => exact .step s' own (List.mem_cons_of_mem s mem) root_eq

/-- What follows the steps behind the first. -/
theorem Follows.tail (h : Follows steps (d :: ps)) :
    d.isExtra = true ∧ Follows steps ps ∨
      d.isExtra = false ∧ (steps = [] ∨ ∃ s more, steps = s :: more ∧ d.root = s.symbol.root ∧
        roots ps = more.map fun s => s.symbol.root) := by
  cases hextra : d.isExtra with
  | true =>
    exact .inl ⟨rfl, h.imp id fun hroots => (roots_cons_of_isExtra hextra).symm.trans hroots⟩
  | false =>
    refine .inr ⟨rfl, h.imp id fun hroots => ?_⟩
    rw [roots_cons_of_not_isExtra hextra] at hroots
    obtain ⟨s, more, rfl, hs, hmore⟩ := List.map_eq_cons_iff.mp hroots.symm
    exact ⟨s, more, rfl, hs.symm, hmore.symm⟩

theorem shownAll_cons_of_isExtra (h : d.isExtra = true) (field : Option Field) (steps : List Step)
    (ps : List Derivation) : shownAll field steps (d :: ps) =
      shown none none d ++ shownAll field steps ps := by
  cases steps <;> simp [shownAll, h]

theorem shownAll_nil_cons (h : d.isExtra = false) (field : Option Field) (ps : List Derivation) :
    shownAll field [] (d :: ps) = shown field none d ++ shownAll field [] ps := by
  simp [shownAll, h]

theorem shownAll_cons_cons (h : d.isExtra = false) (field : Option Field) (s : Step)
    (steps : List Step) (ps : List Derivation) : shownAll field (s :: steps) (d :: ps) =
      shown (s.field.or field) s.kind d ++ shownAll field steps ps := by
  simp [shownAll, h]

/-- All that is shown comes from one of the parts, and each part is shown in its way. -/
theorem shownAll_spec (h : Follows steps ps) :
    (∀ t ∈ shownAll field steps ps,
      ∃ d ∈ ps, ∃ f k, ShownAs field steps d f k ∧ t ∈ shown f k d) ∧
    ∀ d ∈ ps, ∃ f k, ShownAs field steps d f k ∧ ∀ t ∈ shown f k d,
      t ∈ shownAll field steps ps := by
  induction ps generalizing steps with
  | nil => exact ⟨fun t ht => absurd ht List.not_mem_nil, fun d hd => absurd hd List.not_mem_nil⟩
  | cons d rest ih =>
    -- what holds for the first and, by the steps that are left, for the rest
    have hsplit : ∀ (more : List Step) (f : Option Field) (k : Option Kind),
        shownAll field steps (d :: rest) = shown f k d ++ shownAll field more rest →
        ShownAs field steps d f k → Follows more rest →
        (∀ q ∈ rest, ∀ f k, ShownAs field more q f k → ShownAs field steps q f k) →
        (∀ t ∈ shownAll field steps (d :: rest),
          ∃ q ∈ d :: rest, ∃ f k, ShownAs field steps q f k ∧ t ∈ shown f k q) ∧
        ∀ q ∈ d :: rest, ∃ f k, ShownAs field steps q f k ∧ ∀ t ∈ shown f k q,
          t ∈ shownAll field steps (d :: rest) := by
      intro more f k heq hd hrest hlift
      obtain ⟨hfrom, hto⟩ := ih hrest
      rw [heq]
      refine ⟨fun t ht => ?_, List.forall_mem_cons.mpr ⟨?_, fun q hq => ?_⟩⟩
      · rcases List.mem_append.mp ht with ht | ht
        · exact ⟨d, List.mem_cons_self, f, k, hd, ht⟩
        · obtain ⟨q, hq, f', k', hshown, ht⟩ := hfrom t ht
          exact ⟨q, List.mem_cons_of_mem d hq, f', k', hlift q hq f' k' hshown, ht⟩
      · exact ⟨f, k, hd, fun t ht => List.mem_append_left _ ht⟩
      · obtain ⟨f', k', hshown, hall⟩ := hto q hq
        exact ⟨f', k', hlift q hq f' k' hshown, fun t ht => List.mem_append_right _ (hall t ht)⟩
    rcases h.tail with ⟨hextra, hrest⟩ | ⟨hown, rfl | ⟨s, more, rfl, hroot, hroots⟩⟩
    · exact hsplit steps none none (shownAll_cons_of_isExtra hextra ..) (.alone hextra) hrest
        fun _ _ _ _ h => h
    · exact hsplit [] field none (shownAll_nil_cons hown ..) (.free hown rfl) (.inl rfl)
        fun _ _ _ _ h => h
    · exact hsplit more (s.field.or field) s.kind (shownAll_cons_cons hown ..)
        (.step s hown List.mem_cons_self hroot) (.inr hroots) fun q hq _ _ h => h.cons hq hroots

/-- A derivation is called by another kind only if it is a token of the text, and never by that of a
comment or an error. -/
def MayBeCalled (d : Derivation) (k : Option Kind) : Prop :=
  ∀ c, k = some c → c ≠ .comment ∧ c ≠ .error ∧ ∃ t, d.root = .terminal t ∧ t ≠ .eof

theorem mayBeCalled_none (d : Derivation) : d.MayBeCalled none :=
  fun _ h => nomatch h

theorem ShownAs.mayBeCalled (h : ShownAs field steps d f k)
    (hregular : ∀ s ∈ steps, s.IsRegular) : d.MayBeCalled k := by
  cases h with
  | alone => exact mayBeCalled_none d
  | free => exact mayBeCalled_none d
  | step s _ mem root_eq =>
    intro c hc
    obtain ⟨hinner, hcalled, hcomment, herror⟩ := hregular s mem
    rw [hc] at hcalled hcomment herror
    refine ⟨fun h => hcomment (congrArg some h), fun h => herror (congrArg some h), ?_⟩
    obtain ⟨t | n, _, _⟩ := s
    · exact ⟨t, root_eq, by rintro rfl; cases hinner⟩
    · exact absurd (hcalled.resolve_left (by simp)) (by simp [Symbol.isPhrase])

/-- The steps of a sound derivation are those of a production, if there are any. -/
theorem IsSound.steps_eq (h : d.IsSound text) : d.summary.steps = [] ∨
    ∃ p : Production, p ∈ p.whole.productions ∧ p.whole ≠ .file ∧
      d.root = .nonterminal p.whole ∧ d.summary.steps = p.steps := by
  cases h.summary.form with
  | token _ _ _ steps_eq => exact .inl steps_eq
  | phrase p mem inner root_eq _ steps_eq =>
    exact steps_eq.symm.imp id fun hsteps => ⟨p, mem, inner, root_eq, hsteps⟩
  | fault _ _ steps_eq => exact .inl steps_eq
  | unreadable _ _ _ steps_eq => exact .inl steps_eq

theorem IsSound.isRegular_of_mem (h : d.IsSound text) : ∀ s ∈ d.summary.steps, s.IsRegular := by
  intro s hs
  rcases h.steps_eq with hnone | ⟨p, hp, hfile, -, hsteps⟩
  · rw [hnone] at hs
    cases hs
  · rw [hsteps] at hs
    obtain ⟨hinner, hcalled, hcomment, herror⟩ := Production.isInner_of_mem_steps hp hfile hs
    exact ⟨hinner, hcalled, hcomment, herror⟩

theorem IsSound.follows (h : d.IsSound text) : Follows d.summary.steps d.parts := by
  cases h.summary.form with
  | token _ _ _ steps_eq => exact .inl steps_eq
  | phrase p _ _ _ _ steps_eq parts =>
    refine steps_eq.symm.imp id fun hsteps => ?_
    rw [parts, hsteps, Production.symbols, List.map_map]
    rfl
  | fault _ _ steps_eq => exact .inl steps_eq
  | unreadable _ _ _ steps_eq => exact .inl steps_eq

/-- The node that a derivation makes. -/
theorem shown_of_some {c : Kind} (h : k.or d.root.kind? = some c) (field : Option Field) :
    shown field k d = [.node ⟨c, field, d.summary.start, d.summary.stop.point, d.summary.missing,
      decide (0 < d.cost)⟩ (shownAll none d.summary.steps d.parts)] := by
  obtain ⟨s, ps⟩ := d
  have h : k.or s.root.kind? = some c := h
  rw [shown, h]
  rfl

/-- A derivation that is no node gives way to its parts. -/
theorem shown_of_none (h : k.or d.root.kind? = none) (field : Option Field) :
    shown field k d = shownAll field d.summary.steps d.parts := by
  obtain ⟨s, ps⟩ := d
  have h : k.or s.root.kind? = none := h
  rw [shown, h]
  rfl

/-! ## Where the nodes stand -/

abbrev nodeStart (t : Tree) : ℕ :=
  t.start.byte

abbrev nodeStop (t : Tree) : ℕ :=
  t.stop.byte

theorem inRow_shownAll {low high : ℕ} (hrow : InRow startByte stopByte low high ps)
    (h : ∀ d ∈ ps, ∀ f k, InRow nodeStart nodeStop d.startByte d.stopByte (shown f k d))
    (field : Option Field) (steps : List Step) :
    InRow nodeStart nodeStop low high (shownAll field steps ps) := by
  induction ps generalizing low steps with
  | nil => exact hrow
  | cons d rest ih =>
    obtain ⟨hd, hrest⟩ := List.forall_mem_cons.mp h
    obtain ⟨hlow, -, hrow⟩ := hrow
    have hfirst : ∀ f k, InRow nodeStart nodeStop low d.stopByte (shown f k d) := fun f k =>
      (hd f k).mono hlow le_rfl
    cases hextra : d.isExtra with
    | true =>
      rw [shownAll_cons_of_isExtra hextra]
      exact (hfirst _ _).append (ih hrow hrest steps)
    | false =>
      cases steps with
      | nil =>
        rw [shownAll_nil_cons hextra]
        exact (hfirst _ _).append (ih hrow hrest [])
      | cons s more =>
        rw [shownAll_cons_cons hextra]
        exact (hfirst _ _).append (ih hrow hrest more)

/-- **The nodes of a derivation stand in a row** where it stands. -/
theorem inRow_shown (h : d.IsSound text) (f : Option Field) (k : Option Kind) :
    InRow nodeStart nodeStop d.startByte d.stopByte (shown f k d) := by
  induction h generalizing f k with
  | @node s ps own parts ih =>
    cases hkind : k.or (node s ps).root.kind? with
    | some c =>
      rw [shown_of_some hkind]
      exact ⟨le_rfl, own.row.le, le_rfl⟩
    | none =>
      rw [shown_of_none hkind]
      exact inRow_shownAll own.row ih f _

/-- **The nodes of a derivation are ordered, and stand in the text.** -/
theorem isPlaced_of_mem_shown (h : d.IsSound text) (ht : t ∈ shown f k d) :
    ∀ n ∈ t.nodes, n.IsPlaced text := by
  induction h generalizing f k t with
  | @node s ps own parts ih =>
    have hsound : (node s ps).IsSound text := .node own parts
    have hbelow : ∀ field, ∀ c ∈ shownAll field s.steps ps, ∀ n ∈ c.nodes, n.IsPlaced text := by
      intro field c hc
      obtain ⟨q, hq, f', k', -, hc⟩ := (shownAll_spec hsound.follows).1 c hc
      exact ih q hq hc
    cases hkind : k.or (node s ps).root.kind? with
    | none =>
      rw [shown_of_none hkind] at ht
      exact hbelow f t ht
    | some c =>
      rw [shown_of_some hkind] at ht
      obtain rfl := List.mem_singleton.mp ht
      have hrow := inRow_shownAll own.row (fun q hq => inRow_shown (parts q hq)) none s.steps
      refine Tree.forall_mem_nodes.mpr ⟨⟨⟨own.row.le, fun c hc => ?_, hrow.pairwise⟩, own.start,
        own.stop.isPlace⟩, hbelow none⟩
      exact ⟨(hrow.bounds hc).1, (hrow.bounds hc).2.2⟩

/-! ## What is wrong -/

theorem eq_error_of_kind? {r : Root} (h : r.kind? = some .error) : r = .error := by
  cases r with
  | terminal t => exact absurd h t.kind?_spec.2.1
  | nonterminal n => exact absurd h n.kind?_spec.2.1
  | error => rfl
  | skipped => cases h

/-- A node of a sound derivation is called as what the derivation is, unless it is a token. -/
theorem kind_eq_of_or {c : Kind} (hk : d.MayBeCalled k) (h : k.or d.root.kind? = some c) :
    d.root.kind? = some c ∨ c ≠ .comment ∧ c ≠ .error ∧ ∃ t, d.root = .terminal t ∧ t ≠ .eof := by
  cases k with
  | none => exact .inl h
  | some c' =>
    obtain rfl : c' = c := Option.some.inj h
    exact .inr (hk c' rfl)

/-- **Nothing that is wrong goes without a mark**: something is wrong in a derivation if anything is
in a node of it, and a node is marked if anything is wrong in one of its children. -/
theorem marksUp_of_mem_shown (h : d.IsSound text) (hk : d.MayBeCalled k) (ht : t ∈ shown f k d) :
    (t.IsWrong → d.IsWrong) ∧ ∀ n ∈ t.nodes, n.MarksUp := by
  induction h generalizing f k t with
  | @node s ps own parts ih =>
    have hsound : (node s ps).IsSound text := .node own parts
    have hbelow : ∀ field, ∀ c ∈ shownAll field s.steps ps,
        (c.IsWrong → 0 < s.cost) ∧ ∀ n ∈ c.nodes, n.MarksUp := by
      intro field c hc
      obtain ⟨q, hq, f', k', hshown, hc⟩ := (shownAll_spec hsound.follows).1 c hc
      obtain ⟨hwrong, hmarks⟩ := ih q hq (hshown.mayBeCalled hsound.isRegular_of_mem) hc
      exact ⟨fun hc => own.dear ⟨q, hq, hwrong hc⟩, hmarks⟩
    cases hkind : k.or (node s ps).root.kind? with
    | none =>
      rw [shown_of_none hkind] at ht
      exact ⟨fun hwrong => .inl ((hbelow f t ht).1 hwrong), (hbelow f t ht).2⟩
    | some c =>
      rw [shown_of_some hkind] at ht
      obtain rfl := List.mem_singleton.mp ht
      refine ⟨?_, Tree.forall_mem_nodes.mpr
        ⟨fun c hc hwrong => ?_, fun c hc => (hbelow none c hc).2⟩⟩
      · rintro (hfault | hflawed)
        · rcases (Bool.or_eq_true _ _).mp hfault with herror | hmissing
          · obtain rfl : c = .error := eq_of_beq herror
            rcases kind_eq_of_or hk hkind with hroot | ⟨-, hne, -⟩
            · exact .inr (by rw [eq_error_of_kind? hroot]; rfl)
            · exact absurd rfl hne
          · exact .inl (own.missing hmissing)
        · exact .inl (of_decide_eq_true hflawed)
      · exact decide_eq_true ((hbelow none c hc).1 hwrong)

/-! ## The order of parts -/

/-- What is hidden has no branch of its own. -/
theorem isBranch_of_mem_steps (h : d.IsSound text) (hhidden : d.root.kind? = none) {s : Step}
    (hs : s ∈ d.summary.steps) : s.field.any isBranch = false := by
  rcases h.steps_eq with hnone | ⟨p, hp, -, hroot, hsteps⟩
  · rw [hnone] at hs
    cases hs
  · have horderly := (Production.isOrderly_of_mem hp).1
    rw [hroot] at hhidden
    exact horderly hhidden s (hsteps ▸ hs)

/-- **A branch is played by what a step names so**: what takes the place of a phrase is a branch
only if the phrase is. -/
theorem field_of_isBranch (h : d.IsSound text) {g : Field} (hg : isBranch g = true)
    (ht : t ∈ shown f k d) (hfield : t.field = some g) : f = some g := by
  induction h generalizing f k t with
  | @node s ps own parts ih =>
    have hsound : (node s ps).IsSound text := .node own parts
    cases hkind : k.or (node s ps).root.kind? with
    | some c =>
      rw [shown_of_some hkind] at ht
      obtain rfl := List.mem_singleton.mp ht
      exact hfield
    | none =>
      rw [shown_of_none hkind] at ht
      obtain ⟨q, hq, f', k', hshown, ht⟩ := (shownAll_spec hsound.follows).1 t ht
      have hplays : f' = some g := ih q hq ht hfield
      cases hshown with
      | alone => cases hplays
      | free => exact hplays
      | step s' _ mem =>
        have hhidden := (Option.or_eq_none_iff.mp hkind).2
        have hbranch := isBranch_of_mem_steps hsound hhidden mem
        rcases Option.or_eq_some_iff.mp hplays with hown | ⟨-, hwhole⟩
        · rw [hown, Option.any_some, hg] at hbranch
          cases hbranch
        · exact hwhole

/-- What may stand anywhere plays no part. -/
theorem field_of_isExtra (h : d.IsSound text) (hextra : d.isExtra = true)
    (ht : t ∈ shown none none d) : t.field = none := by
  cases hkind : (none : Option Kind).or d.root.kind? with
  | some c =>
    rw [shown_of_some hkind] at ht
    obtain rfl := List.mem_singleton.mp ht
    rfl
  | none =>
    rw [shown_of_none hkind] at ht
    rcases h.of_isExtra hextra with ⟨t', hroot⟩ | ⟨hroot, -⟩
    · rw [h.parts_eq_nil hroot] at ht
      cases ht
    · rw [hroot] at hkind
      cases hkind

/-- Nothing that is shown for a step plays a part. -/
def Avoids (text : List Char) (g : Field) (s : Step) : Prop :=
  ∀ d : Derivation, d.IsSound text → d.root = s.symbol.root →
    ∀ t ∈ shown s.field s.kind d, t.field ≠ some g

theorem field_ne_of_avoids {g : Field} (hps : ∀ d ∈ ps, d.IsSound text)
    (hroots : roots ps = steps.map fun s => s.symbol.root)
    (hsteps : ∀ s ∈ steps, Avoids text g s) (ht : t ∈ shownAll none steps ps) :
    t.field ≠ some g := by
  obtain ⟨d, hd, f, k, hshown, ht⟩ := (shownAll_spec (.inr hroots)).1 t ht
  cases hshown with
  | alone extra =>
    rw [field_of_isExtra (hps d hd) extra ht]
    simp
  | free own none_left =>
    have hmem := root_mem_roots hd own
    rw [hroots, none_left] at hmem
    cases hmem
  | step s _ mem root_eq =>
    rw [Option.or_none] at ht
    exact hsteps s mem d (hps d hd) root_eq t ht

/-- Parts stand in an order if their steps do: nothing that is shown for a step that plays the later
part, or for a step behind it, plays the earlier one. -/
theorem precedes_shownAll {early late : Field} (hlate : isBranch late = true)
    (hps : ∀ d ∈ ps, d.IsSound text) (hfollows : Follows steps ps)
    (hown : ∀ s ∈ steps, s.field = some late → Avoids text early s)
    (hlater : steps.Pairwise fun s s' => s.field = some late → Avoids text early s') :
    Tree.precedes early late (shownAll none steps ps) = true := by
  rw [Tree.precedes, decide_eq_true_iff]
  induction ps generalizing steps with
  | nil => exact .nil
  | cons d rest ih =>
    obtain ⟨hd, hrest⟩ := List.forall_mem_cons.mp hps
    -- where the first plays no part, nothing is asked
    have hfree : ∀ more, (shownAll none more rest).Pairwise
        (fun a b => a.plays late → b.plays early = false) →
        (shown none none d ++ shownAll none more rest).Pairwise
          fun a b => a.plays late → b.plays early = false := by
      intro more hmore
      have hnone : ∀ a ∈ shown none none d, ¬ a.plays late := fun a ha hplays =>
        Option.some_ne_none late (field_of_isBranch hd hlate ha (Tree.plays_iff.mp hplays)).symm
      refine List.pairwise_append.mpr ⟨?_, hmore, fun a ha b _ hplays => absurd hplays (hnone a ha)⟩
      exact List.pairwise_of_forall_mem_list fun a ha b _ hplays => absurd hplays (hnone a ha)
    rcases hfollows.tail with ⟨hextra, hmore⟩ | ⟨hown', rfl | ⟨s, more, rfl, hroot, hroots⟩⟩
    · rw [shownAll_cons_of_isExtra hextra]
      exact hfree steps (ih hrest hmore hown hlater)
    · rw [shownAll_nil_cons hown']
      exact hfree [] (ih hrest (.inl rfl) hown hlater)
    · rw [shownAll_cons_cons hown', Option.or_none]
      obtain ⟨hs, hmore⟩ := List.forall_mem_cons.mp hown
      obtain ⟨hbehind, hpairs⟩ := List.pairwise_cons.mp hlater
      have hplays : ∀ a ∈ shown s.field s.kind d, a.plays late → s.field = some late :=
        fun a ha hplays => field_of_isBranch hd hlate ha (Tree.plays_iff.mp hplays)
      refine List.pairwise_append.mpr ⟨?_, ih hrest (.inr hroots) hmore hpairs, ?_⟩
      · refine List.pairwise_of_forall_mem_list fun a ha b hb hlate => ?_
        simpa [Tree.plays] using hs (hplays a ha hlate) d hd hroot b hb
      · intro a ha b hb hlate
        have hne := field_ne_of_avoids hrest hroots
          (fun s' hs' => hbehind s' hs' (hplays a ha hlate)) hb
        simpa [Tree.plays] using hne

theorem avoids_of_field_ne {g : Field} {s : Step} (hg : isBranch g = true)
    (hs : s.field ≠ some g) : Avoids text g s :=
  fun _ hd _ _ ht hfield => hs (field_of_isBranch hd hg ht hfield)

theorem isSome_kind?_root (x : Symbol) : x.root.kind?.isSome = x.isNode := by
  cases x <;> rfl

/-- The phrase for any statement shows one node in its part, so it avoids all other parts. -/
theorem avoids_of_statement {g : Field} {s : Step} (hs : s.IsRegular)
    (hsymbol : s.symbol = .nonterminal .statement) (hfield : s.field ≠ some g) :
    Avoids text g s := by
  intro d hd hroot t ht
  have hkind : s.kind = none := hs.called.resolve_right (by simp [hsymbol, Symbol.isPhrase])
  rw [hsymbol] at hroot
  rw [hkind, shown_of_none (by rw [hroot]; rfl)] at ht
  obtain ⟨p, hp, -, -, hroots, hsteps⟩ := hd.exists_production hroot
  have hnodes := (Production.isOrderly_of_mem hp).2.1 rfl
  obtain ⟨q, hq, f, k, hshown, ht⟩ := (shownAll_spec hd.follows).1 t ht
  -- a part of the production is a node of its own
  have hnode : q.isExtra = false → t.field = f := by
    intro hown
    have hmem := root_mem_roots hq hown
    rw [hroots] at hmem
    obtain ⟨x, hx, hx'⟩ := List.mem_map.mp hmem
    obtain ⟨s', hs', rfl⟩ := List.mem_map.mp hx
    have hsome : (k.or q.root.kind?).isSome = true := by
      rw [Option.isSome_or, ← hx', isSome_kind?_root, (hnodes s' hs').2, Bool.or_true]
    obtain ⟨c, hc⟩ := Option.isSome_iff_exists.mp hsome
    rw [shown_of_some hc] at ht
    obtain rfl := List.mem_singleton.mp ht
    rfl
  cases hshown with
  | alone extra =>
    rw [field_of_isExtra (hd.of_mem_parts hq) extra ht]
    simp
  | free own =>
    rw [hnode own]
    exact hfield
  | step s' own mem =>
    have hplain : s'.field = none := by
      rcases hsteps with hsteps | hsteps
      · exact (hnodes s' (hsteps ▸ mem)).1
      · rw [hsteps] at mem
        cases mem
    rw [hnode own, hplain]
    exact hfield

theorem childrenInOrder_of_ne {c : Kind} (hif : c ≠ .ifStatement) (hfor : c ≠ .forStatement)
    (cs : List Tree) : Tree.childrenInOrder c cs = true := by
  cases c <;> first | rfl | contradiction

theorem eq_ifStatement_of_kind? {r : Root} (h : r.kind? = some .ifStatement) :
    r = .nonterminal .ifStatement := by
  cases r with
  | terminal t => exact absurd h t.kind?_spec.2.2.1
  | nonterminal n => exact congrArg Root.nonterminal (n.kind?_spec.2.2.1 h)
  | error => cases h
  | skipped => cases h

theorem eq_forStatement_of_kind? {r : Root} (h : r.kind? = some .forStatement) :
    r = .nonterminal .forStatement := by
  cases r with
  | terminal t => exact absurd h t.kind?_spec.2.2.2
  | nonterminal n => exact congrArg Root.nonterminal (n.kind?_spec.2.2.2 h)
  | error => cases h
  | skipped => cases h

/-- The children of a node stand in the order in which they are walked. -/
theorem childrenInOrder_shownAll {c : Kind} (h : d.IsSound text) (hroot : d.root.kind? = some c) :
    Tree.childrenInOrder c (shownAll none d.summary.steps d.parts) = true := by
  have hparts : ∀ q ∈ d.parts, q.IsSound text := fun q hq => h.of_mem_parts hq
  by_cases hif : c = .ifStatement
  · subst hif
    obtain ⟨p, hp, -, -, -, hsteps⟩ := h.exists_production (eq_ifStatement_of_kind? hroot)
    have hpairs := (Production.isOrderly_of_mem hp).2.2.1 rfl
    refine precedes_shownAll rfl hparts h.follows (fun s _ hs => ?_) ?_
    · exact avoids_of_field_ne rfl (by simp [hs])
    · rcases hsteps with hsteps | hsteps
      · rw [hsteps]
        exact hpairs.imp fun hab ha => avoids_of_field_ne rfl (hab ha)
      · rw [hsteps]
        exact .nil
  by_cases hfor : c = .forStatement
  · subst hfor
    obtain ⟨p, hp, -, -, -, hsteps⟩ := h.exists_production (eq_forStatement_of_kind? hroot)
    obtain ⟨hlast, hbody⟩ := (Production.isOrderly_of_mem hp).2.2.2 rfl
    refine precedes_shownAll rfl hparts h.follows (fun s hs hfield => ?_) ?_
    · refine avoids_of_statement (h.isRegular_of_mem s hs) (hbody s ?_ hfield) (by simp [hfield])
      rcases hsteps with hsteps | hsteps
      · exact hsteps ▸ hs
      · rw [hsteps] at hs
        cases hs
    · rcases hsteps with hsteps | hsteps
      · rw [hsteps]
        exact hlast.imp fun ha hbody => absurd hbody ha
      · rw [hsteps]
        exact .nil
  exact childrenInOrder_of_ne hif hfor _

/-- **The parts of statements stand in the order in which they are walked.** -/
theorem partsInOrder_of_mem_shown (h : d.IsSound text) (hk : d.MayBeCalled k)
    (ht : t ∈ shown f k d) : t.partsInOrder = true := by
  induction h generalizing f k t with
  | @node s ps own parts ih =>
    have hsound : (node s ps).IsSound text := .node own parts
    have hbelow : ∀ field, ∀ c ∈ shownAll field s.steps ps, c.partsInOrder = true := by
      intro field c hc
      obtain ⟨q, hq, f', k', hshown, hc⟩ := (shownAll_spec hsound.follows).1 c hc
      exact ih q hq (hshown.mayBeCalled hsound.isRegular_of_mem) hc
    cases hkind : k.or (node s ps).root.kind? with
    | none =>
      rw [shown_of_none hkind] at ht
      exact hbelow f t ht
    | some c =>
      rw [shown_of_some hkind] at ht
      obtain rfl := List.mem_singleton.mp ht
      refine Tree.partsInOrder_node.mpr ⟨?_, hbelow none⟩
      rcases kind_eq_of_or hk hkind with hroot | ⟨-, -, t, hroot, -⟩
      · exact childrenInOrder_shownAll hsound hroot
      · rw [show ps = [] from hsound.parts_eq_nil hroot]
        cases c <;> rfl

end Derivation

end Grammar

end Uninit
