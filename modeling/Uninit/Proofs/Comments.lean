import Uninit.Proofs.Reports

/-!
# Trees without their comments

Deleting the comments of a tree moves nothing, so a declaration keeps its row, its specifiers and
its text. What can change is the child that is picked by its number: a parenthesized declarator
takes its name from its first named child, and a comment is a named child too.

## Main definitions

* `Tree.withoutComments`: a tree without the comments in it
* `Tree.isLaidOut`: comments are tokens among other nodes, and nodes stand in the order of the text
* `Tree.hidesName`: a comment stands in the way of the name that a declarator declares

## Main statements

* `tokens_withoutComments`: the tokens of a tree are those it has without its comments
* `declaredName_withoutComments_iff`: which declarators declare the same without their comments
* `declarations_withoutComments`: the declarations without them, declarator by declarator
-/
namespace Uninit.Tree

variable (source : String)

/-! ## Deleting comments -/

def isComment (t : Tree) : Bool :=
  t.kind == .comment

mutual

/-- A tree without the comments in it. Everything else stays where it is. -/
def withoutComments : Tree → Tree
  | node l cs => node l (withoutCommentsIn cs)

def withoutCommentsIn : List Tree → List Tree
  | [] => []
  | t :: rest =>
    if t.isComment then withoutCommentsIn rest else withoutComments t :: withoutCommentsIn rest

end

theorem withoutCommentsIn_eq_map (cs : List Tree) :
    withoutCommentsIn cs = (cs.filter fun c => !c.isComment).map withoutComments := by
  induction cs with
  | nil => rfl
  | cons c rest ih => cases hc : c.isComment <;> simp [withoutCommentsIn, hc, ih]

section Label

variable (t : Tree)

@[simp] theorem label_withoutComments : t.withoutComments.label = t.label := by
  cases t
  rfl

@[simp] theorem children_withoutComments :
    t.withoutComments.children = withoutCommentsIn t.children := by
  cases t
  rfl

@[simp] theorem kind_withoutComments : t.withoutComments.kind = t.kind := by
  simp [kind]

@[simp] theorem field_withoutComments : t.withoutComments.field = t.field := by
  simp [field]

@[simp] theorem start_withoutComments : t.withoutComments.start = t.start := by
  simp [start]

@[simp] theorem isNamed_withoutComments : t.withoutComments.isNamed = t.isNamed := by
  simp [isNamed]

@[simp] theorem isComment_withoutComments : t.withoutComments.isComment = t.isComment := by
  simp [isComment]

@[simp] theorem plays_withoutComments (f : Field) : t.withoutComments.plays f = t.plays f := by
  simp [plays]

@[simp] theorem text_withoutComments : t.withoutComments.text source = t.text source := by
  simp [text, start, stop]

end Label

theorem isComment_node {l : Label} {cs : List Tree} :
    (node l cs).isComment = true ↔ l.kind = .comment := by
  simp [isComment, kind, label]

/-- A comment has a name, so it counts where the named children are counted. -/
theorem isNamed_of_isComment {t : Tree} (h : t.isComment = true) : t.isNamed = true := by
  obtain ⟨l, cs⟩ := t
  rw [isNamed, kind, label, isComment_node.mp h]
  rfl

/-! ## Where comments stand -/

/-- Among some children a comment is a token that plays no part, one child is no comment, and no
child starts before the one in front of it. -/
def areLaidOut (cs : List Tree) : Bool :=
  (cs.all fun c => !c.isComment || (c.field.isNone && c.children.isEmpty)) &&
    (cs.isEmpty || cs.any fun c => !c.isComment) &&
    decide (cs.Pairwise fun a b => a.start.byte ≤ b.start.byte)

mutual

/-- The children of every node of a tree are laid out. -/
def isLaidOut : Tree → Bool
  | node _ cs => areLaidOut cs && allLaidOut cs

def allLaidOut : List Tree → Bool
  | [] => true
  | t :: rest => isLaidOut t && allLaidOut rest

end

section LaidOut

variable {cs : List Tree} {t : Tree}

theorem token_of_isComment (h : areLaidOut cs = true) {c : Tree} (hc : c ∈ cs)
    (hcomment : c.isComment = true) : c.field = none ∧ c.children = [] := by
  simp only [areLaidOut, Bool.and_eq_true, List.all_eq_true] at h
  simpa [hcomment] using h.1.1 c hc

/-- A node with children keeps one of them. -/
theorem withoutCommentsIn_ne_nil (h : areLaidOut cs = true) (hcs : cs ≠ []) :
    withoutCommentsIn cs ≠ [] := by
  simp only [areLaidOut, Bool.and_eq_true, Bool.or_eq_true, List.isEmpty_iff, hcs, false_or,
    List.any_eq_true] at h
  obtain ⟨c, hc, hkept⟩ := h.1.2
  rw [withoutCommentsIn_eq_map, ne_eq, List.map_eq_nil_iff, List.filter_eq_nil_iff]
  exact fun hnone => hnone c hc hkept

theorem pairwise_start (h : areLaidOut cs = true) :
    cs.Pairwise fun a b => a.start.byte ≤ b.start.byte := by
  simp only [areLaidOut, Bool.and_eq_true, decide_eq_true_iff] at h
  exact h.2

theorem allLaidOut_iff : allLaidOut cs = true ↔ ∀ c ∈ cs, c.isLaidOut = true := by
  induction cs with
  | nil => simp [allLaidOut]
  | cons c rest ih => simp [allLaidOut, ih]

theorem isLaidOut_node {l : Label} :
    (node l cs).isLaidOut = true ↔ areLaidOut cs = true ∧ ∀ c ∈ cs, c.isLaidOut = true := by
  rw [isLaidOut, Bool.and_eq_true, allLaidOut_iff]

theorem areLaidOut_children (h : t.isLaidOut = true) : areLaidOut t.children = true := by
  obtain ⟨l, cs⟩ := t
  exact (isLaidOut_node.mp h).1

theorem isLaidOut_of_mem_children (h : t.isLaidOut = true) {c : Tree} (hc : c ∈ t.children) :
    c.isLaidOut = true := by
  obtain ⟨l, cs⟩ := t
  exact (isLaidOut_node.mp h).2 c hc

end LaidOut

/-! ## Picking children -/

/-- A sort of nodes to which no comment belongs is found among the same nodes. -/
theorem find?_withoutCommentsIn {q : Tree → Bool} (hq : ∀ t, q t.withoutComments = q t)
    {cs : List Tree} (hcs : ∀ c ∈ cs, c.isComment = true → q c = false) :
    (withoutCommentsIn cs).find? q = (cs.find? q).map withoutComments := by
  induction cs with
  | nil => rfl
  | cons c rest ih =>
    have hrest := ih fun d hd => hcs d (List.mem_cons_of_mem c hd)
    cases hc : c.isComment with
    | true =>
      have hqc := hcs c List.mem_cons_self hc
      simp [withoutCommentsIn, hc, hqc, hrest]
    | false => cases hqc : q c <;> simp [withoutCommentsIn, hc, hq, hqc, hrest]

theorem playing?_withoutCommentsIn {cs : List Tree} (h : areLaidOut cs = true) (f : Field) :
    playing? f (withoutCommentsIn cs) = (playing? f cs).map withoutComments :=
  find?_withoutCommentsIn (fun t => plays_withoutComments t f) fun c hc hcomment => by
    simp [plays, (token_of_isComment h hc hcomment).1]

theorem child?_withoutComments {t : Tree} (h : t.isLaidOut = true) (f : Field) :
    t.withoutComments.child? f = (t.child? f).map withoutComments := by
  rw [child?, children_withoutComments, playing?_withoutCommentsIn (areLaidOut_children h), child?]

theorem declarators_withoutCommentsIn {cs : List Tree} (h : areLaidOut cs = true) :
    declarators (withoutCommentsIn cs) = (declarators cs).map withoutComments := by
  rw [withoutCommentsIn_eq_map, declarators, declarators, List.filter_map, List.filter_filter]
  congr 1
  refine List.filter_congr fun c hc => ?_
  cases hcomment : c.isComment with
  | true => simp [(token_of_isComment h hc hcomment).1]
  | false => simp

/-- Where the starts rise, the nodes that start before a place are the same without comments. -/
theorem takeWhile_withoutCommentsIn {cs : List Tree}
    (h : cs.Pairwise fun a b => a.start.byte ≤ b.start.byte) (n : ℕ) :
    (withoutCommentsIn cs).takeWhile (fun c => c.start.byte < n) =
      withoutCommentsIn (cs.takeWhile fun c => c.start.byte < n) := by
  induction cs with
  | nil => rfl
  | cons c rest ih =>
    obtain ⟨hc, hrest⟩ := List.pairwise_cons.mp h
    by_cases hn : c.start.byte < n
    · cases hcomment : c.isComment <;> simp [withoutCommentsIn, hcomment, hn, ih hrest]
    · -- a comment that starts too late ends the list, and what follows it starts no earlier
      have hlate : (withoutCommentsIn rest).takeWhile (fun c => c.start.byte < n) = [] := by
        rw [ih hrest]
        cases rest with
        | nil => rfl
        | cons d rest =>
          have hd : ¬ d.start.byte < n := by
            have hle := hc d List.mem_cons_self
            omega
          simp [hd, withoutCommentsIn]
      cases hcomment : c.isComment <;> simp [withoutCommentsIn, hcomment, hn, hlate]

theorem specifiers_withoutCommentsIn {cs : List Tree} (h : areLaidOut cs = true) :
    specifiers (withoutCommentsIn cs) = withoutCommentsIn (specifiers cs) := by
  rw [specifiers, specifiers, declarators_withoutCommentsIn h]
  cases declarators cs with
  | nil => rfl
  | cons d rest =>
    simp only [List.map_cons, start_withoutComments]
    exact takeWhile_withoutCommentsIn (pairwise_start h) _

/-! ## Tokens -/

theorem tokensOf_eq_flatMap (parent : Option Kind) (cs : List Tree) :
    tokensOf source parent cs = cs.flatMap (tokens source parent) := by
  induction cs with
  | nil => rfl
  | cons c rest ih => rw [tokensOf, ih, List.flatMap_cons]

theorem tokensOf_append (parent : Option Kind) (cs ds : List Tree) :
    tokensOf source parent (cs ++ ds) = tokensOf source parent cs ++ tokensOf source parent ds := by
  simp only [tokensOf_eq_flatMap, List.flatMap_append]

/-- The tokens of a node with children are those of its children. -/
theorem tokens_node {l : Label} {cs : List Tree} (hl : l.kind ≠ .comment) (hcs : cs ≠ [])
    (parent : Option Kind) :
    (node l cs).tokens source parent = tokensOf source (some l.kind) cs := by
  cases cs with
  | nil => exact absurd rfl hcs
  | cons c rest =>
    simp only [tokens, if_neg hl]
    rfl

theorem tokens_of_isComment {t : Tree} (h : t.isComment = true) (parent : Option Kind) :
    t.tokens source parent = [] := by
  obtain ⟨l, cs⟩ := t
  rw [tokens.eq_def]
  exact if_pos (isComment_node.mp h)

theorem tokensOf_withoutCommentsIn_of {cs : List Tree} (parent : Option Kind)
    (h : ∀ c ∈ cs, c.withoutComments.tokens source parent = c.tokens source parent) :
    tokensOf source parent (withoutCommentsIn cs) = tokensOf source parent cs := by
  rw [tokensOf_eq_flatMap, tokensOf_eq_flatMap]
  induction cs with
  | nil => rfl
  | cons c rest ih =>
    have hrest := ih fun d hd => h d (List.mem_cons_of_mem c hd)
    have hc := h c List.mem_cons_self
    cases hcomment : c.isComment with
    | true => simp [withoutCommentsIn, hcomment, tokens_of_isComment, hrest]
    | false => simp [withoutCommentsIn, hcomment, hc, hrest]

/-- **Comments give no tokens**, and without them every other node gives what it gave. -/
theorem tokens_withoutComments {t : Tree} (h : t.isLaidOut = true) (parent : Option Kind) :
    t.withoutComments.tokens source parent = t.tokens source parent := by
  induction t using induct generalizing parent with
  | node l cs ih =>
    obtain ⟨hout, hcs⟩ := isLaidOut_node.mp h
    by_cases hl : l.kind = .comment
    · have hcomment : (node l cs).isComment = true := isComment_node.mpr hl
      rw [tokens_of_isComment source hcomment, tokens_of_isComment]
      rwa [isComment_withoutComments]
    · by_cases hnil : cs = []
      · subst cs
        rfl
      · have hkept := withoutCommentsIn_ne_nil hout hnil
        rw [withoutComments, tokens_node source hl hkept, tokens_node source hl hnil]
        exact tokensOf_withoutCommentsIn_of source _ fun c hc => ih c hc (hcs c hc) _

theorem tokensOf_withoutCommentsIn {cs : List Tree} (h : ∀ c ∈ cs, c.isLaidOut = true)
    (parent : Option Kind) :
    tokensOf source parent (withoutCommentsIn cs) = tokensOf source parent cs :=
  tokensOf_withoutCommentsIn_of source parent fun c hc => tokens_withoutComments source (h c hc) _

/-! ## Names -/

mutual

/-- A comment stands in the way of the name that a declarator declares: it is the first named
child where that child is asked for the name, and the one behind it would have declared one. -/
def hidesName : Tree → Bool
  | node l cs =>
    match l.kind with
    | .identifier => false
    | .parenthesizedDeclarator | .attributedDeclarator => firstHidesName cs
    | _ => innerHidesName cs

/-- A comment stands in the way of the name that the first named node declares. -/
def firstHidesName : List Tree → Bool
  | [] => false
  | t :: rest =>
    if t.isComment then (firstDeclaredName source (withoutCommentsIn rest)).isSome
    else if t.isNamed then hidesName t
    else firstHidesName rest

/-- A comment stands in the way of the name that the first declarator among the nodes declares. -/
def innerHidesName : List Tree → Bool
  | [] => false
  | t :: rest => if t.field == some .declarator then hidesName t else innerHidesName rest

end

theorem innerDeclaredName_eq_playing? (cs : List Tree) :
    innerDeclaredName source cs = (playing? .declarator cs).bind (declaredName source) := by
  induction cs with
  | nil => rfl
  | cons c rest ih =>
    cases hc : c.field == some .declarator <;> simp [innerDeclaredName, playing?, hc, ih]

theorem innerHidesName_eq_playing? (cs : List Tree) :
    innerHidesName source cs = (playing? .declarator cs).any (hidesName source) := by
  induction cs with
  | nil => rfl
  | cons c rest ih =>
    cases hc : c.field == some .declarator <;> simp [innerHidesName, playing?, hc, ih]

/-- A comment declares nothing. -/
theorem declaredName_of_isComment {t : Tree} (h : t.isComment = true) (hcs : t.children = []) :
    t.declaredName source = none := by
  obtain ⟨l, cs⟩ := t
  have hnil : cs = [] := hcs
  subst cs
  simp [declaredName, isComment_node.mp h, innerDeclaredName]

theorem firstDeclaredName_withoutCommentsIn_iff {cs : List Tree}
    (htoken : ∀ c ∈ cs, c.isComment = true → c.children = [])
    (hcs : ∀ c ∈ cs, c.withoutComments.declaredName source = c.declaredName source ↔
      c.hidesName source = false) :
    firstDeclaredName source (withoutCommentsIn cs) = firstDeclaredName source cs ↔
      firstHidesName source cs = false := by
  induction cs with
  | nil => simp [withoutCommentsIn, firstHidesName]
  | cons c rest ih =>
    have hrest := ih (fun d hd => htoken d (List.mem_cons_of_mem c hd))
      fun d hd => hcs d (List.mem_cons_of_mem c hd)
    cases hcomment : c.isComment with
    | true =>
      have hnone := declaredName_of_isComment source hcomment (htoken c List.mem_cons_self hcomment)
      simp [withoutCommentsIn, firstDeclaredName, firstHidesName, hcomment,
        isNamed_of_isComment hcomment, hnone]
    | false =>
      cases hnamed : c.isNamed with
      | true =>
        simpa [withoutCommentsIn, firstDeclaredName, firstHidesName, hcomment, hnamed]
          using hcs c List.mem_cons_self
      | false =>
        simpa [withoutCommentsIn, firstDeclaredName, firstHidesName, hcomment, hnamed] using hrest

/-- **A declarator declares the same name without its comments** exactly if no comment stands in
the way of the name. -/
theorem declaredName_withoutComments_iff {t : Tree} (h : t.isLaidOut = true) :
    t.withoutComments.declaredName source = t.declaredName source ↔
      t.hidesName source = false := by
  induction t using induct with
  | node l cs ih =>
    obtain ⟨hout, hbelow⟩ := isLaidOut_node.mp h
    have hcs : ∀ c ∈ cs, c.withoutComments.declaredName source = c.declaredName source ↔
        c.hidesName source = false := fun c hc => ih c hc (hbelow c hc)
    have hfirst := firstDeclaredName_withoutCommentsIn_iff source
      (fun c hc hcomment => (token_of_isComment hout hc hcomment).2) hcs
    have hinner : innerDeclaredName source (withoutCommentsIn cs) = innerDeclaredName source cs ↔
        innerHidesName source cs = false := by
      rw [innerDeclaredName_eq_playing?, innerDeclaredName_eq_playing?,
        innerHidesName_eq_playing?, playing?_withoutCommentsIn hout]
      cases hplaying : playing? .declarator cs with
      | none => simp
      | some d => simpa using hcs d (List.mem_of_find?_eq_some hplaying)
    cases hl : l.kind <;> simp only [withoutComments, declaredName, hidesName, hl]
    case node.parenthesizedDeclarator | node.attributedDeclarator => exact hfirst
    all_goals exact hinner

/-! ## Declarations -/

theorem proper?_withoutComments {d : Tree} (h : d.isLaidOut = true) :
    d.withoutComments.proper? = d.proper?.map withoutComments := by
  rw [proper?, proper?, kind_withoutComments, child?_withoutComments h]
  split <;> rfl

/-- A declarator whose declarator proper there is declares it, under its name. -/
theorem declarator?_eq_map_proper? (specifierTokens : List Token) (d : Tree) :
    declarator? source specifierTokens d = d.proper?.map fun target =>
      ⟨target.declaredName source, target.start.row + 1,
        Spacing.render [specifierTokens, target.tokens source (some d.kind)],
        if d.kind = .initDeclarator then (d.child? .value).map (Tree.text source) else none⟩ := by
  rw [declarator?, proper?]
  split <;> rfl

/-- A comment stands in the way of a name that a declaration declares. -/
def hidesDeclared (t : Tree) : Bool :=
  (declarators t.children).any fun d => d.proper?.any (hidesName source)

theorem isLaidOut_of_proper? {d target : Tree} (h : d.isLaidOut = true)
    (ht : d.proper? = some target) : target.isLaidOut = true := by
  rw [proper?] at ht
  split at ht
  · exact isLaidOut_of_mem_children h (List.mem_of_find?_eq_some ht)
  · rwa [← Option.some_inj.mp ht]

/-- A declarator gives the same declaration without its comments exactly if none hides its name. -/
theorem declarator?_withoutComments_iff {d : Tree} (h : d.isLaidOut = true)
    (specifierTokens : List Token) :
    declarator? source specifierTokens d.withoutComments = declarator? source specifierTokens d ↔
      d.proper?.any (hidesName source) = false := by
  rw [declarator?_eq_map_proper?, declarator?_eq_map_proper?, proper?_withoutComments h]
  cases htarget : d.proper? with
  | none => simp
  | some target =>
    have ht := isLaidOut_of_proper? h htarget
    have hvalue : ((d.child? .value).map withoutComments).map (Tree.text source) =
        (d.child? .value).map (Tree.text source) := by
      cases d.child? .value <;> simp
    simp [tokens_withoutComments source ht, child?_withoutComments h, hvalue,
      declaredName_withoutComments_iff source ht]

theorem isSome_declarator?_withoutComments {d : Tree} (h : d.isLaidOut = true)
    (specifierTokens : List Token) :
    (declarator? source specifierTokens d.withoutComments).isSome =
      (declarator? source specifierTokens d).isSome := by
  rw [declarator?_eq_map_proper?, declarator?_eq_map_proper?, proper?_withoutComments h]
  simp

/-- The declarations of a node without its comments, by its declarators. -/
theorem declarations_withoutComments {t : Tree} (h : t.isLaidOut = true) :
    declarations source t.withoutComments = (declarators t.children).filterMap fun d =>
      declarator? source (tokensOf source (some t.kind) (specifiers t.children))
        d.withoutComments := by
  have hout := areLaidOut_children h
  have hspecifiers : ∀ c ∈ specifiers t.children, c.isLaidOut = true := by
    intro c hc
    rw [specifiers] at hc
    split at hc
    · simp at hc
    · exact isLaidOut_of_mem_children h ((List.takeWhile_sublist _).subset hc)
  rw [declarations, children_withoutComments, kind_withoutComments,
    declarators_withoutCommentsIn hout, specifiers_withoutCommentsIn hout,
    tokensOf_withoutCommentsIn source hspecifiers, List.filterMap_map]
  rfl

end Uninit.Tree
