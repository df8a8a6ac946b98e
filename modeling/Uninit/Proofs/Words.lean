import Mathlib.Data.List.Chain
import Uninit.Proofs.Borders
import Uninit.Proofs.Placement
import Uninit.Text.Identifier

/-!
# Words in a text

Two words that are written without anything between them are one word to a reader. The text of a
declaration is made of tokens, and where tokens stand apart in the source or at the border of two
segments, a space can be left out between them. It is left out at signs only, never between two
words. So the text has the words of its tokens and no others, unless two tokens touch in the source
already and a word goes on from one to the other.

## Main definitions

* `Text.words`: the words of a text
* `Spacing.KeepsWords`: no word goes on from a token to another one that touches it
* `Spacing.marked`: the tokens of some segments in one row

## Main statements

* `Spacing.keepsWords_place_iff`: tokens are fused in a text exactly if they are in the source
* `Spacing.words_render_exact`: the words of a text are those of its tokens
-/
namespace Uninit

/-! ## Words -/

namespace Text

section Words

variable (isWord : Char → Bool)

/-- The words of a text: what stands between the characters that belong to no word. -/
def words (cs : List Char) : List (List Char) :=
  (cs.splitOnP fun c => !isWord c).filter fun word => !word.isEmpty

/-- A word goes on from a text to another one behind it. -/
def Fuses (a b : List Char) : Prop :=
  a.getLast?.any isWord = true ∧ b.head?.any isWord = true

instance (a b : List Char) : Decidable (Fuses isWord a b) :=
  inferInstanceAs (Decidable (_ ∧ _))

variable {isWord}

/-- A character that belongs to no word parts the words before it from those behind it. -/
theorem words_append_cons {c : Char} (hc : isWord c = false) (a b : List Char) :
    words isWord (a ++ c :: b) = words isWord a ++ words isWord b := by
  rw [words, List.splitOnP_append_cons _ _ (by simp [hc]), List.filter_append, words, words]

theorem words_nil : words isWord [] = [] := by
  simp [words]

/-- **Two texts have their own words behind each other**, unless a word goes on. -/
theorem words_append {a b : List Char} (h : ¬Fuses isWord a b) :
    words isWord (a ++ b) = words isWord a ++ words isWord b := by
  rcases List.eq_nil_or_concat a with rfl | ⟨a', c, rfl⟩
  · simp [words_nil]
  · cases b with
    | nil => simp [words_nil]
    | cons d b' =>
      by_cases hc : isWord c = true
      · -- the word at the end of the first text must end there
        have hd : isWord d = false := by simpa [Fuses, hc] using h
        have hrest := words_append_cons hd [] b'
        rw [words_nil, List.nil_append, List.nil_append] at hrest
        rw [words_append_cons hd, hrest]
      · have hc : isWord c = false := by simpa using hc
        have hlast := words_append_cons hc a' []
        rw [words_nil, List.append_nil] at hlast
        rw [List.concat_eq_append, List.append_assoc, List.singleton_append,
          words_append_cons hc, hlast]

example : words Char.isAlphanum "int *p2".toList = ["int".toList, "p2".toList] := by
  decide +kernel

/-- Whether a word goes on is up to the end of the first text. -/
theorem fuses_append_left {b : List Char} (hb : b ≠ []) (a c : List Char) :
    Fuses isWord (a ++ b) c ↔ Fuses isWord b c := by
  rw [Fuses, Fuses, List.getLast?_append_of_ne_nil a hb]

end Words

end Text

/-! ## Signs -/

/-- A token as it is collected: it has a text, and only a `*` is that of a pointer. -/
structure Token.IsCollected (t : Token) : Prop where
  text_ne : t.text ≠ ""
  pointer : t.bindsRight = true → t.text = "*"

/-- Every token of a tree is as it is collected. -/
theorem Tree.isCollected_tokens (source : String) (parent : Option Kind) (t : Tree) :
    ∀ tok ∈ t.tokens source parent, tok.IsCollected := by
  induction t using induct generalizing parent with
  | node l cs ih =>
    by_cases hl : l.kind = .comment
    · have hcomment : (node l cs).isComment = true := isComment_node.mpr hl
      simp [tokens_of_isComment source hcomment]
    · by_cases hcs : cs = []
      · subst hcs
        simp only [tokens, if_neg hl, leafToken]
        split
        case isTrue => simp
        case isFalse htext =>
          rw [List.forall_mem_singleton]
          exact ⟨htext, fun h => by simpa using (Bool.and_eq_true_iff.mp h).1⟩
      · rw [tokens_node source hl hcs, tokensOf_eq_flatMap]
        simp only [List.forall_mem_flatMap]
        exact fun c hc => ih c hc _

namespace Spacing

/-- A notion of the characters that make words. A blank is none of them, and neither is a sign that
decides where a space is left out. -/
def MakesWords (isWord : Char → Bool) : Prop :=
  ∀ c ∈ [' ', '*', '(', ')', '[', ']', ',', ';'], isWord c = false

/-- The letters, the digits and the underscore of the ASCII range. -/
def isPlainWord (c : Char) : Bool :=
  c.isAlphanum || c == '_'

theorem makesWords_isPlainWord : MakesWords isPlainWord := by
  simp [MakesWords, isPlainWord]

/-- The letters, the digits and the underscore in the sense of Unicode make words as well. -/
theorem makesWords_continuesIdentifier : MakesWords Text.continuesIdentifier := by
  simp only [MakesWords, List.forall_mem_cons, List.not_mem_nil, IsEmpty.forall_iff, implies_true]
  decide +kernel

section Rows

variable {isWord : Char → Bool}

/-- **Only signs are written without a space where there is a gap.** -/
theorem not_fuses_of_joins (hword : MakesWords isWord) {a b : Token} (ha : a.IsCollected)
    (h : a.Joins b) : ¬Text.Fuses isWord a.text.toList b.text.toList := by
  simp only [MakesWords, List.forall_mem_cons] at hword
  obtain hpointer | hopens | hcloses | hcalls := h
  · simp [Text.Fuses, ha.pointer hpointer, hword]
  · simp only [List.mem_cons, List.not_mem_nil, or_false] at hopens
    rcases hopens with htext | htext <;> simp [Text.Fuses, htext, hword]
  · simp only [List.mem_cons, List.not_mem_nil, or_false] at hcloses
    rcases hcloses with htext | htext | htext | htext | htext <;>
      simp [Text.Fuses, htext, hword]
  · simp [Text.Fuses, hcalls.1, hword]

/-! ## Tokens in one row -/

/-- The tokens of a segment, the first of which is marked. -/
def markedSegment : List Token → List (Bool × Token)
  | [] => []
  | t :: rest => (true, t) :: rest.map fun u => (false, u)

/-- The tokens of some segments in one row, each marked if a segment starts at it. -/
def marked (segments : List (List Token)) : List (Bool × Token) :=
  segments.flatMap markedSegment

theorem marked_cons (segment : List Token) (rest : List (List Token)) :
    marked (segment :: rest) = markedSegment segment ++ marked rest :=
  List.flatMap_cons

theorem map_snd_markedSegment (segment : List Token) :
    (markedSegment segment).map Prod.snd = segment := by
  cases segment <;> simp [markedSegment, Function.comp_def]

theorem map_snd_marked (segments : List (List Token)) :
    (marked segments).map Prod.snd = segments.flatten := by
  induction segments with
  | nil => rfl
  | cons segment rest ih =>
    rw [marked_cons, List.map_append, map_snd_markedSegment, ih, List.flatten_cons]

/-- The text of marked tokens behind the last token so far. -/
def renderMarked (previous : Option Token) : List (Bool × Token) → String
  | [] => ""
  | (border, t) :: rest =>
    (previous.elim "" fun p => gap border p t) ++ t.text ++ renderMarked (some t) rest

/-- Marked tokens where they are written, behind the last token so far and some bytes. -/
def placeMarked (written : ℕ) (previous : Option Token) : List (Bool × Token) → List Token
  | [] => []
  | (border, t) :: rest =>
    let moved := t.movedTo (written + (previous.elim "" fun p => gap border p t).utf8ByteSize)
    moved :: placeMarked moved.stop (some t) rest

theorem lastToken_cons (previous : Option Token) (t : Token) (rest : List Token) :
    lastToken previous (t :: rest) = lastToken (some t) rest := by
  cases rest with
  | nil => rfl
  | cons u more => simp [lastToken, List.getLast?_cons]

theorem renderMarked_append (previous : Token) (ts : List Token) (rest : List (Bool × Token)) :
    renderMarked (some previous) (ts.map (fun u => (false, u)) ++ rest) =
      renderAfter previous ts ++ renderMarked (lastToken (some previous) ts) rest := by
  induction ts generalizing previous with
  | nil => simp [renderAfter, lastToken]
  | cons t ts ih =>
    simp [renderMarked, renderAfter, ih, lastToken_cons, String.append_assoc]

theorem renderFrom_eq_renderMarked (previous : Option Token) (segments : List (List Token)) :
    renderFrom previous segments = renderMarked previous (marked segments) := by
  induction segments generalizing previous with
  | nil => rfl
  | cons segment rest ih =>
    rw [renderFrom, ih, marked_cons]
    cases segment with
    | nil => simp [renderSegment, markedSegment, lastToken]
    | cons t ts =>
      simp [renderSegment, markedSegment, renderMarked, renderMarked_append, lastToken_cons,
        String.append_assoc]

theorem placeMarked_append (written : ℕ) (previous : Token) (ts : List Token)
    (rest : List (Bool × Token)) :
    placeMarked written (some previous) (ts.map (fun u => (false, u)) ++ rest) =
      placeAfter written previous ts ++
        placeMarked (written + (renderAfter previous ts).utf8ByteSize)
          (lastToken (some previous) ts) rest := by
  induction ts generalizing written previous with
  | nil => simp [placeAfter, renderAfter, lastToken]
  | cons t ts ih =>
    simp [placeMarked, placeAfter, renderAfter, ih, lastToken_cons, Token.movedTo, Nat.add_assoc]

theorem flatten_placeFrom (written : ℕ) (previous : Option Token)
    (segments : List (List Token)) :
    (placeFrom written previous segments).flatten =
      placeMarked written previous (marked segments) := by
  induction segments generalizing written previous with
  | nil => rfl
  | cons segment rest ih =>
    rw [placeFrom, List.flatten_cons, ih, marked_cons]
    cases segment with
    | nil => simp [placeSegment, renderSegment, markedSegment, lastToken]
    | cons t ts =>
      simp [placeSegment, renderSegment, markedSegment, placeMarked, placeMarked_append,
        lastToken_cons, Token.movedTo, Nat.add_assoc]

/-! ## Words of neighbours -/

variable (isWord) in
/-- No word goes on from a token to the next one if the two touch. -/
def KeepsWords (ts : List Token) : Prop :=
  ts.IsChain fun a b => a.stop < b.start ∨ ¬Text.Fuses isWord a.text.toList b.text.toList

instance (ts : List Token) : Decidable (KeepsWords isWord ts) :=
  inferInstanceAs (Decidable (ts.IsChain _))

variable (isWord) in
/-- No word goes on from a marked token to the next one if nothing is written between them. -/
def MarkedKeepsWords (row : List (Bool × Token)) : Prop :=
  row.IsChain fun a b =>
    gap b.1 a.2 b.2 = " " ∨ ¬Text.Fuses isWord a.2.text.toList b.2.text.toList

/-- At a border no word goes on, and elsewhere only where it goes on in the source. -/
theorem gap_or_not_fuses_iff (hword : MakesWords isWord) {a : Token} (ha : a.IsCollected)
    (border : Bool) (b : Token) :
    gap border a b = " " ∨ ¬Text.Fuses isWord a.text.toList b.text.toList ↔
      border = true ∨ a.stop < b.start ∨ ¬Text.Fuses isWord a.text.toList b.text.toList := by
  by_cases hjoins : a.Joins b
  · simp [not_fuses_of_joins hword ha hjoins]
  · have hspaced := spaced_iff.mpr hjoins
    cases border <;> simp [gap, hspaced]

theorem markedKeepsWords_segment (hword : MakesWords isWord) (border : Bool) {t : Token}
    {ts : List Token} (hcollected : ∀ u ∈ t :: ts, u.IsCollected) :
    MarkedKeepsWords isWord ((border, t) :: ts.map fun u => (false, u)) ↔
      KeepsWords isWord (t :: ts) := by
  induction ts generalizing border t with
  | nil => simp [MarkedKeepsWords, KeepsWords]
  | cons u ts ih =>
    obtain ⟨ht, hts⟩ := List.forall_mem_cons.mp hcollected
    have hrest := ih false hts
    rw [MarkedKeepsWords, KeepsWords] at hrest ⊢
    rw [List.map_cons, List.isChain_cons_cons, List.isChain_cons_cons, hrest,
      gap_or_not_fuses_iff hword ht]
    simp

theorem head_marked (segments : List (List Token)) :
    ∀ a ∈ (marked segments).head?, a.1 = true := by
  induction segments with
  | nil => simp [marked]
  | cons segment rest ih =>
    cases segment with
    | nil => simpa [marked, markedSegment] using ih
    | cons t ts => simp [marked, markedSegment]

/-- **No word goes on in the row exactly if none goes on in a segment.** -/
theorem markedKeepsWords_iff (hword : MakesWords isWord) {segments : List (List Token)}
    (hcollected : ∀ segment ∈ segments, ∀ t ∈ segment, t.IsCollected) :
    MarkedKeepsWords isWord (marked segments) ↔
      ∀ segment ∈ segments, KeepsWords isWord segment := by
  induction segments with
  | nil => simp [marked, MarkedKeepsWords]
  | cons segment rest ih =>
    obtain ⟨hsegment, hrest⟩ := List.forall_mem_cons.mp hcollected
    have hfirst : MarkedKeepsWords isWord (markedSegment segment) ↔ KeepsWords isWord segment := by
      cases segment with
      | nil => simp [markedSegment, MarkedKeepsWords, KeepsWords]
      | cons t ts => exact markedKeepsWords_segment hword true hsegment
    have hborder : ∀ a ∈ (markedSegment segment).getLast?, ∀ b ∈ (marked rest).head?,
        gap b.1 a.2 b.2 = " " ∨ ¬Text.Fuses isWord a.2.text.toList b.2.text.toList := by
      intro a ha b hb
      have hmem : a.2 ∈ segment := by
        rw [← map_snd_markedSegment segment]
        exact List.mem_map_of_mem (List.mem_of_getLast? ha)
      exact (gap_or_not_fuses_iff hword (hsegment a.2 hmem) b.1 b.2).mpr
        (.inl (head_marked rest b hb))
    rw [List.forall_mem_cons, ← hfirst, ← ih hrest, marked_cons]
    simp only [MarkedKeepsWords, List.isChain_append]
    exact ⟨fun h => ⟨h.1, h.2.1⟩, fun h => ⟨h.1, h.2, hborder⟩⟩

/-- **Tokens touch in the text exactly where nothing is written between them.** -/
theorem keepsWords_placeMarked (written : ℕ) (previous : Option Token)
    (row : List (Bool × Token)) :
    KeepsWords isWord (placeMarked written previous row) ↔ MarkedKeepsWords isWord row := by
  induction row generalizing written previous with
  | nil => simp [placeMarked, KeepsWords, MarkedKeepsWords]
  | cons a rest ih =>
    cases rest with
    | nil => simp [placeMarked, KeepsWords, MarkedKeepsWords]
    | cons b more =>
      let moved := a.2.movedTo (written + (previous.elim "" fun p => gap a.1 p a.2).utf8ByteSize)
      have htail := ih moved.stop (some a.2)
      have hgap : moved.stop < moved.stop + (gap b.1 a.2 b.2).utf8ByteSize ↔
          gap b.1 a.2 b.2 = " " := by
        have hblank : " ".utf8ByteSize = 1 := rfl
        rcases gap_eq_or b.1 a.2 b.2 with h | h <;> simp [h, hblank]
      rw [KeepsWords, MarkedKeepsWords] at htail ⊢
      simp only [placeMarked, List.isChain_cons_cons, Option.elim_some] at htail ⊢
      rw [htail]
      exact and_congr_left fun _ => or_congr_left hgap

/-- **Tokens are fused in a text exactly if they are in the source.** -/
theorem keepsWords_place_iff (hword : MakesWords isWord) {segments : List (List Token)}
    (hcollected : ∀ segment ∈ segments, ∀ t ∈ segment, t.IsCollected) :
    KeepsWords isWord (place segments).flatten ↔
      ∀ segment ∈ segments, KeepsWords isWord segment := by
  rw [place, flatten_placeFrom, keepsWords_placeMarked, markedKeepsWords_iff hword hcollected]

/-- What is written behind a token has its own words, if no word goes on. -/
theorem words_gap (hword : MakesWords isWord) {border : Bool} {a b : Token} (ha : a.text ≠ "")
    (h : gap border a b = " " ∨ ¬Text.Fuses isWord a.text.toList b.text.toList)
    (before : List Char) :
    Text.words isWord
        (before ++ a.text.toList ++ (gap border a b).toList ++ b.text.toList) =
      Text.words isWord (before ++ a.text.toList) ++ Text.words isWord b.text.toList := by
  rcases gap_eq_or border a b with hgap | hgap
  · have hfuses : ¬Text.Fuses isWord (before ++ a.text.toList) b.text.toList := by
      rw [Text.fuses_append_left (by simpa using ha)]
      exact h.resolve_left (by simp [hgap])
    rw [hgap]
    simpa using Text.words_append hfuses
  · have hblank : isWord ' ' = false := hword ' ' (by simp)
    rw [hgap]
    simpa using Text.words_append_cons hblank (before ++ a.text.toList) b.text.toList

theorem words_renderMarked (hword : MakesWords isWord) {border : Bool} {t : Token}
    {rest : List (Bool × Token)} (hcollected : ∀ a ∈ (border, t) :: rest, a.2.IsCollected)
    (h : MarkedKeepsWords isWord ((border, t) :: rest)) (before : List Char) :
    Text.words isWord (before ++ t.text.toList ++ (renderMarked (some t) rest).toList) =
      Text.words isWord (before ++ t.text.toList) ++
        rest.flatMap fun a => Text.words isWord a.2.text.toList := by
  induction rest generalizing border t before with
  | nil => simp [renderMarked]
  | cons a rest ih =>
    obtain ⟨ht, hrest⟩ := List.forall_mem_cons.mp hcollected
    rw [MarkedKeepsWords, List.isChain_cons_cons] at h
    have hgap := words_gap hword ht.text_ne h.1 before
    have htail := ih hrest h.2 (before ++ t.text.toList ++ (gap a.1 t a.2).toList)
    rw [List.flatMap_cons, ← List.append_assoc, ← hgap, ← htail]
    simp [renderMarked, List.append_assoc]

/-- **Writing fuses no words.** Laid out where they are written, the tokens fill the text. Where no
word goes on from a token to another one that touches it in its segment, none goes on between two
that touch in the text, whether they come from one segment or from two. So the words of the text are
those of the tokens, in their order. -/
theorem words_render_exact (hword : MakesWords isWord) {segments : List (List Token)}
    (hcollected : ∀ segment ∈ segments, ∀ t ∈ segment, t.IsCollected)
    (hsource : ∀ segment ∈ segments, KeepsWords isWord segment) :
    Covers (render segments) 0 (render segments).utf8ByteSize (place segments).flatten ∧
      KeepsWords isWord (place segments).flatten ∧
      Text.words isWord (render segments).toList =
        segments.flatten.flatMap fun t => Text.words isWord t.text.toList := by
  refine ⟨covers_place segments, (keepsWords_place_iff hword hcollected).mpr hsource, ?_⟩
  have hrow := (markedKeepsWords_iff hword hcollected).mpr hsource
  have htokens := map_snd_marked segments
  have hall : ∀ a ∈ marked segments, a.2.IsCollected := by
    intro a ha
    have hmem : a.2 ∈ segments.flatten := htokens ▸ List.mem_map_of_mem ha
    obtain ⟨segment, hsegment, ht⟩ := List.mem_flatten.mp hmem
    exact hcollected segment hsegment a.2 ht
  rw [render, renderFrom_eq_renderMarked, ← htokens, List.flatMap_map]
  cases hcases : marked segments with
  | nil => simp [renderMarked, Text.words_nil]
  | cons a rest =>
    rw [hcases] at hrow hall
    have hwords := words_renderMarked hword hall hrow []
    simpa [renderMarked] using hwords

end Rows

end Spacing

namespace Tree

/-- A text where a comment stands between two words, and a sign between two others. -/
def sizedText : String :=
  "unsigned/**/long*é(int);"

/-- The specifier of `sizedText`. -/
def sizedSpecifier : Tree :=
  oneLine (.other "sized_type_specifier") none 0 16 [
    oneLine (.token "unsigned") none 0 8 [],
    oneLine .comment none 8 12 [],
    oneLine (.token "long") none 12 16 []]

/-- The declarator of `sizedText`. -/
def sizedDeclarator : Tree :=
  oneLine .pointerDeclarator (some .declarator) 16 24 [
    oneLine (.token "*") none 16 17 [],
    oneLine (.other "function_declarator") (some .declarator) 17 24 [
      oneLine .identifier (some .declarator) 17 19 [],
      oneLine (.other "parameter_list") none 19 24 [
        oneLine (.token "(") none 19 20 [],
        oneLine (.other "parameter_declaration") none 20 23 [
          oneLine (.other "primitive_type") none 20 23 []],
        oneLine (.token ")") none 23 24 []]]]

/-- The tokens of `sizedText`, with an empty segment between specifier and declarator. -/
def sizedSegments : List (List Token) :=
  [sizedSpecifier.tokens sizedText (some .declaration), [],
    sizedDeclarator.tokens sizedText (some .declaration)]

open Spacing in
/-- The words of `unsigned long *é(int)`. Whether `é` makes one is up to the notion of a word. -/
theorem words_render_exact_sizedSegments :
    MakesWords isPlainWord ∧ MakesWords Text.continuesIdentifier ∧
      (∀ segment ∈ sizedSegments, ∀ t ∈ segment, t.IsCollected) ∧
      (∀ segment ∈ sizedSegments, KeepsWords isPlainWord segment) ∧
      (∀ segment ∈ sizedSegments, KeepsWords Text.continuesIdentifier segment) ∧
      (Text.words isPlainWord (render sizedSegments).toList).map String.ofList =
        ["unsigned", "long", "int"] ∧
      (Text.words Text.continuesIdentifier (render sizedSegments).toList).map String.ofList =
        ["unsigned", "long", "é", "int"] := by
  have hcollected : ∀ segment ∈ sizedSegments, ∀ t ∈ segment, t.IsCollected := by
    simp only [sizedSegments, List.forall_mem_cons, List.not_mem_nil, IsEmpty.forall_iff,
      implies_true, and_true, true_and]
    exact ⟨isCollected_tokens _ _ _, isCollected_tokens _ _ _⟩
  have hplain : ∀ segment ∈ sizedSegments, KeepsWords isPlainWord segment := by decide +kernel
  have hwide : ∀ segment ∈ sizedSegments, KeepsWords Text.continuesIdentifier segment := by
    decide +kernel
  refine ⟨makesWords_isPlainWord, makesWords_continuesIdentifier, hcollected, hplain, hwide, ?_, ?_⟩
  · rw [(words_render_exact makesWords_isPlainWord hcollected hplain).2.2]
    decide +kernel
  · rw [(words_render_exact makesWords_continuesIdentifier hcollected hwide).2.2]
    decide +kernel

end Tree

end Uninit
