import Uninit.Proofs.Analysis

/-!
# Texts without markers

A preprocessor that has nothing to do prints the text it was given, perhaps with other line ends.
Such an output is prepared as the text itself: the scan counts its lines from one in the primary
file, which is what the identity says of a file that is read directly. So an analysis cannot tell
whether there was a preprocessor.

## Main definitions

* `Text.AddsReturns`: a text with carriage returns before some of its line feeds

## Main statements

* `lines_of_addsReturns`: such a text has the same lines
* `ofPreprocessed_unmarked_agrees`: an output without markers is prepared as the text
-/
namespace Uninit

namespace Text

/-- The second text is the first with a carriage return before some of its line feeds. -/
inductive AddsReturns : List Char → List Char → Prop
  | nil : AddsReturns [] []
  | same (c : Char) {s t : List Char} (h : AddsReturns s t) : AddsReturns (c :: s) (c :: t)
  | added {s t : List Char} (h : AddsReturns s t) :
      AddsReturns ('\n' :: s) ('\r' :: '\n' :: t)

theorem AddsReturns.refl (s : List Char) : AddsReturns s s := by
  induction s with
  | nil => exact .nil
  | cons c s ih => exact .same c ih

/-- A line can only get a carriage return at its end. -/
theorem AddsReturns.exists_line {line rest t : List Char} (h : '\n' ∉ line)
    (ht : AddsReturns (line ++ '\n' :: rest) t) :
    ∃ ending more, (ending = [] ∨ ending = ['\r']) ∧ t = line ++ ending ++ '\n' :: more ∧
      AddsReturns rest more := by
  induction line generalizing t with
  | nil =>
    cases ht with
    | same _ hrest => exact ⟨[], _, .inl rfl, rfl, hrest⟩
    | added hrest => exact ⟨['\r'], _, .inr rfl, rfl, hrest⟩
  | cons c line ih =>
    rw [List.mem_cons, not_or] at h
    cases ht with
    | same _ hline =>
      obtain ⟨ending, more, hending, rfl, hmore⟩ := ih h.2 hline
      exact ⟨ending, more, hending, rfl, hmore⟩
    | added _ => exact absurd rfl h.1

theorem lines_of_addsReturns_unlines {ls : List (List Char)} (hfeed : ∀ line ∈ ls, '\n' ∉ line)
    (hreturn : ∀ line ∈ ls, '\r' ∉ line) {t : List Char} (h : AddsReturns (unlines ls) t) :
    lines t = ls := by
  induction ls generalizing t with
  | nil =>
    cases h
    rfl
  | cons line rest ih =>
    rw [List.forall_mem_cons] at hfeed hreturn
    obtain ⟨ending, more, hending, rfl, hmore⟩ := h.exists_line hfeed.1
    have hdrop : dropReturn (line ++ ending) = line := by
      rcases hending with rfl | rfl
      · rw [List.append_nil]
        exact dropReturn_of_getLast?_ne fun hlast => hreturn.1 (List.mem_of_getLast? hlast)
      · rw [dropReturn_append (by simp), dropReturn, List.append_nil]
    have hnone : '\n' ∉ line ++ ending := by
      rcases hending with rfl | rfl <;> simp [hfeed.1]
    rw [lines_line hnone, hdrop, ih hfeed.2 hreturn.2 hmore]

/-- **The lines of a text do not change** if carriage returns are put before its line feeds, and
the text is made of these lines. -/
theorem lines_of_addsReturns {s t : List Char} (hend : s = [] ∨ s.getLast? = some '\n')
    (hreturn : '\r' ∉ s) (h : AddsReturns s t) : lines t = lines s ∧ unlines (lines s) = s := by
  obtain ⟨ls, rfl, hfeed⟩ := exists_unlines hend
  have hreturns : ∀ line ∈ ls, '\r' ∉ line := fun line hl hmem =>
    hreturn (subset_unlines hl hmem)
  have hlines : lines (unlines ls) = ls :=
    lines_of_addsReturns_unlines hfeed hreturns (.refl _)
  rw [hlines]
  exact ⟨lines_of_addsReturns_unlines hfeed hreturns h, rfl⟩

/-- Each character takes a byte at least. -/
theorem length_le_utf8ByteSize (cs : List Char) :
    cs.length ≤ (String.ofList cs).utf8ByteSize := by
  induction cs with
  | nil => simp
  | cons c cs ih =>
    have hc := c.utf8Size_pos
    rw [String.ofList_cons, String.utf8ByteSize_append, String.utf8ByteSize_singleton,
      List.length_cons]
    omega

end Text

open Marker

/-! ## Counting from one -/

namespace Marker

variable {lines : List (List Char)} (h : ∀ line ∈ lines, isMarker line = false)
include h

/-- Without markers the lines are counted from one. -/
theorem numberBehind_take_of_unmarked {n : ℕ} (hn : n ≤ lines.length) :
    numberBehind (lines.take n) = n + 1 := by
  have htake : ∀ line ∈ lines.take n, isMarker line = false := fun line hl =>
    h line (List.mem_of_mem_take hl)
  have hcount := numberBehind_append_text htake []
  rw [List.nil_append, List.length_take_of_le hn] at hcount
  rw [hcount, Nat.add_comm]
  rfl

theorem countable_of_unmarked (hlength : lines.length + 1 < lineBound) : Countable lines := by
  intro n hn
  rw [numberBehind_take_of_unmarked h hn]
  omega

/-- Without markers every line stands in the primary file, where it is. -/
theorem ofLine?_of_unmarked (primary : String) {i : ℕ} (hpos : 1 ≤ i) (hi : i ≤ lines.length) :
    Origin.ofLine? primary lines i = some ⟨primary, i⟩ := by
  obtain ⟨k, rfl⟩ : ∃ k, i = k + 1 := ⟨i - 1, by omega⟩
  have hline : lines[k]? = some lines[k] := List.getElem?_eq_getElem hi
  have hnone : parse? lines[k] = none := by simpa [isMarker] using h _ (List.getElem_mem hi)
  have htake : ∀ line ∈ lines.take k, isMarker line = false := fun line hl =>
    h line (List.mem_of_mem_take hl)
  have hfile := fileBehind_append_text htake primary []
  rw [List.nil_append] at hfile
  rw [Origin.ofLine?_of_text hline hnone, hfile, numberBehind_take_of_unmarked h (Nat.le_of_lt hi)]
  rfl

end Marker

namespace Prepared

section Unmarked

variable {output : String} {lines : List (List Char)} (hlines : Text.lines output.toList = lines)
  (h : ∀ line ∈ lines, isMarker line = false)
include hlines h

theorem text_prepared_of_unmarked (primary : String) :
    (prepared primary output).text = String.ofList (Text.unlines lines) := by
  have hkept : lines.map blanked = lines :=
    (List.map_congr_left fun line hl => blanked_of_not_isMarker (h line hl)).trans lines.map_id
  rw [prepared, keptLines, hlines, hkept]

/-- An output without markers has the origins that its lines have in the primary file. -/
theorem resolve_prepared_of_unmarked (primary : String) {i : ℕ} (hpos : 1 ≤ i)
    (hi : i ≤ lines.length) : (prepared primary output).resolve i = some ⟨primary, i⟩ := by
  rw [resolve_prepared, hlines, ofLine?_of_unmarked h primary hpos hi]

/-- An output without markers is prepared if its lines can be counted. -/
theorem ofPreprocessed_of_unmarked (hlength : lines.length + 1 < lineBound) (primary : String) :
    ofPreprocessed primary output = .ok (prepared primary output) := by
  refine ofPreprocessed_of_countable ?_ primary
  rw [hlines]
  exact countable_of_unmarked h hlength

end Unmarked

/-- Two prepared sources with the same text have the same findings if they agree on the lines of
its declarations. -/
theorem findings_congr {p q : Prepared} (htext : p.text = q.text) {parse : Reader}
    (h : ∀ u, parse p.text = .ok u → ∀ d ∈ Decl.ofUnit u,
      p.resolvePrimary d.line = q.resolvePrimary d.line) (path : String) :
    Analysis.findings parse path (.ok p) = Analysis.findings parse path (.ok q) := by
  simp only [Analysis.findings, ← htext]
  cases hu : parse p.text with
  | error fault => rfl
  | ok u =>
    refine congrArg Except.ok (List.filterMap_congr fun f hf => ?_)
    obtain ⟨d, hd, -, rfl⟩ := Finding.mem_ofUnit hf
    exact congrArg _ (h u hu d hd)

/-- The lines of a text in memory can be counted: it has less than half as many bytes as there are
line numbers. -/
theorem length_add_one_lt_of_utf8ByteSize {text : String} {lines : List (List Char)}
    (hlines : text.toList = Text.unlines lines) (hsize : 2 * text.utf8ByteSize < lineBound) :
    lines.length + 1 < lineBound := by
  have hchars := Text.length_le_length_unlines lines
  have hbytes := Text.length_le_utf8ByteSize text.toList
  rw [← hlines] at hchars
  rw [String.ofList_toList] at hbytes
  simp only [lineBound] at hsize ⊢
  omega

/-- **Preparing an output without markers changes nothing.** If a preprocessor prints a text back,
perhaps with carriage returns at the ends of some lines, the text and the origins of its lines are
those of the file, and so are the findings of every reader that declares nothing beyond the end. -/
theorem ofPreprocessed_unmarked_agrees (primary text output : String)
    (hend : text = "" ∨ text.toList.getLast? = some '\n') (hreturn : '\r' ∉ text.toList)
    (hmarker : ∀ line ∈ Text.lines text.toList, isMarker line = false)
    (hsize : 2 * text.utf8ByteSize < lineBound)
    (hout : Text.AddsReturns text.toList output.toList) :
    ∃ p, ofPreprocessed primary output = .ok p ∧ p.text = text ∧
      (∀ i, 1 ≤ i → i ≤ (Text.lines text.toList).length →
        p.resolve i = (raw primary text).resolve i ∧
        p.resolvePrimary i = (raw primary text).resolvePrimary i) ∧
      ∀ (parse : Reader) (path : String),
        (∀ u, parse text = .ok u → ∀ d ∈ Decl.ofUnit u,
          1 ≤ d.line ∧ d.line ≤ (Text.lines text.toList).length) →
        Analysis.findings parse path (ofPreprocessed primary output) =
          Analysis.findings parse path (.ok (raw primary text)) := by
  have hnil : text.toList = [] ∨ text.toList.getLast? = some '\n' :=
    hend.imp_left fun h => by rw [h]; rfl
  obtain ⟨hlines, hwritten⟩ := Text.lines_of_addsReturns hnil hreturn hout
  have hlength := length_add_one_lt_of_utf8ByteSize hwritten.symm hsize
  have hok := ofPreprocessed_of_unmarked hlines hmarker hlength primary
  have htext : (prepared primary output).text = text := by
    rw [text_prepared_of_unmarked hlines hmarker, hwritten, String.ofList_toList]
  have hresolve : ∀ i, 1 ≤ i → i ≤ (Text.lines text.toList).length →
      (prepared primary output).resolve i = (raw primary text).resolve i := by
    intro i hpos hi
    rw [resolve_prepared_of_unmarked hlines hmarker primary hpos hi]
    rfl
  have hprimary : ∀ i, 1 ≤ i → i ≤ (Text.lines text.toList).length →
      (prepared primary output).resolvePrimary i = (raw primary text).resolvePrimary i := by
    intro i hpos hi
    rw [resolvePrimary, hresolve i hpos hi]
    rfl
  refine ⟨_, hok, htext, fun i hpos hi => ⟨hresolve i hpos hi, hprimary i hpos hi⟩, ?_⟩
  intro parse path hdecls
  rw [hok]
  refine findings_congr htext (fun u hu d hd => ?_) path
  obtain ⟨hpos, hi⟩ := hdecls u (htext ▸ hu) d hd
  exact hprimary d.line hpos hi

/-- A file with an empty line and a directive that is no marker. -/
def echoText : String :=
  "#if A\nint a;\n\nint b;\n"

/-- The file as it is printed back, with other line ends at the first and the third line. -/
def echoOutput : String :=
  "#if A\r\nint a;\n\r\nint b;\n"

def echoUnit : TranslationUnit :=
  ⟨[.decl ⟨some "a", 2, "int a", none⟩, .decl ⟨some "b", 4, "int b", none⟩]⟩

theorem ofPreprocessed_unmarked_agrees_echo :
    Text.AddsReturns echoText.toList echoOutput.toList ∧
      (∃ p, ofPreprocessed "a.c" echoOutput = .ok p ∧ p.text = echoText ∧
        p.resolvePrimary 4 = some 4) ∧
      Analysis.findings (fun _ => .ok echoUnit) "a.c" (ofPreprocessed "a.c" echoOutput) =
        .ok [⟨2, some "a", "int a"⟩, ⟨4, some "b", "int b"⟩] := by
  have hout : Text.AddsReturns echoText.toList echoOutput.toList := by
    simp only [echoText, echoOutput, String.reduceToList]
    repeat first | exact .nil | apply Text.AddsReturns.added | apply Text.AddsReturns.same
  have hmarker : ∀ line ∈ Text.lines echoText.toList, isMarker line = false := by
    decide +kernel
  obtain ⟨p, hp, htext, hlines, hfindings⟩ := ofPreprocessed_unmarked_agrees "a.c" echoText echoOutput
    (.inr (by decide +kernel)) (by decide +kernel) hmarker (by decide +kernel) hout
  have hlength : (Text.lines echoText.toList).length = 4 := by decide +kernel
  have hunit : ∀ d ∈ Decl.ofUnit echoUnit,
      1 ≤ d.line ∧ d.line ≤ (Text.lines echoText.toList).length := by
    rw [hlength]
    decide
  refine ⟨hout, ⟨p, hp, htext, ?_⟩, ?_⟩
  · rw [(hlines 4 (by decide) (Nat.le_of_eq hlength.symm)).2]
    decide +kernel
  · rw [hfindings (fun _ => .ok echoUnit) "a.c" (by rintro u ⟨⟩; exact hunit)]
    decide +kernel

end Prepared

end Uninit
