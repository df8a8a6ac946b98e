import Uninit.Proofs.MarkerGrammar
import Uninit.Proofs.Unmarked

/-!
# Blanking is complete

Preparing an output blanks its markers, and none is left. What is kept of a line is the line
without its line end, and it gets a new line end. So a line that was no marker could become one if
the test looked at a carriage return at the end. It does not: what follows the number and the name
of a marker is not looked at, and white space alone makes no marker of a line. A prepared text that
is prepared again is therefore a text without markers, whose lines are counted from one.

## Main statements

* `isMarker_append_blank`: white space at the end of a line does not count
* `text_prepared_prepared`: the text that is left after preparing twice
* `ofPreprocessed_blanking_exact`: no markers are left, and preparing again counts from one
-/
namespace Uninit

namespace Text

/-- What `dropReturn` leaves out of a line. -/
theorem exists_dropReturn_append (line : List Char) :
    ∃ ending, (ending = [] ∨ ending = ['\r']) ∧ line = dropReturn line ++ ending := by
  by_cases h : line.getLast? = some '\r'
  · obtain ⟨start, rfl⟩ := List.getLast?_eq_some_iff.mp h
    refine ⟨['\r'], .inr rfl, ?_⟩
    rw [dropReturn_append (by simp), dropReturn, List.append_nil]
  · exact ⟨[], .inl rfl, by rw [dropReturn_of_getLast?_ne h, List.append_nil]⟩

theorem dropReturn_eq_self_iff {line : List Char} :
    dropReturn line = line ↔ line.getLast? ≠ some '\r' := by
  refine ⟨fun h hlast => ?_, dropReturn_of_getLast?_ne⟩
  obtain ⟨start, rfl⟩ := List.getLast?_eq_some_iff.mp hlast
  rw [dropReturn_append (by simp), dropReturn, List.append_nil] at h
  simp at h

/-- Different lines are written as different texts. -/
theorem unlines_inj {as bs : List (List Char)} (ha : ∀ line ∈ as, '\n' ∉ line)
    (hb : ∀ line ∈ bs, '\n' ∉ line) : unlines as = unlines bs ↔ as = bs := by
  refine ⟨fun h => ?_, congrArg unlines⟩
  have hpieces := congrArg splitFeeds h
  rwa [splitFeeds_unlines ha, splitFeeds_unlines hb, List.append_left_inj] at hpieces

end Text

namespace Marker

/-! ## White space at the end of a line -/

theorem endsNumber_append {rest blank : List Char} (hrest : EndsNumber rest)
    (hblank : AreBlank blank) : EndsNumber (rest ++ blank) := by
  cases rest with
  | nil => exact fun c hc => hblank c (List.mem_of_mem_head? hc)
  | cons d rest => exact hrest

theorem endsNumber_of_append {rest blank : List Char} (h : EndsNumber (rest ++ blank)) :
    EndsNumber rest := by
  cases rest with
  | nil => simp [EndsNumber]
  | cons d rest => exact h

/-- An opening ends with a digit. -/
theorem Opening.isDigit_of_getLast? (o : Opening) {c : Char} (h : o.text.getLast? = some c) :
    c.isDigit = true := by
  have htext : o.text = (o.indent ++ '#' :: (o.space ++ o.keyword)) ++ o.digits := by simp [text]
  rw [htext, List.getLast?_append_of_ne_nil _ o.digits_ne_nil] at h
  exact o.isDigit_digits c (List.mem_of_getLast? h)

/-- White space at the end of a line that begins with an opening stands behind the opening. -/
theorem Opening.exists_append {o : Opening} {line blank rest : List Char}
    (hblank : AreBlank blank) (h : line ++ blank = o.text ++ rest) :
    ∃ kept, line = o.text ++ kept ∧ rest = kept ++ blank := by
  rcases List.append_eq_append_iff.mp h with ⟨more, htext, hmore⟩ | ⟨kept, hline, hrest⟩
  · -- what an opening ends with is no white space, so none of it is in the white space
    have hnil : more = [] := by
      by_contra hne
      obtain ⟨c, hc⟩ : ∃ c, more.getLast? = some c := ⟨_, List.getLast?_eq_some_getLast hne⟩
      have hdigit : c.isDigit = true := by
        refine o.isDigit_of_getLast? ?_
        rw [htext, List.getLast?_append_of_ne_nil _ hne, hc]
      have hmem : c ∈ blank := by
        rw [hmore]
        exact List.mem_append_left _ (List.mem_of_getLast? hc)
      have hspace := hblank c hmem
      rw [isBlank_of_isDigit hdigit] at hspace
      cases hspace
    subst hnil
    exact ⟨[], by simpa using htext.symm, by simpa using hmore.symm⟩
  · exact ⟨kept, hline, hrest⟩

/-- A line is a marker exactly if it begins with an opening whose number is below the bound. -/
theorem isMarker_iff {line : List Char} :
    isMarker line = true ↔
      ∃ (o : Opening) (rest : List Char), line = o.text ++ rest ∧ EndsNumber rest ∧
        o.number < lineBound := by
  constructor
  · intro h
    obtain ⟨m, hm⟩ := Option.isSome_iff_exists.mp h
    obtain ⟨o, rest, rfl, hrest⟩ := exists_opening hm
    rw [o.parse?_append_rest hrest] at hm
    split_ifs at hm with hnumber
    exact ⟨o, rest, rfl, hrest, hnumber⟩
  · rintro ⟨o, rest, rfl, hrest, hnumber⟩
    rw [isMarker, o.parse?_append_rest hrest, if_pos hnumber, Option.isSome_some]

/-- **White space at the end of a line does not count** for whether it is a marker. -/
theorem isMarker_append_blank (line : List Char) {blank : List Char} (hblank : AreBlank blank) :
    isMarker (line ++ blank) = isMarker line := by
  rw [Bool.eq_iff_iff, isMarker_iff, isMarker_iff]
  constructor
  · rintro ⟨o, rest, h, hrest, hnumber⟩
    obtain ⟨kept, rfl, rfl⟩ := Opening.exists_append hblank h
    exact ⟨o, kept, rfl, endsNumber_of_append hrest, hnumber⟩
  · rintro ⟨o, rest, rfl, hrest, hnumber⟩
    exact ⟨o, rest ++ blank, List.append_assoc .., endsNumber_append hrest hblank, hnumber⟩

theorem isMarker_dropReturn (line : List Char) :
    isMarker (Text.dropReturn line) = isMarker line := by
  obtain ⟨ending, hending, hline⟩ := Text.exists_dropReturn_append line
  have hblank : AreBlank ending := by rcases hending with rfl | rfl <;> decide
  rw [← isMarker_append_blank _ hblank, ← hline]

theorem isMarker_blanked (line : List Char) : isMarker (blanked line) = false := by
  rw [blanked]
  split
  · rfl
  · next h => simpa using h

end Marker

open Marker

namespace Prepared

/-! ## Preparing once -/

theorem isMarker_of_mem_keptLines {output : String} :
    ∀ line ∈ keptLines output, isMarker line = false :=
  List.forall_mem_map.mpr fun line _ => isMarker_blanked line

/-- A line of a prepared text, as it stands between line feeds, is a kept one or empty. -/
theorem mem_splitFeeds_text {primary output : String} {line : List Char} :
    line ∈ Text.splitFeeds (prepared primary output).text.toList ↔
      line ∈ keptLines output ∨ line = [] := by
  rw [splitFeeds_text_prepared, List.mem_append, List.mem_singleton]
  rfl

/-- A prepared text is read as its lines, but for a carriage return at the end of each. -/
theorem lines_text (primary output : String) :
    Text.lines (prepared primary output).text.toList = (keptLines output).map Text.dropReturn := by
  rw [prepared, String.toList_ofList, Text.lines_unlines notMem_of_mem_keptLines]

/-- No line that is read of a prepared text is a marker. -/
theorem isMarker_of_mem_lines_text (primary output : String) :
    ∀ line ∈ Text.lines (prepared primary output).text.toList, isMarker line = false := by
  rw [lines_text]
  refine List.forall_mem_map.mpr fun line hline => ?_
  rw [isMarker_dropReturn, isMarker_of_mem_keptLines line hline]

/-! ## Preparing twice -/

/-- **Preparing a prepared text again** drops one more carriage return at the end of each line, and
nothing else. -/
theorem text_prepared_prepared (primary again output : String) :
    (prepared again (prepared primary output).text).text =
      String.ofList (Text.unlines ((keptLines output).map Text.dropReturn)) := by
  rw [text_prepared_of_unmarked rfl (isMarker_of_mem_lines_text primary output), lines_text]

/-- A prepared text in memory can be prepared again. -/
theorem ofPreprocessed_text_prepared {primary output : String}
    (hsize : 2 * (prepared primary output).text.utf8ByteSize < lineBound) (again : String) :
    ofPreprocessed again (prepared primary output).text =
      .ok (prepared again (prepared primary output).text) := by
  refine ofPreprocessed_of_unmarked rfl (isMarker_of_mem_lines_text primary output) ?_ again
  have hkept : (prepared primary output).text.toList = Text.unlines (keptLines output) :=
    String.toList_ofList
  rw [lines_text, List.length_map]
  exact length_add_one_lt_of_utf8ByteSize hkept hsize

/-- **Blanking is complete.** No line of a prepared text is a marker, even without one more carriage
return at its end. If the text is prepared again, which a text in memory can be, each of its lines
comes from where it is, and the text stays as it is exactly if no line ends in a carriage return. -/
theorem ofPreprocessed_blanking_exact {primary output : String} {p : Prepared}
    (hp : ofPreprocessed primary output = .ok p) :
    (∀ line ∈ Text.splitFeeds p.text.toList,
        isMarker line = false ∧ isMarker (Text.dropReturn line) = false) ∧
      ∀ again,
        (2 * p.text.utf8ByteSize < lineBound → ∃ q, ofPreprocessed again p.text = .ok q) ∧
        ∀ q, ofPreprocessed again p.text = .ok q →
          (∀ i, 1 ≤ i → i ≤ (Text.lines p.text.toList).length →
            q.resolve i = some ⟨again, i⟩) ∧
          (q.text = p.text ↔
            ∀ line ∈ Text.splitFeeds p.text.toList, line.getLast? ≠ some '\r') := by
  obtain ⟨-, rfl⟩ := ofPreprocessed_eq_ok_iff.mp hp
  refine ⟨fun line hline => ?_,
    fun again => ⟨fun hsize => ⟨_, ofPreprocessed_text_prepared hsize again⟩, fun q hq => ?_⟩⟩
  · have hmarker : isMarker line = false := by
      rcases mem_splitFeeds_text.mp hline with hkept | rfl
      · exact isMarker_of_mem_keptLines line hkept
      · rfl
    exact ⟨hmarker, by rw [isMarker_dropReturn, hmarker]⟩
  · obtain ⟨-, rfl⟩ := ofPreprocessed_eq_ok_iff.mp hq
    refine ⟨fun i hpos hi => ?_, ?_⟩
    · exact resolve_prepared_of_unmarked rfl (isMarker_of_mem_lines_text primary output) again
        hpos hi
    · have hdropped : ∀ line ∈ (keptLines output).map Text.dropReturn, '\n' ∉ line :=
        List.forall_mem_map.mpr fun line hline hmem =>
          notMem_of_mem_keptLines line hline (Text.dropReturn_subset line hmem)
      have hsame : (keptLines output).map Text.dropReturn = keptLines output ↔
          ∀ line ∈ keptLines output, line.getLast? ≠ some '\r' := by
        simp only [← Text.dropReturn_eq_self_iff]
        nth_rewrite 2 [← List.map_id (keptLines output)]
        exact List.map_inj_left
      simp only [mem_splitFeeds_text, or_imp, forall_and, forall_eq, ← hsame]
      rw [text_prepared_prepared, prepared, String.ofList_inj,
        Text.unlines_inj hdropped notMem_of_mem_keptLines]
      simp

/-- A marker with a carriage return behind it, a line with two, and a line that is a marker but for
a letter behind its number. -/
def returnsOutput : String :=
  "# 5 \"inc.h\"\r\r\nint a;\r\r\n#7x\r\n"

theorem ofPreprocessed_blanking_exact_returns :
    ∃ p q, ofPreprocessed "a.c" returnsOutput = .ok p ∧ ofPreprocessed "a.c" p.text = .ok q ∧
      p.text = "\nint a;\r\n#7x\n" ∧ isMarker "#7x".toList = false ∧
      p.resolve 2 = some ⟨"inc.h", 5⟩ ∧ q.resolve 2 = some ⟨"a.c", 2⟩ ∧ q.text ≠ p.text := by
  have hp : ofPreprocessed "a.c" returnsOutput = .ok (prepared "a.c" returnsOutput) :=
    ofPreprocessed_of_countable (by decide +kernel) "a.c"
  have htext : (prepared "a.c" returnsOutput).text = "\nint a;\r\n#7x\n" := by
    decide +kernel
  have hpieces : Text.splitFeeds (prepared "a.c" returnsOutput).text.toList =
      [[], "int a;\r".toList, "#7x".toList, []] := by
    decide +kernel
  have hlength : (Text.lines (prepared "a.c" returnsOutput).text.toList).length = 3 := by
    decide +kernel
  obtain ⟨hmarkers, hagain⟩ := ofPreprocessed_blanking_exact hp
  obtain ⟨q, hq⟩ := (hagain "a.c").1 (by rw [htext]; decide +kernel)
  obtain ⟨hlines, hsame⟩ := (hagain "a.c").2 q hq
  refine ⟨_, q, hp, hq, htext, (hmarkers _ ?_).1, by decide +kernel, hlines 2 (by decide) ?_, ?_⟩
  · simp [hpieces]
  · rw [hlength]
    decide
  · rw [Ne, hsame, hpieces]
    simp

end Prepared

end Uninit
