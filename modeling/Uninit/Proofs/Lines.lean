import Mathlib.Data.List.Basic
import Uninit.Text.Line

/-!
# Lines and line feeds

Cutting a text at its line feeds undoes writing lines that hold no line feed. The cut leaves one
empty piece behind the last line feed, which is how a text shows that its last line is ended.

## Main statements

* `splitFeeds_unlines`: the pieces of written lines are the lines and one empty piece
* `notMem_of_mem_lines`: no line of a text holds a line feed
* `lines_unlines`: the lines of a text of written lines
* `exists_unlines`: which texts are written line by line
-/
namespace Uninit.Text

theorem splitFeeds_ne_nil (cs : List Char) : splitFeeds cs ≠ [] := by
  cases cs with
  | nil => simp [splitFeeds]
  | cons c rest =>
    rw [splitFeeds]
    split
    · simp
    · split <;> simp

/-- A character that is no line feed belongs to the first piece. -/
theorem splitFeeds_cons_of_ne {c : Char} (hc : c ≠ '\n') {rest : List Char} {piece : List Char}
    {more : List (List Char)} (h : splitFeeds rest = piece :: more) :
    splitFeeds (c :: rest) = (c :: piece) :: more := by
  rw [splitFeeds, if_neg hc, h]

/-- A line feed ends the first piece, if there is none in front of it. -/
theorem splitFeeds_line {line : List Char} (h : '\n' ∉ line) (rest : List Char) :
    splitFeeds (line ++ '\n' :: rest) = line :: splitFeeds rest := by
  induction line with
  | nil => simp [splitFeeds]
  | cons c line ih =>
    rw [List.mem_cons, not_or] at h
    exact splitFeeds_cons_of_ne (Ne.symm h.1) (ih h.2)

/-- **Written lines can be read back**: the pieces of their text are the lines, and the empty piece
behind the last line feed. -/
theorem splitFeeds_unlines {lines : List (List Char)} (h : ∀ line ∈ lines, '\n' ∉ line) :
    splitFeeds (unlines lines) = lines ++ [[]] := by
  induction lines with
  | nil => rfl
  | cons line rest ih =>
    rw [unlines, splitFeeds_line (h line List.mem_cons_self), List.cons_append,
      ih fun l hl => h l (List.mem_cons_of_mem _ hl)]

theorem notMem_of_mem_splitFeeds {cs piece : List Char} (h : piece ∈ splitFeeds cs) :
    '\n' ∉ piece := by
  induction cs generalizing piece with
  | nil => simp_all [splitFeeds]
  | cons c rest ih =>
    obtain ⟨first, more, hrest⟩ := List.exists_cons_of_ne_nil (splitFeeds_ne_nil rest)
    by_cases hc : c = '\n'
    · rw [splitFeeds, if_pos hc, List.mem_cons] at h
      rcases h with rfl | h
      · simp
      · exact ih h
    · rw [splitFeeds_cons_of_ne hc hrest, List.mem_cons] at h
      rcases h with rfl | h
      · have hfirst : '\n' ∉ first := ih (by simp [hrest])
        simp [hfirst, Ne.symm hc]
      · exact ih (by simp [hrest, h])

/-- Written lines are the lines of their text exactly if none of them holds a line feed. -/
theorem splitFeeds_unlines_iff (ls : List (List Char)) :
    splitFeeds (unlines ls) = ls ++ [[]] ↔ ∀ line ∈ ls, '\n' ∉ line := by
  refine ⟨fun h line hline => ?_, splitFeeds_unlines⟩
  have hpiece : line ∈ splitFeeds (unlines ls) := by
    rw [h]
    exact List.mem_append_left _ hline
  exact notMem_of_mem_splitFeeds hpiece

theorem dropReturn_subset (line : List Char) : dropReturn line ⊆ line := by
  induction line using dropReturn.induct with
  | case1 => simp [dropReturn]
  | case2 => simp [dropReturn]
  | case3 c rest hrest ih =>
    rw [dropReturn]
    · exact List.cons_subset_cons c ih
    · exact hrest

/-- A line is a piece of its text, perhaps less a carriage return. -/
theorem exists_piece_of_mem_linesOfPieces {pieces : List (List Char)} {line : List Char}
    (h : line ∈ linesOfPieces pieces) : ∃ piece ∈ pieces, line ⊆ piece := by
  induction pieces using linesOfPieces.induct with
  | case1 => simp [linesOfPieces] at h
  | case2 last hlast => simp [linesOfPieces, hlast] at h
  | case3 last hlast =>
    simp only [linesOfPieces, hlast, Bool.false_eq_true, if_false, List.mem_singleton] at h
    exact ⟨last, by simp, by simp [h]⟩
  | case4 piece rest hrest ih =>
    rw [linesOfPieces, List.mem_cons] at h
    · rcases h with rfl | h
      · exact ⟨piece, by simp, dropReturn_subset piece⟩
      · obtain ⟨p, hp, hline⟩ := ih h
        exact ⟨p, List.mem_cons_of_mem _ hp, hline⟩
    · exact hrest

/-- **No line of a text holds a line feed.** -/
theorem notMem_of_mem_lines {cs line : List Char} (h : line ∈ lines cs) : '\n' ∉ line := by
  obtain ⟨piece, hpiece, hline⟩ := exists_piece_of_mem_linesOfPieces h
  exact fun hmem => notMem_of_mem_splitFeeds hpiece (hline hmem)

/-! ## Carriage returns -/

theorem dropReturn_cons_of_ne {c : Char} (hc : c ≠ '\r') (rest : List Char) :
    dropReturn (c :: rest) = c :: dropReturn rest := by
  rw [dropReturn]
  simp [hc]

/-- A carriage return is dropped at the end alone. -/
theorem dropReturn_append {ending : List Char} (h : ending ≠ []) (start : List Char) :
    dropReturn (start ++ ending) = start ++ dropReturn ending := by
  induction start with
  | nil => rfl
  | cons c start ih =>
    rw [List.cons_append, dropReturn, ih, List.cons_append]
    simp [h]

theorem dropReturn_of_getLast?_ne {line : List Char} (h : line.getLast? ≠ some '\r') :
    dropReturn line = line := by
  induction line using dropReturn.induct with
  | case1 => rfl
  | case2 => simp at h
  | case3 c rest hrest ih =>
    rw [dropReturn, ih]
    · cases rest <;> simp_all
    · exact hrest

/-- The first line of a text, and the lines behind it. -/
theorem lines_line {line : List Char} (h : '\n' ∉ line) (rest : List Char) :
    lines (line ++ '\n' :: rest) = dropReturn line :: lines rest := by
  rw [lines, splitFeeds_line h, linesOfPieces, lines]
  exact splitFeeds_ne_nil rest

theorem lines_cons_feed (rest : List Char) : lines ('\n' :: rest) = [] :: lines rest :=
  lines_line List.not_mem_nil rest

theorem lines_cons_ne_nil (c : Char) (rest : List Char) : lines (c :: rest) ≠ [] := by
  obtain ⟨piece, more, hrest⟩ := List.exists_cons_of_ne_nil (splitFeeds_ne_nil rest)
  by_cases hc : c = '\n'
  · rw [hc, lines_cons_feed]
    simp
  · rw [lines, splitFeeds_cons_of_ne hc hrest]
    cases more <;> simp [linesOfPieces]

/-- A character at the front of a text takes away none of its lines. -/
theorem length_lines_le_cons (c : Char) (rest : List Char) :
    (lines rest).length ≤ (lines (c :: rest)).length := by
  obtain ⟨piece, more, hrest⟩ := List.exists_cons_of_ne_nil (splitFeeds_ne_nil rest)
  by_cases hc : c = '\n'
  · rw [hc, lines_cons_feed]
    simp
  · rw [lines, lines, splitFeeds_cons_of_ne hc hrest, hrest]
    cases more with
    | nil =>
      simp only [linesOfPieces]
      split <;> simp
    | cons second more => simp [linesOfPieces]

/-- **Written lines are read back** but for a carriage return at the end of each. -/
theorem lines_unlines {ls : List (List Char)} (h : ∀ line ∈ ls, '\n' ∉ line) :
    lines (unlines ls) = ls.map dropReturn := by
  induction ls with
  | nil => rfl
  | cons line rest ih =>
    rw [unlines, lines_line (h line List.mem_cons_self),
      ih fun l hl => h l (List.mem_cons_of_mem _ hl), List.map_cons]

/-! ## Texts that end with a line feed -/

theorem unlines_splitFeeds (cs : List Char) : unlines (splitFeeds cs) = cs ++ ['\n'] := by
  induction cs with
  | nil => rfl
  | cons c rest ih =>
    by_cases hc : c = '\n'
    · rw [splitFeeds, if_pos hc, unlines, ih, hc, List.nil_append, List.cons_append]
    · obtain ⟨piece, more, hrest⟩ := List.exists_cons_of_ne_nil (splitFeeds_ne_nil rest)
      rw [splitFeeds_cons_of_ne hc hrest, unlines, List.cons_append, List.cons_append, ← ih,
        hrest, unlines]

/-- **A text that ends with a line feed is written line by line.** -/
theorem exists_unlines {cs : List Char} (h : cs = [] ∨ cs.getLast? = some '\n') :
    ∃ ls, cs = unlines ls ∧ ∀ line ∈ ls, '\n' ∉ line := by
  rcases h with rfl | h
  · exact ⟨[], rfl, by simp⟩
  · obtain ⟨start, rfl⟩ := List.getLast?_eq_some_iff.mp h
    exact ⟨splitFeeds start, (unlines_splitFeeds start).symm, fun _ => notMem_of_mem_splitFeeds⟩

theorem unlines_eq_flatMap (ls : List (List Char)) : unlines ls = ls.flatMap (· ++ ['\n']) := by
  induction ls with
  | nil => rfl
  | cons line rest ih => rw [unlines, ih, List.flatMap_cons, List.append_assoc]; rfl

theorem subset_unlines {ls : List (List Char)} {line : List Char} (h : line ∈ ls) :
    line ⊆ unlines ls := by
  intro c hc
  rw [unlines_eq_flatMap]
  exact List.mem_flatMap.mpr ⟨line, h, List.mem_append_left _ hc⟩

/-- Each line takes a character at least. -/
theorem length_le_length_unlines (ls : List (List Char)) : ls.length ≤ (unlines ls).length := by
  induction ls with
  | nil => exact Nat.le_refl _
  | cons line rest ih =>
    simp only [unlines, List.length_cons, List.length_append]
    omega

end Uninit.Text
