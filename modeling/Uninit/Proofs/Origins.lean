import Mathlib.Data.List.Induction
import Uninit.Origin.Prepared
import Uninit.Proofs.Lines

/-!
# Origins told by the nearest markers

Preparing the output of a preprocessor carries the current file and the next line number along.
What they are at a line can be told without carrying anything: the file is named by the nearest
earlier marker with a name, and the number is that of the nearest earlier marker and one more for
each line of text between them.

Line numbers stay below `Marker.lineBound`. The scan comes to its end as long as no count gets there,
which `Marker.Countable` says, and overflows if one does.

## Main definitions

* `Marker.fileBehind`, `Marker.numberBehind`: the file and the number of the line behind some lines
* `Marker.Countable`: no number reaches the bound
* `Origin.ofLine?`: the origin of a line

## Main statements

* `ofPreprocessed_eq_ite`: which outputs are prepared, and as what
* `ofPreprocessed_exact`: the lines of a prepared source, and their origins
-/
namespace Uninit

namespace Marker

def isMarker (line : List Char) : Bool :=
  (parse? line).isSome

/-- A line as it is kept in a prepared text. -/
def blanked (line : List Char) : List Char :=
  if isMarker line then [] else line

theorem blanked_of_not_isMarker {line : List Char} (h : isMarker line = false) :
    blanked line = line := by
  simp [blanked, h]

theorem notMem_blanked {line : List Char} {c : Char} (h : c ∉ line) : c ∉ blanked line := by
  rw [blanked]
  split
  · exact List.not_mem_nil
  · exact h

/-- How many lines stand behind the last marker among some lines. -/
def textBehind (before : List (List Char)) : ℕ :=
  (before.reverse.takeWhile fun line => !isMarker line).length

/-- The number of the line behind some lines: it counts on from the nearest marker, or from one
at the first line if there is none. -/
def numberBehind (before : List (List Char)) : ℕ :=
  match before.reverse.findSome? parse? with
  | some m => m.number + textBehind before
  | none => before.length + 1

/-- The file of the line behind some lines: the nearest marker that has a name tells it. -/
def fileBehind (primary : String) (before : List (List Char)) : String :=
  match before.reverse.findSome? fun line => (parse? line).bind file with
  | some name => String.ofList name
  | none => primary

/-- No marker and no count of the lines behind it reaches the bound of line numbers. -/
def Countable (lines : List (List Char)) : Prop :=
  ∀ n ≤ lines.length, numberBehind (lines.take n) < lineBound

instance (lines : List (List Char)) : Decidable (Countable lines) :=
  inferInstanceAs (Decidable (∀ n ≤ lines.length, _))

/-- A line whose number reaches the bound is read as no marker. -/
theorem number_lt_of_parse? {line : List Char} {m : Marker} (h : parse? line = some m) :
    m.number < lineBound := by
  rw [parse?] at h
  split at h
  case h_1 =>
    rw [parseNumber?] at h
    split_ifs at h with hnone
    rw [not_or, Nat.not_le] at hnone
    split at h <;> exact Option.some.inj h ▸ hnone.2
  case h_2 => cases h

/-! ## One more line -/

theorem numberBehind_append_of_some {line : List Char} {m : Marker} (h : parse? line = some m)
    (before : List (List Char)) : numberBehind (before ++ [line]) = m.number := by
  simp [numberBehind, textBehind, isMarker, h]

theorem numberBehind_append_of_none {line : List Char} (h : parse? line = none)
    (before : List (List Char)) :
    numberBehind (before ++ [line]) = numberBehind before + 1 := by
  simp only [numberBehind, textBehind, isMarker, List.reverse_append, List.reverse_singleton,
    List.singleton_append, List.findSome?_cons, List.takeWhile_cons, h]
  cases before.reverse.findSome? parse? with
  | none => simp
  | some m => simp [Nat.add_assoc]

theorem numberBehind_take_of_none {lines : List (List Char)} {k : ℕ} {line : List Char}
    (hline : lines[k]? = some line) (h : parse? line = none) :
    numberBehind (lines.take (k + 1)) = numberBehind (lines.take k) + 1 := by
  rw [List.take_add_one, hline, Option.toList_some, numberBehind_append_of_none h]

theorem fileBehind_append (primary : String) (before : List (List Char)) (line : List Char) :
    fileBehind primary (before ++ [line]) =
      match (parse? line).bind file with
      | some name => String.ofList name
      | none => fileBehind primary before := by
  simp only [fileBehind, List.reverse_append, List.reverse_singleton, List.singleton_append,
    List.findSome?_cons]
  cases (parse? line).bind file <;> rfl

/-! ## Lines that are no markers -/

section Unmarked

variable {text : List (List Char)} (h : ∀ line ∈ text, isMarker line = false)
include h

theorem numberBehind_append_text (before : List (List Char)) :
    numberBehind (before ++ text) = numberBehind before + text.length := by
  induction text using List.reverseRecOn with
  | nil => simp
  | append_singleton text line ih =>
    have hline : parse? line = none := by simpa [isMarker] using h line (by simp)
    rw [← List.append_assoc, numberBehind_append_of_none hline,
      ih fun l hl => h l (List.mem_append_left _ hl), List.length_append, List.length_singleton,
      Nat.add_assoc]

theorem fileBehind_append_text (primary : String) (before : List (List Char)) :
    fileBehind primary (before ++ text) = fileBehind primary before := by
  induction text using List.reverseRecOn with
  | nil => simp
  | append_singleton text line ih =>
    have hline : parse? line = none := by simpa [isMarker] using h line (by simp)
    rw [← List.append_assoc, fileBehind_append, hline,
      ← ih fun l hl => h l (List.mem_append_left _ hl)]
    rfl

end Unmarked

end Marker

open Marker

/-- The origin of line `i` of a preprocessor's output, told by the markers before it. There is no
line zero, and a marker has no origin. -/
def Origin.ofLine? (primary : String) (lines : List (List Char)) : ℕ → Option Origin
  | 0 => none
  | i + 1 =>
    match lines[i]? with
    | some line =>
      if isMarker line then none
      else some ⟨fileBehind primary (lines.take i), numberBehind (lines.take i)⟩
    | none => none

/-- A line of text has an origin. -/
theorem Origin.ofLine?_of_text {lines : List (List Char)} {k : ℕ} {line : List Char}
    (hline : lines[k]? = some line) (h : parse? line = none) (primary : String) :
    Origin.ofLine? primary lines (k + 1) =
      some ⟨fileBehind primary (lines.take k), numberBehind (lines.take k)⟩ := by
  simp [Origin.ofLine?, hline, isMarker, h]

/-- Only a line of text has an origin. -/
theorem Origin.exists_of_ofLine? {primary : String} {lines : List (List Char)} {i : ℕ} {o : Origin}
    (h : Origin.ofLine? primary lines i = some o) :
    ∃ k line, i = k + 1 ∧ lines[k]? = some line ∧ parse? line = none ∧
      o = ⟨fileBehind primary (lines.take k), numberBehind (lines.take k)⟩ := by
  cases i with
  | zero => cases h
  | succ k =>
    rw [Origin.ofLine?] at h
    split at h
    case h_1 line hline =>
      split_ifs at h with hmarker
      exact ⟨k, line, rfl, hline, by simpa [isMarker] using hmarker, (Option.some.inj h).symm⟩
    case h_2 => cases h

/-- The number of the line behind a line of text that has an origin does not reach the bound. -/
theorem Marker.Countable.line_add_one_lt {lines : List (List Char)} (h : Countable lines)
    {primary : String} {i : ℕ} {o : Origin} (ho : Origin.ofLine? primary lines i = some o) :
    o.line + 1 < lineBound := by
  obtain ⟨k, line, -, hline, htext, rfl⟩ := Origin.exists_of_ofLine? ho
  rw [← numberBehind_take_of_none hline htext]
  exact h (k + 1) (List.getElem?_eq_some_iff.mp hline).1

namespace Prepared

/-! ## The scan -/

/-- The file and the number of the next line, after one more line, if numbers had no bound. -/
def advance (next : String × ℕ) (line : List Char) : String × ℕ :=
  match parse? line with
  | some m => ((m.file.map String.ofList).getD next.1, m.number)
  | none => (next.1, next.2 + 1)

/-- What a line is kept as: blank and without an origin if it is a marker. -/
def keep (next : String × ℕ) (line : List Char) : List Char × Option Origin :=
  if isMarker line then ([], none) else (line, some ⟨next.1, next.2⟩)

def keepAll (next : String × ℕ) : List (List Char) → List (List Char × Option Origin)
  | [] => []
  | line :: rest => keep next line :: keepAll (advance next line) rest

theorem nextLine_of_lt {n : ℕ} (h : n + 1 < lineBound) : nextLine n = .ok (n + 1) :=
  if_pos h

theorem nextLine_of_le {n : ℕ} (h : lineBound ≤ n + 1) : nextLine n = .error .overflow :=
  if_neg (Nat.not_lt.mpr h)

/-- The scan goes on behind a line unless the count overflows there. -/
theorem annotate_cons (next : String × ℕ) (line : List Char) (rest : List (List Char)) :
    annotate next.1 next.2 (line :: rest) =
      if (advance next line).2 < lineBound then
        (annotate (advance next line).1 (advance next line).2 rest).map (keep next line :: ·)
      else .error .overflow := by
  rw [annotate, advance, keep, isMarker]
  cases hline : parse? line with
  | some m =>
    obtain ⟨number, file⟩ := m
    rw [if_pos (number_lt_of_parse? hline)]
    cases file <;> rfl
  | none =>
    by_cases hnext : next.2 + 1 < lineBound
    · simp only [nextLine_of_lt hnext, if_pos hnext]
      rfl
    · simp only [nextLine_of_le (Nat.not_lt.mp hnext), if_neg hnext]
      rfl

/-- The scan keeps all lines if no count reaches the bound on the way. -/
theorem annotate_eq_ok (next : String × ℕ) {lines : List (List Char)}
    (h : ∀ n ≤ lines.length, ((lines.take n).foldl advance next).2 < lineBound) :
    annotate next.1 next.2 lines = .ok (keepAll next lines) := by
  induction lines generalizing next with
  | nil => rfl
  | cons line rest ih =>
    have hfirst : (advance next line).2 < lineBound := h 1 (by simp)
    rw [annotate_cons, if_pos hfirst, ih _ fun n hn => h (n + 1) (Nat.succ_le_succ hn)]
    rfl

/-- The scan is broken off if some count reaches the bound. -/
theorem annotate_eq_error (next : String × ℕ) {lines : List (List Char)} {n : ℕ}
    (hnext : next.2 < lineBound) (h : lineBound ≤ ((lines.take n).foldl advance next).2) :
    annotate next.1 next.2 lines = .error .overflow := by
  induction lines generalizing next n with
  | nil =>
    rw [List.take_nil, List.foldl_nil] at h
    omega
  | cons line rest ih =>
    rw [annotate_cons]
    split
    · next hfirst =>
      cases n with
      | zero =>
        rw [List.take_zero, List.foldl_nil] at h
        omega
      | succ n =>
        rw [ih _ hfirst h]
        rfl
    · rfl

/-- Line `i` is kept by what the lines before it have left behind. -/
theorem getElem?_keepAll (next : String × ℕ) (lines : List (List Char)) (i : ℕ) :
    (keepAll next lines)[i]? = lines[i]?.map (keep ((lines.take i).foldl advance next)) := by
  induction lines generalizing next i with
  | nil => rfl
  | cons line rest ih =>
    cases i with
    | zero => rfl
    | succ i => exact ih (advance next line) i

theorem map_fst_keepAll (next : String × ℕ) (lines : List (List Char)) :
    (keepAll next lines).map Prod.fst = lines.map blanked := by
  induction lines generalizing next with
  | nil => rfl
  | cons line rest ih =>
    rw [keepAll, List.map_cons, List.map_cons, ih, keep, blanked]
    split <;> rfl

/-- The scan comes to the file and the number that the markers tell. -/
theorem foldl_advance (primary : String) (before : List (List Char)) :
    before.foldl advance (primary, 1) = (fileBehind primary before, numberBehind before) := by
  induction before using List.reverseRecOn with
  | nil => rfl
  | append_singleton before line ih =>
    rw [List.foldl_concat, ih, advance, fileBehind_append]
    cases hline : parse? line with
    | none => rw [numberBehind_append_of_none hline, Option.bind_none]
    | some m =>
      obtain ⟨number, file⟩ := m
      rw [numberBehind_append_of_some hline]
      cases file <;> rfl

/-! ## The prepared source -/

/-- The lines of a prepared text. -/
def keptLines (output : String) : List (List Char) :=
  (Text.lines output.toList).map blanked

theorem notMem_of_mem_keptLines {output : String} : ∀ line ∈ keptLines output, '\n' ∉ line :=
  List.forall_mem_map.mpr fun _ hline => notMem_blanked (Text.notMem_of_mem_lines hline)

/-- What an output is prepared as if no count overflows. -/
def prepared (primary output : String) : Prepared where
  primary
  text := String.ofList (Text.unlines (keptLines output))
  map := .table ((keepAll (primary, 1) (Text.lines output.toList)).map Prod.snd).toArray

/-- **Preparing overflows exactly if the numbers that the markers tell reach the bound.** -/
theorem ofPreprocessed_eq_ite (primary output : String) :
    ofPreprocessed primary output =
      if Countable (Text.lines output.toList) then .ok (prepared primary output)
      else .error .overflow := by
  rw [ofPreprocessed]
  by_cases h : Countable (Text.lines output.toList)
  · have hscan : annotate primary 1 (Text.lines output.toList) =
        .ok (keepAll (primary, 1) (Text.lines output.toList)) := by
      refine annotate_eq_ok (primary, 1) fun n hn => ?_
      rw [foldl_advance]
      exact h n hn
    rw [if_pos h, hscan, prepared, keptLines, ← map_fst_keepAll (primary, 1)]
    rfl
  · have hscan : annotate primary 1 (Text.lines output.toList) = .error .overflow := by
      simp only [Marker.Countable, not_forall, Nat.not_lt] at h
      obtain ⟨n, -, hn⟩ := h
      have hone : 1 < lineBound := by decide
      refine annotate_eq_error (primary, 1) (n := n) hone ?_
      rw [foldl_advance]
      exact hn
    rw [if_neg h, hscan]
    rfl

theorem ofPreprocessed_of_countable {output : String} (h : Countable (Text.lines output.toList))
    (primary : String) : ofPreprocessed primary output = .ok (prepared primary output) := by
  rw [ofPreprocessed_eq_ite, if_pos h]

theorem ofPreprocessed_eq_ok_iff {primary output : String} {p : Prepared} :
    ofPreprocessed primary output = .ok p ↔
      Countable (Text.lines output.toList) ∧ prepared primary output = p := by
  rw [ofPreprocessed_eq_ite]
  split <;> simp [*]

theorem splitFeeds_text_prepared (primary output : String) :
    Text.splitFeeds (prepared primary output).text.toList =
      ((Text.lines output.toList).map fun line => if isMarker line then [] else line) ++
        [[]] := by
  rw [prepared, String.toList_ofList, Text.splitFeeds_unlines notMem_of_mem_keptLines]
  rfl

/-- **The origins of a prepared source are the ones that the markers tell.** -/
theorem resolve_prepared (primary output : String) (i : ℕ) :
    (prepared primary output).resolve i =
      Origin.ofLine? primary (Text.lines output.toList) i := by
  cases i with
  | zero => rfl
  | succ i =>
    simp only [prepared, resolve, Origin.ofLine?, Nat.add_sub_cancel, Nat.succ_ne_zero, if_false,
      List.getElem?_toArray, List.getElem?_map, getElem?_keepAll, foldl_advance]
    cases (Text.lines output.toList)[i]? with
    | none => rfl
    | some line =>
      simp only [Option.map_some, keep]
      split <;> rfl

/-- **A prepared source is exact.** Its text has one line for each line of the output, ended by a
line feed: an empty one for a line marker, and the same line for any other. And the origin of
every line is the one that the markers before it tell. -/
theorem ofPreprocessed_exact (primary output : String)
    (h : Countable (Text.lines output.toList)) :
    ∃ p, ofPreprocessed primary output = .ok p ∧
      Text.splitFeeds p.text.toList =
        ((Text.lines output.toList).map fun line => if isMarker line then [] else line) ++ [[]] ∧
      ∀ i, p.resolve i = Origin.ofLine? primary (Text.lines output.toList) i :=
  ⟨_, ofPreprocessed_of_countable h primary, splitFeeds_text_prepared primary output,
    resolve_prepared primary output⟩

/-- The header is left again by a marker without a name, which keeps the file. -/
theorem ofPreprocessed_exact_header :
    ∃ p, ofPreprocessed "main.c" "int a;\n# 1 \"inc.h\" 1\nint b;\n#line 7\nint c;" = .ok p ∧
      p.resolve 1 = some ⟨"main.c", 1⟩ ∧ p.resolve 5 = some ⟨"inc.h", 7⟩ := by
  have h : Countable
      (Text.lines "int a;\n# 1 \"inc.h\" 1\nint b;\n#line 7\nint c;".toList) := by
    decide +kernel
  obtain ⟨p, hp, -, hresolve⟩ := ofPreprocessed_exact "main.c" _ h
  refine ⟨p, hp, ?_, ?_⟩
  · rw [hresolve]
    decide +kernel
  · rw [hresolve]
    decide +kernel

end Prepared

end Uninit
