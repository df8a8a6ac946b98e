import Mathlib.Data.List.Induction
import Uninit.Host.Memory
import Uninit.Load
import Uninit.Proofs.Analysis
import Uninit.Proofs.Decoding
import Uninit.Proofs.Markers

/-!
# Segments of a preprocessor's output

A preprocessor prints segments: a marker and the lines that it numbers. A source that is read
through a preprocessor gives each of these lines back with the file and the number that its marker
promises, and the file that was handed to the preprocessor is recognised by its markers. The lines
are bytes and need not be valid text; where they are not, they are read as lines all the same.

## Main definitions

* `Segment`: a marker and the lines behind it
* `Segment.print`: the bytes that segments are printed as
* `Segment.lineBehind`: where a line of a segment is printed

## Main statements

* `loadThrough_segments_exact`: the origins of the lines of printed segments
-/
namespace Uninit

open Marker

/-- A marker, and the lines behind it up to the next one. -/
structure Segment where
  form : Marker.Form
  /-- The number of the first line. -/
  number : ℕ
  file : String
  /-- What follows the name in the marker. -/
  ending : List UInt8
  body : List (List UInt8)
  number_add_length_lt : number + body.length < lineBound
  notMem_file : '\n' ∉ file.toList
  notMem_ending : 0x0A ∉ ending
  isMarker_body : ∀ line ∈ body, isMarker (Text.Utf8.decode line) = false
  notMem_body : ∀ line ∈ body, 0x0A ∉ line
  getLast?_body : ∀ line ∈ body, line.getLast? ≠ some 0x0D

namespace Segment

def marker (s : Segment) : List UInt8 :=
  Text.Utf8.encode (Marker.write s.form s.number s.file.toList) ++ s.ending

def lines (s : Segment) : List (List UInt8) :=
  s.marker :: s.body

def print (segments : List Segment) : List UInt8 :=
  (segments.flatMap lines).flatMap (· ++ [0x0A])

/-- The line that line `j` of a body is printed on, behind some segments. Lines are counted from
one, and the first of the segment is its marker. -/
def lineBehind (before : List Segment) (j : ℕ) : ℕ :=
  (before.flatMap lines).length + j + 2

/-- The marker as it is read: it may lose a carriage return. -/
def readMarker (s : Segment) : List Char :=
  Text.dropReturn (Text.Utf8.decode s.marker)

/-- The lines behind the marker as they are read. -/
def readBody (s : Segment) : List (List Char) :=
  s.body.map Text.Utf8.decode

/-- The lines of a segment as they are read. -/
def read (s : Segment) : List (List Char) :=
  s.readMarker :: s.readBody

/-! ## Reading the lines -/

theorem decode_marker (s : Segment) :
    Text.Utf8.decode s.marker =
      Marker.write s.form s.number s.file.toList ++ Text.Utf8.decode s.ending :=
  Text.Utf8.decode_encode_append _ _

theorem parse?_readMarker (s : Segment) :
    parse? s.readMarker = some ⟨s.number, some s.file.toList⟩ := by
  have hnumber : s.number < lineBound := by
    have hfits := s.number_add_length_lt
    omega
  rw [readMarker, decode_marker, Marker.dropReturn_write, parse?_write hnumber]

theorem isMarker_readBody (s : Segment) : ∀ line ∈ s.readBody, isMarker line = false :=
  List.forall_mem_map.mpr s.isMarker_body

/-- No line feed is read within a line. -/
theorem notMem_decode_lines (s : Segment) {line : List UInt8} (h : line ∈ s.lines) :
    '\n' ∉ Text.Utf8.decode line := by
  rw [lines, List.mem_cons] at h
  rcases h with rfl | h
  · rw [decode_marker, List.mem_append, not_or]
    exact ⟨Marker.notMem_write s.notMem_file s.form s.number,
      Text.Utf8.notMem_decode (by decide) s.notMem_ending⟩
  · exact Text.Utf8.notMem_decode (by decide) (s.notMem_body line h)

theorem decode_lines (s : Segment) :
    (s.lines.map Text.Utf8.decode).map Text.dropReturn = s.read := by
  have hbody : s.readBody.map Text.dropReturn = s.readBody.map id := by
    refine List.map_congr_left (List.forall_mem_map.mpr fun line hline => ?_)
    exact Text.dropReturn_of_getLast?_ne
      (Text.Utf8.getLast?_decode_ne (by decide) (s.getLast?_body line hline))
  rw [lines, List.map_cons, List.map_cons, read, readMarker, ← readBody, hbody, List.map_id]

theorem length_read (s : Segment) : s.read.length = s.lines.length := by
  simp [read, readBody, lines]

/-- Printed lines are read line by line. -/
theorem decode_flatMap_lines (ls : List (List UInt8)) :
    Text.Utf8.decode (ls.flatMap (· ++ [0x0A])) = Text.unlines (ls.map Text.Utf8.decode) := by
  induction ls with
  | nil => rfl
  | cons line rest ih =>
    rw [List.flatMap_cons, List.append_assoc, List.singleton_append,
      Text.Utf8.decode_append line (by decide), ih, List.map_cons, Text.unlines]
    rfl

/-- **The lines of printed segments are read back**, up to carriage returns behind markers. -/
theorem lines_decode_print (segments : List Segment) :
    Text.lines (Text.Utf8.decode (print segments)) = segments.flatMap read := by
  have hlines : ∀ line ∈ (segments.flatMap lines).map Text.Utf8.decode, '\n' ∉ line := by
    refine List.forall_mem_map.mpr fun line hline => ?_
    obtain ⟨s, -, hmem⟩ := List.mem_flatMap.mp hline
    exact s.notMem_decode_lines hmem
  rw [print, decode_flatMap_lines, Text.lines_unlines hlines, List.map_flatMap, List.map_flatMap]
  simp only [decode_lines]

/-! ## What the markers tell -/

theorem numberBehind_append_read (s : Segment) (before : List (List Char)) {n : ℕ}
    (h : n ≤ s.body.length) :
    numberBehind (before ++ s.read.take (n + 1)) = s.number + n := by
  have hn : (s.readBody.take n).length = n := by simpa [readBody] using h
  rw [read, List.take_succ_cons, List.append_cons, numberBehind_append_text,
    numberBehind_append_of_some s.parse?_readMarker, hn]
  exact fun line hline => s.isMarker_readBody line (List.mem_of_mem_take hline)

theorem fileBehind_append_read (s : Segment) (primary : String) (before : List (List Char))
    (n : ℕ) :
    fileBehind primary (before ++ s.read.take (n + 1)) = s.file := by
  rw [read, List.take_succ_cons, List.append_cons, fileBehind_append_text, fileBehind_append,
    s.parse?_readMarker]
  · simp
  · exact fun line hline => s.isMarker_readBody line (List.mem_of_mem_take hline)

/-- One segment more takes no count to the bound. -/
theorem countable_append_read (s : Segment) {before : List (List Char)} (h : Countable before) :
    Countable (before ++ s.read) := by
  intro n hn
  rcases Nat.lt_or_ge before.length n with hbehind | hbefore
  · obtain ⟨k, rfl⟩ : ∃ k, n = before.length + (k + 1) := ⟨n - before.length - 1, by omega⟩
    have hk : k ≤ s.body.length := by
      rw [List.length_append, length_read, lines, List.length_cons] at hn
      omega
    have hfits := s.number_add_length_lt
    rw [List.take_length_add_append, s.numberBehind_append_read before hk]
    omega
  · rw [List.take_append_of_le_length hbefore]
    exact h n hbefore

theorem countable_flatMap_read (segments : List Segment) :
    Countable (segments.flatMap read) := by
  induction segments using List.reverseRecOn with
  | nil =>
    intro n hn
    simp [numberBehind, lineBound]
  | append_singleton segments s ih =>
    rw [List.flatMap_append, List.flatMap_singleton]
    exact s.countable_append_read ih

theorem length_flatMap_read (segments : List Segment) :
    (segments.flatMap read).length = (segments.flatMap lines).length := by
  simp only [List.length_flatMap, length_read]

/-! ## One line among the segments -/

section Line

variable (before : List Segment) (s : Segment) (after : List Segment) {j : ℕ}

theorem getElem?_flatMap_read (hj : j < s.body.length) :
    ((before ++ s :: after).flatMap read)[(before.flatMap lines).length + j + 1]? =
      some (Text.Utf8.decode s.body[j]) := by
  have hbody : s.readBody[j]? = some (Text.Utf8.decode s.body[j]) := by
    rw [readBody, List.getElem?_map, List.getElem?_eq_getElem hj, Option.map_some]
  have hlt : j < s.readBody.length := by simpa [readBody] using hj
  rw [List.flatMap_append, List.flatMap_cons, ← length_flatMap_read, Nat.add_assoc,
    List.getElem?_append_right (Nat.le_add_right _ _), Nat.add_sub_cancel_left, read,
    List.cons_append, List.getElem?_cons_succ, List.getElem?_append_left hlt, hbody]

theorem take_flatMap_read (hj : j ≤ s.body.length) :
    ((before ++ s :: after).flatMap read).take ((before.flatMap lines).length + j + 1) =
      before.flatMap read ++ s.read.take (j + 1) := by
  have hread : j + 1 ≤ s.read.length := by
    rw [length_read, lines, List.length_cons]
    omega
  rw [List.flatMap_append, List.flatMap_cons, ← length_flatMap_read, Nat.add_assoc,
    List.take_length_add_append, List.take_append_of_le_length hread]

theorem isMarker_getElem_body (hj : j < s.body.length) :
    isMarker (Text.Utf8.decode s.body[j]) = false :=
  s.isMarker_body _ (List.getElem_mem hj)

/-- A line of a body comes from where its marker says. -/
theorem ofLine?_lineBehind (primary : String) (hj : j < s.body.length) :
    Origin.ofLine? primary ((before ++ s :: after).flatMap read) (lineBehind before j) =
      some ⟨s.file, s.number + j⟩ := by
  rw [lineBehind, Origin.ofLine?, getElem?_flatMap_read before s after hj,
    take_flatMap_read before s after hj.le, fileBehind_append_read,
    numberBehind_append_read _ _ hj.le]
  simp [isMarker_getElem_body s hj]

end Line

end Segment

/-! ## Printed sources -/

namespace Prepared

open Segment

/-- The output of a preprocessor that prints segments. -/
def Input.printed (segments : List Segment) : Input :=
  .preprocessed (String.ofList (Text.Utf8.decode (print segments)))

namespace Input

theorem countable_printed (segments : List Segment) : (printed segments).Countable := by
  rw [printed, Countable, String.toList_ofList, lines_decode_print]
  exact countable_flatMap_read segments

section Line

variable (primary : String) (before : List Segment) (s : Segment) (after : List Segment) {j : ℕ}
  (hj : j < s.body.length)
include hj

theorem origin?_printed :
    (printed (before ++ s :: after)).origin? primary (lineBehind before j) =
      some ⟨s.file, s.number + j⟩ := by
  rw [printed, origin?, String.toList_ofList, lines_decode_print,
    ofLine?_lineBehind before s after _ hj]

/-- A line of a body stands in the text as it was printed. -/
theorem lineAt?_printed :
    Text.lineAt? ((printed (before ++ s :: after)).prepared primary).text (lineBehind before j) =
      some (Text.Utf8.decode s.body[j]) := by
  have hline := getElem?_flatMap_read before s after hj
  rw [printed, prepared, lineBehind, Text.lineAt?, splitFeeds_text_prepared,
    String.toList_ofList, lines_decode_print, List.getElem?_append_left, List.getElem?_map, hline]
  · simp [isMarker_getElem_body s hj]
  · rw [List.length_map]
    exact (List.getElem?_eq_some_iff.mp hline).1

end Line

end Input

/-- The output of a preprocessor that ended well is what is prepared. -/
theorem loadThrough_of_exited {p : Preprocessor} {h : Host} {path : String}
    {segments : List Segment} {errors : List UInt8} (hfile : h.isFile path = true)
    (hrun : h.launch p.command (p.arguments path) =
      .exited ⟨some 0, print segments, errors⟩) :
    loadThrough p h path = .ok ((Input.printed segments).prepared path) := by
  rw [← Input.prepare_of_countable (Input.countable_printed segments)]
  simp [loadThrough, hfile, hrun, Input.printed, Input.prepare]

/-- **The lines of printed segments are resolved to where their markers say.** A preprocessor that
ends well and prints segments gives a source in which every line of a body has the file and the
number of its marker, counted on. It is a line of the primary file if the marker names the file
as the last argument of the call does, and none if the marker names another path. -/
theorem loadThrough_segments_exact (p : Preprocessor) (h : Host) (path : String)
    (segments : List Segment) (errors : List UInt8) (hfile : h.isFile path = true)
    (hrun : h.launch p.command (p.arguments path) =
      .exited ⟨some 0, print segments, errors⟩) :
    ∃ prepared last, loadThrough p h path = .ok prepared ∧
      (p.arguments path).getLast? = some last ∧
      ∀ before s after, segments = before ++ s :: after → ∀ j (hj : j < s.body.length),
        Text.lineAt? prepared.text (lineBehind before j) = some (Text.Utf8.decode s.body[j]) ∧
        prepared.resolve (lineBehind before j) = some ⟨s.file, s.number + j⟩ ∧
        (s.file = last →
          prepared.resolvePrimary (lineBehind before j) = some (s.number + j)) ∧
        (Text.FilePath.same s.file last = false →
          prepared.resolvePrimary (lineBehind before j) = none) := by
  have hlast : (p.arguments path).getLast? = some path := by
    rw [Preprocessor.arguments, List.getLast?_concat]
  refine ⟨_, path, loadThrough_of_exited hfile hrun, hlast, ?_⟩
  rintro before s after rfl j hj
  have horigin := Input.origin?_printed path before s after hj
  have hprimary := Input.resolvePrimary_prepared horigin
  refine ⟨Input.lineAt?_printed path before s after hj, ?_, ?_, ?_⟩
  · rw [Input.resolve_prepared, horigin]
  · intro hname
    have hsame : Text.FilePath.same s.file path = true := by simp [Text.FilePath.same, hname]
    rw [hprimary, if_pos hsame]
  · intro hother
    rw [hprimary, hother]
    rfl

/-- A path with quotes, a backslash and a blank. -/
def quotedPath : String :=
  "my \"dir\"\\a.c"

/-- The start of the file at `quotedPath`. Its line holds a byte that is no text. -/
def firstSegment : Segment :=
  ⟨.sign, 1, quotedPath, [], [Text.Utf8.encode "char a; ".toList ++ [0xE9]], by decide, by decide,
    by decide, by decide, by decide, by decide⟩

/-- A header that is included there. -/
def headerSegment : Segment :=
  ⟨.sign, 1, "inc.h", Text.Utf8.encode " 1".toList, [Text.Utf8.encode "int b;".toList],
    by decide, by decide, by decide, by decide, by decide, by decide⟩

/-- The rest of the file, which starts with an empty line. -/
def restSegment : Segment :=
  ⟨.directive, 3, quotedPath, [0x0D], [[], Text.Utf8.encode "int c;".toList],
    by decide, by decide, by decide, by decide, by decide, by decide⟩

def quotedSegments : List Segment :=
  [firstSegment, headerSegment, restSegment]

/-- A machine on which the file holds the segments already, so that `cat` prints them. -/
def quotedHost : Host :=
  Memory.host <| .directory [(quotedPath.toList, .file (print quotedSegments) false)]

/-- `cat` as a preprocessor. -/
def printer : Preprocessor :=
  ⟨"cat", [], [], false⟩

theorem loadThrough_segments_exact_quoted :
    quotedHost.isFile quotedPath = true ∧
      quotedHost.launch "cat" (printer.arguments quotedPath) =
        .exited ⟨some 0, print quotedSegments, []⟩ ∧
      ∃ prepared, loadThrough printer quotedHost quotedPath = .ok prepared ∧
        prepared.resolvePrimary 2 = some 1 ∧ prepared.resolvePrimary 4 = none ∧
        prepared.resolve 4 = some ⟨"inc.h", 1⟩ ∧ prepared.resolvePrimary 7 = some 4 := by
  have hfile : quotedHost.isFile quotedPath = true := by decide +kernel
  have hrun : quotedHost.launch "cat" (printer.arguments quotedPath) =
      .exited ⟨some 0, print quotedSegments, []⟩ := by
    decide +kernel
  refine ⟨hfile, hrun, ?_⟩
  obtain ⟨prepared, last, hload, hlast, hlines⟩ :=
    loadThrough_segments_exact printer quotedHost quotedPath quotedSegments [] hfile hrun
  obtain rfl : quotedPath = last := by simpa [printer, Preprocessor.arguments] using hlast
  have hother : Text.FilePath.same "inc.h" quotedPath = false := by decide +kernel
  obtain ⟨-, -, hfirst, -⟩ := hlines [] firstSegment _ rfl 0 (by decide)
  obtain ⟨-, hinc, -, hheader⟩ := hlines [firstSegment] headerSegment _ rfl 0 (by decide)
  obtain ⟨-, -, hrest, -⟩ := hlines [firstSegment, headerSegment] restSegment _ rfl 1 (by decide)
  exact ⟨prepared, hload, hfirst rfl, hheader hother, hinc, hrest rfl⟩

end Prepared

end Uninit
