import Mathlib.Data.List.Forall2
import Uninit.Proofs.FilePaths
import Uninit.Proofs.Markers
import Uninit.Proofs.Unmarked

/-!
# Files that are spelled in another way

The file of a line comes from the primary file or from some marker before it, as it is spelled
there, and it is only ever compared with the primary file as a path. So it makes no difference if
the primary file or the files of markers are spelled in another way, as long as the paths are the
same. A file that is the same by its place on disk alone is another path, and its lines are no
lines of the primary file.

## Main definitions

* `Marker.Respelled`: two lines tell the same but for the spelling of a file

## Main statements

* `keepAll_respelled`: the lines that are kept, and their origins but for the spelling of files
* `ofPreprocessed_respelled_exact`: spellings of one path cannot be told apart
-/
namespace Uninit

open Text

namespace Marker

/-- The second line tells what the first does, but the file may be spelled in another way. -/
inductive Respelled : List Char → List Char → Prop
  | same (line : List Char) : Respelled line line
  | marker {line line' : List Char} {number : ℕ} {file file' : Option (List Char)}
      (h : parse? line = some ⟨number, file⟩) (h' : parse? line' = some ⟨number, file'⟩)
      (hfile : Option.Rel (fun a b => FilePath.same (String.ofList a) (String.ofList b) = true)
        file file') : Respelled line line'

/-- A marker is respelled by writing another spelling of the path between its quotes. -/
theorem respelled_quote (o : Opening) (hnumber : o.number < lineBound) {blank : List Char}
    (hne : blank ≠ []) (hblank : AreBlank blank) {a b : List Char} (ending : List Char)
    (h : FilePath.same (String.ofList a) (String.ofList b) = true) :
    Respelled (o.text ++ (blank ++ '"' :: (quote a ++ '"' :: ending)))
      (o.text ++ (blank ++ '"' :: (quote b ++ '"' :: ending))) :=
  .marker (o.parse?_quote hnumber hne hblank a ending)
    (o.parse?_quote hnumber hne hblank b ending) (.some h)

end Marker

open Marker

/-- The same line of the same file, however the file is spelled. -/
def Origin.Same (o o' : Origin) : Prop :=
  FilePath.same o.file o'.file = true ∧ o.line = o'.line

namespace Prepared

/-- The scan is at the same line of the same file, however the file is spelled. -/
def SamePlace (a b : String × ℕ) : Prop :=
  FilePath.same a.1 b.1 = true ∧ a.2 = b.2

theorem advance_respelled {line line' : List Char} (h : Respelled line line')
    {next next' : String × ℕ} (hnext : SamePlace next next') :
    SamePlace (advance next line) (advance next' line') := by
  cases h with
  | same =>
    rw [advance, advance]
    cases parse? line with
    | none => exact ⟨hnext.1, congrArg (· + 1) hnext.2⟩
    | some m =>
      obtain ⟨number, file⟩ := m
      cases file with
      | none => exact ⟨hnext.1, rfl⟩
      | some name => exact ⟨FilePath.same_self _, rfl⟩
  | marker hm hm' hfiles =>
    rw [advance, advance, hm, hm']
    cases hfiles with
    | none => exact ⟨hnext.1, rfl⟩
    | some hsame => exact ⟨hsame, rfl⟩

theorem keep_respelled {line line' : List Char} (h : Respelled line line')
    {next next' : String × ℕ} (hnext : SamePlace next next') :
    (keep next line).1 = (keep next' line').1 ∧
      Option.Rel Origin.Same (keep next line).2 (keep next' line').2 := by
  cases h with
  | same =>
    rw [keep, keep]
    split
    · exact ⟨rfl, .none⟩
    · exact ⟨rfl, .some hnext⟩
  | marker hm hm' hfiles =>
    rw [keep, keep, isMarker, isMarker, hm, hm']
    exact ⟨rfl, .none⟩

/-- **Respelled lines are kept as the same lines**, with the same origins but for the spelling of
the files. -/
theorem keepAll_respelled {lines lines' : List (List Char)}
    (h : List.Forall₂ Respelled lines lines') {next next' : String × ℕ}
    (hnext : SamePlace next next') :
    List.Forall₂ (fun a b => a.1 = b.1 ∧ Option.Rel Origin.Same a.2 b.2)
      (keepAll next lines) (keepAll next' lines') := by
  induction h generalizing next next' with
  | nil => exact .nil
  | cons hline _ ih =>
    exact .cons (keep_respelled hline hnext) (ih (advance_respelled hline hnext))

theorem foldl_advance_respelled {lines lines' : List (List Char)}
    (h : List.Forall₂ Respelled lines lines') {next next' : String × ℕ}
    (hnext : SamePlace next next') :
    SamePlace (lines.foldl advance next) (lines'.foldl advance next') := by
  induction h generalizing next next' with
  | nil => exact hnext
  | cons hline _ ih => exact ih (advance_respelled hline hnext)

/-- Respelled lines are counted alike. -/
theorem countable_respelled {lines lines' : List (List Char)}
    (h : List.Forall₂ Respelled lines lines') : Countable lines ↔ Countable lines' := by
  have hnumber : ∀ n, numberBehind (lines.take n) = numberBehind (lines'.take n) := by
    intro n
    have hstart : SamePlace ("", 1) ("", 1) := ⟨FilePath.same_self _, rfl⟩
    have hplace := (foldl_advance_respelled (List.forall₂_take n h) hstart).2
    rwa [foldl_advance, foldl_advance] at hplace
  simp only [Marker.Countable, h.length_eq, hnumber]

theorem rel_join_getElem? {as bs : List (Option Origin)}
    (h : List.Forall₂ (Option.Rel Origin.Same) as bs) (k : ℕ) :
    Option.Rel Origin.Same as[k]?.join bs[k]?.join := by
  induction h generalizing k with
  | nil => exact .none
  | cons hline _ ih =>
    cases k with
    | zero => exact hline
    | succ k => exact ih k

/-- The scan has the origin of a line where the line is. -/
theorem resolve_prepared_succ (primary output : String) (k : ℕ) :
    (prepared primary output).resolve (k + 1) =
      ((keepAll (primary, 1) (Text.lines output.toList)).map Prod.snd)[k]?.join := by
  simp [prepared, resolve]

section Respelled

variable {primary primary' output output' : String}
  (hprimary : FilePath.same primary primary' = true)
  (h : List.Forall₂ Respelled (Text.lines output.toList) (Text.lines output'.toList))
include hprimary h

theorem text_respelled : (prepared primary output).text = (prepared primary' output').text := by
  have hlines : (keepAll (primary, 1) (Text.lines output.toList)).map Prod.fst =
      (keepAll (primary', 1) (Text.lines output'.toList)).map Prod.fst := by
    have hstart : SamePlace (primary, 1) (primary', 1) := ⟨hprimary, rfl⟩
    rw [← List.forall₂_eq_eq_eq, List.forall₂_map_left_iff, List.forall₂_map_right_iff]
    exact (keepAll_respelled h hstart).imp fun _ _ hline => hline.1
  rw [map_fst_keepAll, map_fst_keepAll] at hlines
  exact congrArg (fun ls => String.ofList (Text.unlines ls)) hlines

/-- A line comes from the same line of the same file, or from none. -/
theorem resolve_respelled (i : ℕ) :
    Option.Rel Origin.Same ((prepared primary output).resolve i)
      ((prepared primary' output').resolve i) := by
  cases i with
  | zero => exact .none
  | succ k =>
    rw [resolve_prepared_succ, resolve_prepared_succ]
    refine rel_join_getElem? ?_ k
    have hstart : SamePlace (primary, 1) (primary', 1) := ⟨hprimary, rfl⟩
    rw [List.forall₂_map_left_iff, List.forall₂_map_right_iff]
    exact (keepAll_respelled h hstart).imp fun _ _ hline => hline.2

theorem resolvePrimary_respelled (i : ℕ) :
    (prepared primary output).resolvePrimary i =
      (prepared primary' output').resolvePrimary i := by
  have horigin := resolve_respelled hprimary h i
  rw [resolvePrimary, resolvePrimary]
  generalize (prepared primary output).resolve i = origin,
    (prepared primary' output').resolve i = origin' at horigin
  cases horigin with
  | none => rfl
  | some hsame =>
    change (if FilePath.same _ primary = true then _ else _) =
      if FilePath.same _ primary' = true then _ else _
    rw [FilePath.same_congr hsame.1 hprimary, hsame.2]

end Respelled

/-- A line that the markers assign to another path is no line of the primary file. -/
theorem resolvePrimary_eq_none {primary output : String} {k : ℕ}
    (h : FilePath.same (fileBehind primary ((Text.lines output.toList).take k)) primary =
      false) :
    (prepared primary output).resolvePrimary (k + 1) = none := by
  have hprimary : (prepared primary output).primary = primary := rfl
  rw [resolvePrimary, resolve_prepared, hprimary]
  cases horigin : Origin.ofLine? primary (Text.lines output.toList) (k + 1) with
  | none => rfl
  | some origin =>
    obtain ⟨j, line, hj, -, -, rfl⟩ := Origin.exists_of_ofLine? horigin
    obtain rfl : k = j := Nat.succ.inj hj
    simp [h]

/-- What is found does not depend on how the source is called in failures. -/
theorem toOption_findings (parse : Reader) (path path' : String)
    (source : Except Stop Prepared) :
    (Analysis.findings parse path source).toOption =
      (Analysis.findings parse path' source).toOption := by
  cases source with
  | error stop => rfl
  | ok p =>
    simp only [Analysis.findings]
    cases parse p.text <;> rfl

/-- **Spellings of one path cannot be told apart.** If the primary file and the files of markers
are spelled in another way, each line comes from the same line of the primary file as before or from
none as before, so every reader gives the same. What a marker assigns to another path is no line of
the primary file. The rest says when two spellings are one path, and when they are not. -/
theorem ofPreprocessed_respelled_exact :
    (∀ (o : Opening) (blank a b ending : List Char), o.number < lineBound → blank ≠ [] →
      AreBlank blank → FilePath.same (String.ofList a) (String.ofList b) = true →
      Respelled (o.text ++ (blank ++ '"' :: (quote a ++ '"' :: ending)))
        (o.text ++ (blank ++ '"' :: (quote b ++ '"' :: ending)))) ∧
    (∀ primary primary' output output', FilePath.same primary primary' = true →
      List.Forall₂ Respelled (Text.lines output.toList) (Text.lines output'.toList) →
      (ofPreprocessed primary output = .error .overflow ∧
          ofPreprocessed primary' output' = .error .overflow ∨
        ∃ p p', ofPreprocessed primary output = .ok p ∧
          ofPreprocessed primary' output' = .ok p' ∧
          ∀ i, p.resolvePrimary i = p'.resolvePrimary i) ∧
      (∀ parse path, Analysis.findings parse path (ofPreprocessed primary output) =
        Analysis.findings parse path (ofPreprocessed primary' output')) ∧
      ∀ parse path path',
        (Analysis.findings parse path (ofPreprocessed primary output)).toOption =
          (Analysis.findings parse path' (ofPreprocessed primary' output')).toOption) ∧
    (∀ primary output p k, ofPreprocessed primary output = .ok p →
      FilePath.same (fileBehind primary ((Text.lines output.toList).take k)) primary = false →
      p.resolvePrimary (k + 1) = none) ∧
    (∀ a b, FilePath.same a b = true ↔
      FilePath.isAbsolute a.toList = FilePath.isAbsolute b.toList ∧
      FilePath.startsHere a.toList = FilePath.startsHere b.toList ∧
      FilePath.names a.toList = FilePath.names b.toList) ∧
    (∀ a b, FilePath.same (a ++ "//" ++ b) (a ++ "/" ++ b) = true) ∧
    (∀ a b, FilePath.same (a ++ "/./" ++ b) (a ++ "/" ++ b) = true) ∧
    (∀ a, a ≠ "" → FilePath.same (a ++ "/") a = true) ∧
    (∀ a, FilePath.same ("./" ++ a) a = FilePath.startsHere a.toList) ∧
    (∀ a b, FilePath.same a b = true →
      FilePath.ascents a = FilePath.ascents b) ∧
    ∀ dir a, FilePath.same (dir ++ "/../" ++ a) a = false := by
  refine ⟨fun o _ _ _ ending hnumber hne hblank => respelled_quote o hnumber hne hblank ending,
    fun primary primary' output output' hprimary h => ?_, ?_, FilePath.same_iff,
    FilePath.same_repeated, FilePath.same_inner, ?_, FilePath.same_here, ?_,
    FilePath.same_through⟩
  · have hlines := resolvePrimary_respelled hprimary h
    have hfindings : ∀ parse path,
        Analysis.findings parse path (ofPreprocessed primary output) =
          Analysis.findings parse path (ofPreprocessed primary' output') := by
      intro parse path
      simp only [ofPreprocessed_eq_ite, countable_respelled h]
      split
      · exact findings_congr (text_respelled hprimary h) (fun _ _ d _ => hlines d.line) path
      · rfl
    refine ⟨?_, hfindings, fun parse path path' => ?_⟩
    · by_cases hcount : Countable (Text.lines output.toList)
      · exact .inr ⟨_, _, ofPreprocessed_of_countable hcount primary,
          ofPreprocessed_of_countable ((countable_respelled h).mp hcount) primary', hlines⟩
      · refine .inl ⟨?_, ?_⟩
        · rw [ofPreprocessed_eq_ite, if_neg hcount]
        · rw [ofPreprocessed_eq_ite, if_neg (mt (countable_respelled h).mpr hcount)]
    · rw [hfindings, toOption_findings]
  · intro primary output p k hp hother
    obtain ⟨-, rfl⟩ := ofPreprocessed_eq_ok_iff.mp hp
    exact resolvePrimary_eq_none hother
  · exact fun a => FilePath.same_trailing
  · exact fun a b => FilePath.ascents_eq_of_same

/-- A file that is entered again behind a header, under a name with a quote in it. -/
def enteredOutput : String :=
  "int a;\n# 1 \"src/inc.h\" 1\nint b;\n# 2 \"src/\\\"x\\\".c\" 2\nint c;\n"

/-- The same output, with other spellings of the two files. -/
def reenteredOutput : String :=
  "int a;\n# 1 \"src//inc.h\" 1\nint b;\n# 2 \"src/./\\\"x\\\".c/\" 2\nint c;\n"

/-- The same output, with a way to the file through another directory. -/
def detouredOutput : String :=
  "int a;\n# 1 \"src/inc.h\" 1\nint b;\n# 2 \"lib/../src/\\\"x\\\".c\" 2\nint c;\n"

theorem ofPreprocessed_respelled_exact_entered :
    ∃ p q r, ofPreprocessed "src/\"x\".c" enteredOutput = .ok p ∧
      ofPreprocessed "src//\"x\".c" reenteredOutput = .ok q ∧
      ofPreprocessed "src/\"x\".c" detouredOutput = .ok r ∧
      p.resolvePrimary 5 = some 2 ∧ q.resolvePrimary 5 = some 2 ∧
      r.resolvePrimary 5 = none := by
  have hlines : Text.lines enteredOutput.toList =
      ["int a;".toList, "# 1 \"src/inc.h\" 1".toList, "int b;".toList,
        "# 2 \"src/\\\"x\\\".c\" 2".toList, "int c;".toList] := by
    decide +kernel
  have hlines' : Text.lines reenteredOutput.toList =
      ["int a;".toList, "# 1 \"src//inc.h\" 1".toList, "int b;".toList,
        "# 2 \"src/./\\\"x\\\".c/\" 2".toList, "int c;".toList] := by
    decide +kernel
  obtain ⟨hquote, hrespelled, hother, -, -, -, -, -, -, hthrough⟩ :=
    ofPreprocessed_respelled_exact
  have hheader : Respelled "# 1 \"src/inc.h\" 1".toList "# 1 \"src//inc.h\" 1".toList := by
    obtain ⟨o, htext, hnumber⟩ := Form.sign.exists_opening 1
    have hmarker := hquote o [' '] "src/inc.h".toList "src//inc.h".toList " 1".toList
      (by rw [hnumber]; decide) (by decide) (by decide) (by decide +kernel)
    rw [htext] at hmarker
    exact hmarker
  have hentry : Respelled "# 2 \"src/\\\"x\\\".c\" 2".toList
      "# 2 \"src/./\\\"x\\\".c/\" 2".toList := by
    obtain ⟨o, htext, hnumber⟩ := Form.sign.exists_opening 2
    have hmarker := hquote o [' '] "src/\"x\".c".toList "src/./\"x\".c/".toList " 2".toList
      (by rw [hnumber]; decide) (by decide) (by decide) (by decide +kernel)
    rw [htext] at hmarker
    exact hmarker
  have h : List.Forall₂ Respelled (Text.lines enteredOutput.toList)
      (Text.lines reenteredOutput.toList) := by
    rw [hlines, hlines']
    exact .cons (.same _) (.cons hheader (.cons (.same _) (.cons hentry (.cons (.same _) .nil))))
  have hp : ofPreprocessed "src/\"x\".c" enteredOutput =
      .ok (prepared "src/\"x\".c" enteredOutput) :=
    ofPreprocessed_of_countable (by decide +kernel) _
  have hr : ofPreprocessed "src/\"x\".c" detouredOutput =
      .ok (prepared "src/\"x\".c" detouredOutput) :=
    ofPreprocessed_of_countable (by decide +kernel) _
  have hentered : (prepared "src/\"x\".c" enteredOutput).resolvePrimary 5 = some 2 := by
    decide +kernel
  obtain ⟨hboth, -⟩ :=
    hrespelled "src/\"x\".c" "src//\"x\".c" enteredOutput reenteredOutput (by decide +kernel) h
  rcases hboth with ⟨hoverflow, -⟩ | ⟨p, q, hp', hq, hsame⟩
  · rw [hp] at hoverflow
    cases hoverflow
  · obtain rfl := Except.ok.inj (hp.symm.trans hp')
    refine ⟨_, q, _, hp, hq, hr, hentered, ?_, hother _ _ _ 4 hr ?_⟩
    · rw [← hsame 5, hentered]
    · have hfile : fileBehind "src/\"x\".c" ((Text.lines detouredOutput.toList).take 4) =
          "lib/../src/\"x\".c" := by
        decide +kernel
      rw [hfile]
      exact hthrough "lib" "src/\"x\".c"

end Prepared

end Uninit
