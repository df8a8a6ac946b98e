import Uninit.Analysis
import Uninit.Proofs.Origins
import Uninit.Proofs.Walk

/-!
# What an analysis keeps

An analysis drops a finding whose line has no origin just as it drops one from another file. The
first never happens to a reader that reports lines on which something stands: only blanked lines
have no origin, and lines that are not there. So what is dropped are the findings of other files
and no others.

## Main definitions

* `Prepared.Input`: what a prepared source is made from
* `Input.origin?`: where a line of it came from

## Main statements

* `findings_analysis_exact`: the findings of an analysis
-/
namespace Uninit

/-- Line `i` of a text, counted from one and without its line feed. -/
def Text.lineAt? (text : String) : ℕ → Option (List Char)
  | 0 => none
  | i + 1 => (splitFeeds text.toList)[i]?

namespace Prepared

/-- What a prepared source is made from: a text as it stands in its file, or the output of a
preprocessor. -/
inductive Input where
  | raw (text : String)
  | preprocessed (output : String)

namespace Input

/-- The prepared source for a primary file. -/
def prepare (primary : String) : Input → Except Stop Prepared
  | raw text => .ok (Prepared.raw primary text)
  | preprocessed output => ofPreprocessed primary output

/-- Where a line came from. -/
def origin? (primary : String) : Input → ℕ → Option Origin
  | raw _, i => some ⟨primary, i⟩
  | preprocessed output, i => Origin.ofLine? primary (Text.lines output.toList) i

/-- No line number reaches the bound. -/
def Countable : Input → Prop
  | raw _ => True
  | preprocessed output => Marker.Countable (Text.lines output.toList)

/-- What is prepared if no count overflows. -/
def prepared (primary : String) : Input → Prepared
  | raw text => Prepared.raw primary text
  | preprocessed output => Prepared.prepared primary output

theorem prepare_of_countable {input : Input} (h : input.Countable) (primary : String) :
    input.prepare primary = .ok (input.prepared primary) := by
  cases input with
  | raw text => rfl
  | preprocessed output => exact ofPreprocessed_of_countable h primary

theorem primary_prepared (primary : String) (input : Input) :
    (input.prepared primary).primary = primary := by
  cases input <;> rfl

theorem resolve_prepared (input : Input) (primary : String) (i : ℕ) :
    (input.prepared primary).resolve i = input.origin? primary i := by
  cases input with
  | raw text => rfl
  | preprocessed output => exact Prepared.resolve_prepared primary output i

/-- The line of the primary file that a line came from. -/
theorem resolvePrimary_prepared {input : Input} {primary : String} {i : ℕ} {origin : Origin}
    (ho : input.origin? primary i = some origin) :
    (input.prepared primary).resolvePrimary i =
      if Text.FilePath.same origin.file primary then some origin.line else none := by
  rw [resolvePrimary, resolve_prepared, ho, primary_prepared]

/-- A line on which something stands has an origin. -/
theorem exists_origin {input : Input} {primary : String} {i : ℕ} {line : List Char}
    (h : Text.lineAt? (input.prepared primary).text i = some line) (hline : line ≠ []) :
    ∃ origin, input.origin? primary i = some origin := by
  cases input with
  | raw text => exact ⟨_, rfl⟩
  | preprocessed output =>
    cases i with
    | zero => simp [Text.lineAt?] at h
    | succ i =>
      rw [Text.lineAt?, prepared, splitFeeds_text_prepared, List.getElem?_append,
        List.length_map] at h
      split at h
      case isTrue hi =>
        rw [List.getElem?_map, List.getElem?_eq_getElem hi, Option.map_some, Option.some_inj] at h
        rw [origin?, Origin.ofLine?, List.getElem?_eq_getElem hi]
        -- a marker would have left an empty line
        split at h
        · exact absurd h.symm hline
        · next hmarker => exact ⟨_, if_neg hmarker⟩
      case isFalse =>
        have hempty : line = [] := by simpa using List.mem_of_getElem? h
        exact absurd hempty hline

end Input

/-- The findings of a unit that have origins, filtered by their files. -/
theorem findingsOf_eq_of_origins {p : Prepared} {u : TranslationUnit} (origin : Finding → Origin)
    (h : ∀ f ∈ Finding.ofUnit u, p.resolvePrimary f.line =
      if Text.FilePath.same (origin f).file p.primary then some (origin f).line else none) :
    p.findingsOf u = ((Finding.ofUnit u).filter fun f =>
      Text.FilePath.same (origin f).file p.primary).map fun f =>
        { f with line := (origin f).line } := by
  rw [findingsOf, ← List.filterMap_eq_map, List.filterMap_filter]
  refine List.filterMap_congr fun f hf => ?_
  rw [h f hf]
  split <;> rfl

end Prepared

/-- **An analysis keeps exactly the findings of the primary file.** If every declaration of the
unit is on a line on which something stands, every finding has an origin, and those whose file is
the primary file remain, in the order of the unit, with the line numbers of that file. -/
theorem findings_analysis_exact (parse : Reader) (path primary : String) (input : Prepared.Input)
    (hcount : input.Countable) :
    ∃ p, input.prepare primary = .ok p ∧
      ∀ u, parse p.text = .ok u →
        (∀ d ∈ Decl.ofUnit u,
          ∃ line, Text.lineAt? p.text d.line = some line ∧ line ≠ []) →
        ∃ origin : Finding → Origin,
          (∀ f ∈ Finding.ofUnit u, input.origin? primary f.line = some (origin f)) ∧
            Analysis.findings parse path (input.prepare primary) =
              .ok (((Finding.ofUnit u).filter fun f =>
                Text.FilePath.same (origin f).file primary).map fun f =>
                  { f with line := (origin f).line }) := by
  refine ⟨_, Prepared.Input.prepare_of_countable hcount primary, fun u hu hlines => ?_⟩
  let origin (f : Finding) : Origin := (input.origin? primary f.line).getD ⟨primary, f.line⟩
  have horigin : ∀ f ∈ Finding.ofUnit u, input.origin? primary f.line = some (origin f) := by
    intro f hf
    obtain ⟨d, hd, -, rfl⟩ := Finding.mem_ofUnit hf
    obtain ⟨line, hat, hline⟩ := hlines d hd
    obtain ⟨o, ho⟩ := Prepared.Input.exists_origin hat hline
    have hd' : input.origin? primary (Finding.ofDecl d).line = some o := ho
    simp [origin, hd']
  refine ⟨origin, horigin, ?_⟩
  have hfindings := Prepared.findingsOf_eq_of_origins (p := input.prepared primary) origin
    fun f hf => by
      rw [Prepared.Input.resolvePrimary_prepared (horigin f hf), Prepared.Input.primary_prepared]
  simp only [Analysis.findings, Prepared.Input.prepare_of_countable hcount, hu, hfindings,
    Prepared.Input.primary_prepared]

/-- A header between two declarations of the file, which is left by another spelling of its path. -/
def headerInput : Prepared.Input :=
  .preprocessed "int a;\n# 1 \"inc.h\" 1\nint b;\n# 2 \"src/./a.c\" 2\nint c;\n"

def headerUnit : TranslationUnit :=
  ⟨[.decl ⟨some "a", 1, "int a", none⟩, .decl ⟨some "b", 3, "int b", none⟩,
    .decl ⟨some "c", 5, "int c", none⟩]⟩

theorem findings_analysis_exact_header :
    Analysis.findings (fun _ => .ok headerUnit) "src/a.c" (headerInput.prepare "src/a.c") =
      .ok [⟨1, some "a", "int a"⟩, ⟨2, some "c", "int c"⟩] := by
  have hcount : headerInput.Countable := by
    simp only [headerInput, Prepared.Input.Countable]
    decide +kernel
  obtain ⟨p, hp, hkept⟩ := findings_analysis_exact (fun _ => .ok headerUnit) "src/a.c" "src/a.c"
    headerInput hcount
  have hprepared : p = headerInput.prepared "src/a.c" :=
    Except.ok.inj (hp.symm.trans (Prepared.Input.prepare_of_countable hcount _))
  have hlines : ∀ d ∈ Decl.ofUnit headerUnit, ∃ line,
      Text.lineAt? p.text d.line = some line ∧ line ≠ [] := by
    have hsome : ∀ d ∈ Decl.ofUnit headerUnit,
        (Text.lineAt? (headerInput.prepared "src/a.c").text d.line).any (· ≠ []) = true := by
      decide +kernel
    intro d hd
    obtain ⟨line, hat, hline⟩ := (Option.any_eq_true _ _).mp (hsome d hd)
    exact ⟨line, hprepared ▸ hat, by simpa using hline⟩
  obtain ⟨origin, horigin, hfindings⟩ := hkept headerUnit rfl hlines
  have hunit : Finding.ofUnit headerUnit =
      [⟨1, some "a", "int a"⟩, ⟨3, some "b", "int b"⟩, ⟨5, some "c", "int c"⟩] := by
    decide
  have horigins : [headerInput.origin? "src/a.c" 1, headerInput.origin? "src/a.c" 3,
      headerInput.origin? "src/a.c" 5] =
      [some ⟨"src/a.c", 1⟩, some ⟨"inc.h", 1⟩, some ⟨"src/./a.c", 2⟩] := by
    decide +kernel
  have hsame : [Text.FilePath.same "src/a.c" "src/a.c", Text.FilePath.same "inc.h" "src/a.c",
      Text.FilePath.same "src/./a.c" "src/a.c"] = [true, false, true] := by
    decide +kernel
  simp only [List.cons.injEq, and_true] at horigins hsame
  simp only [hunit, List.mem_cons, List.not_mem_nil, or_false, forall_eq_or_imp, forall_eq,
    horigins, Option.some_inj] at horigin
  simp [hfindings, hunit, ← horigin.1, ← horigin.2.1, ← horigin.2.2, hsame]

end Uninit
