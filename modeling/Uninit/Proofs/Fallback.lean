import Mathlib.Data.List.Basic
import Uninit.Analysis
import Uninit.Host.Memory

/-!
# Falling back to the file itself

A preprocessor that is not installed may be passed over. Then the file is read as it stands, and
nothing that follows can tell this from a run without a preprocessor: neither what the file holds
nor whether it can be read makes a difference. This is the only way in which a launch can end where
passing over is allowed. A preprocessor that was started and failed is never passed over.

## Main statements

* `Prepared.loadThrough_ne_iff`: when it makes a difference that passing over is allowed
* `Settings.run_fallback_exact`: what a run gives if a preprocessor is missing or fails
-/
namespace Uninit

/-- Whether a command is not found. -/
def Launch.isMissing : Launch → Bool
  | refused cause => cause.isNotFound
  | exited _ => false

namespace Prepared

variable {p : Preprocessor} {h : Host} {path : String}

theorem loadThrough_of_not_isFile (hfile : h.isFile path = false) :
    loadThrough p h path = .error (.failed (.noFile path)) := by
  simp [loadThrough, hfile]

theorem loadThrough_of_isMissing (hfile : h.isFile path = true)
    (hlaunch : (h.launch p.command (p.arguments path)).isMissing = true) :
    loadThrough p h path =
      if p.fallback then load h path else .error (.failed (.noPreprocessor p.command)) := by
  rw [loadThrough, hfile]
  cases hresult : h.launch p.command (p.arguments path) with
  | refused cause =>
    rw [hresult] at hlaunch
    have hcause : cause.isNotFound = true := hlaunch
    simp [hcause]
  | exited result =>
    rw [hresult] at hlaunch
    cases hlaunch

theorem loadThrough_of_unsuccessful {result : Exit} (hfile : h.isFile path = true)
    (hlaunch : h.launch p.command (p.arguments path) = .exited result)
    (hcode : result.code ≠ some 0) :
    loadThrough p h path = .error (.failed (.unsuccessful p.command result.code
      (String.ofList (Text.trim (Text.Utf8.decode result.errors))))) := by
  simp [loadThrough, hfile, hlaunch, hcode]

/-- A preprocessor that is installed is used, whether or not it may be passed over. -/
theorem loadThrough_congr {q : Preprocessor} (hcommand : p.command = q.command)
    (harguments : p.arguments path = q.arguments path)
    (hlaunch : (h.launch p.command (p.arguments path)).isMissing = false) :
    loadThrough p h path = loadThrough q h path := by
  rw [loadThrough, loadThrough, ← hcommand, ← harguments]
  cases hresult : h.launch p.command (p.arguments path) with
  | refused cause =>
    rw [hresult] at hlaunch
    have hcause : cause.isNotFound = false := hlaunch
    simp [hcause]
  | exited result => rfl

/-- A file that is read as it stands is not missing a preprocessor. -/
theorem load_ne_noPreprocessor (h : Host) (path command : String) :
    load h path ≠ .error (.failed (.noPreprocessor command)) := by
  rw [load]
  cases h.read path <;> simp

/-- **When a preprocessor is passed over**: it makes a difference that this is allowed exactly if
there is a regular file and the command is not found. -/
theorem loadThrough_ne_iff (p : Preprocessor) (h : Host) (path : String) :
    loadThrough { p with fallback := true } h path ≠
        loadThrough { p with fallback := false } h path ↔
      h.isFile path = true ∧ (h.launch p.command (p.arguments path)).isMissing = true := by
  constructor
  · intro hne
    by_contra hnone
    refine hne ?_
    cases hfile : h.isFile path with
    | false => rw [loadThrough_of_not_isFile hfile, loadThrough_of_not_isFile hfile]
    | true =>
      exact loadThrough_congr rfl rfl
        (Bool.eq_false_iff.mpr fun hlaunch => hnone ⟨hfile, hlaunch⟩)
  · rintro ⟨hfile, hlaunch⟩
    have hpassed := loadThrough_of_isMissing (p := { p with fallback := true }) hfile hlaunch
    have hrefused := loadThrough_of_isMissing (p := { p with fallback := false }) hfile hlaunch
    rw [hpassed, hrefused]
    exact load_ne_noPreprocessor h path p.command

end Prepared

namespace Settings

/-- A run depends on how a file is loaded only through what is loaded. -/
theorem run_congr {s t : Settings} {h : Host} {path : String} (hformat : s.format = t.format)
    (hload : s.load h path = t.load h path) (parse : Reader) (out : Sink) :
    s.run parse h path out = t.run parse h path out := by
  rw [run, run, hformat, hload]

/-- A run that cannot load its file fails for the same reason and writes nothing. -/
theorem run_of_load_error {s : Settings} {h : Host} {path : String} {stop : Stop}
    (hload : s.load h path = .error stop) (parse : Reader) (out : Sink) :
    s.run parse h path out = (.error stop, out) := by
  rw [run, hload]
  rfl

/-- Nor does a run give findings if there is no regular file to load. -/
theorem exists_run_of_loadThrough_error {format : Format} {p : Preprocessor} {h : Host}
    {path : String} {failure : Failure} {chain : List String} (hchain : failure.chain = chain)
    (hload : h.isFile path = true → Prepared.loadThrough p h path = .error (.failed failure))
    (parse : Reader) (out : Sink) :
    ∃ failure, run ⟨format, some p⟩ parse h path out = (.error (.failed failure), out) ∧
      (h.isFile path = true → failure.chain = chain) := by
  cases hfile : h.isFile path with
  | true =>
    have hrun := run_of_load_error (s := ⟨format, some p⟩) (hload hfile) parse out
    exact ⟨failure, hrun, fun _ => hchain⟩
  | false =>
    have hnone := Prepared.loadThrough_of_not_isFile (p := p) hfile
    have hrun := run_of_load_error (s := ⟨format, some p⟩) hnone parse out
    exact ⟨.noFile path, hrun, by simp⟩

/-- **What a run gives if the preprocessor is missing or fails.** If the command is not found and
may be passed over, the run gives for a regular file what it gives without a preprocessor. If it is
not found and may not be passed over, or ends without success, the run fails and writes nothing. -/
theorem run_fallback_exact (parse : Reader) (format : Format) (p : Preprocessor) (h : Host)
    (path : String) (out : Sink) :
    (h.isFile path = true → (h.launch p.command (p.arguments path)).isMissing = true →
      p.fallback = true →
      run ⟨format, some p⟩ parse h path out = run ⟨format, none⟩ parse h path out) ∧
    (∀ result, h.launch p.command (p.arguments path) = .exited result → result.code ≠ some 0 →
      ∃ failure, run ⟨format, some p⟩ parse h path out = (.error (.failed failure), out) ∧
        (h.isFile path = true → failure.chain =
          [p.command ++ " failed with exit code " ++ Failure.showCode result.code ++ ": " ++
            String.ofList (Text.trim (Text.Utf8.decode result.errors))])) ∧
    ((h.launch p.command (p.arguments path)).isMissing = true → p.fallback = false →
      ∃ failure, run ⟨format, some p⟩ parse h path out = (.error (.failed failure), out) ∧
        (h.isFile path = true →
          failure.chain = ["Preprocessor \x60" ++ p.command ++ "\x60 not found in PATH"])) ∧
    (Prepared.loadThrough { p with fallback := true } h path ≠
        Prepared.loadThrough { p with fallback := false } h path ↔
      h.isFile path = true ∧ (h.launch p.command (p.arguments path)).isMissing = true) := by
  refine ⟨fun hfile hlaunch hallowed => ?_, fun result hlaunch hcode => ?_,
    fun hlaunch hforbidden => ?_, Prepared.loadThrough_ne_iff p h path⟩
  · have hload : Prepared.loadThrough p h path = Prepared.load h path :=
      (Prepared.loadThrough_of_isMissing hfile hlaunch).trans (if_pos hallowed)
    exact run_congr (s := ⟨format, some p⟩) (t := ⟨format, none⟩) rfl hload parse out
  · exact exists_run_of_loadThrough_error rfl
      (fun hfile => Prepared.loadThrough_of_unsuccessful hfile hlaunch hcode) parse out
  · have hload : h.isFile path = true →
        Prepared.loadThrough p h path = .error (.failed (.noPreprocessor p.command)) := by
      intro hfile
      rw [Prepared.loadThrough_of_isMissing hfile hlaunch, hforbidden]
      rfl
    exact exists_run_of_loadThrough_error rfl hload parse out

/-- A machine with one file, which holds a byte that is no text. -/
def latinHost : Host :=
  Memory.host <| .directory
    [("a.c".toList, .file ("int a; /* ".toUTF8.toList ++ [0xE9] ++ " */\n".toUTF8.toList) false)]

def latinUnit : TranslationUnit :=
  ⟨[.decl ⟨some "a", 1, "int a", none⟩]⟩

/-- There is no `cc`, and `cat` does not know the option that it is given. -/
theorem run_fallback_exact_latin :
    latinHost.isFile "a.c" = true ∧
      (latinHost.launch "cc" ["-Iinc", "-DN=1", "a.c"]).isMissing = true ∧
      (run ⟨.text, some ⟨"cc", ["inc"], ["N=1"], true⟩⟩ (fun _ => .ok latinUnit) latinHost "a.c"
        (.empty none)).1 = .ok [⟨1, some "a", "int a"⟩] ∧
      (∃ failure, run ⟨.text, some ⟨"cc", ["inc"], ["N=1"], false⟩⟩ (fun _ => .ok latinUnit)
          latinHost "a.c" (.empty none) = (.error (.failed failure), .empty none) ∧
        failure.chain = ["Preprocessor \x60cc\x60 not found in PATH"]) ∧
      ∃ failure, run ⟨.json, some ⟨"cat", ["inc"], [], true⟩⟩ (fun _ => .ok latinUnit) latinHost
          "a.c" (.empty none) = (.error (.failed failure), .empty none) ∧
        failure.chain = ["cat failed with exit code Some(1): cat: invalid option -- 'I'\n" ++
          "Try 'cat --help' for more information."] := by
  have hfile : latinHost.isFile "a.c" = true := by decide +kernel
  have hmissing : (latinHost.launch "cc" ["-Iinc", "-DN=1", "a.c"]).isMissing = true := by
    decide +kernel
  have hfails : ∃ result, latinHost.launch "cat" ["-Iinc", "a.c"] = .exited result ∧
      result.code = some 1 ∧
      Text.trim (Text.Utf8.decode result.errors) = ("cat: invalid option -- 'I'\n" ++
        "Try 'cat --help' for more information.").toList := by
    exact ⟨_, rfl, by decide +kernel, by decide +kernel⟩
  refine ⟨hfile, hmissing, ?_, ?_, ?_⟩
  · rw [(run_fallback_exact _ .text ⟨"cc", ["inc"], ["N=1"], true⟩ latinHost "a.c" _).1 hfile
      hmissing rfl]
    decide +kernel
  · obtain ⟨failure, hrun, hchain⟩ := (run_fallback_exact (fun _ => .ok latinUnit) .text
      ⟨"cc", ["inc"], ["N=1"], false⟩ latinHost "a.c" (.empty none)).2.2.1 hmissing rfl
    exact ⟨failure, hrun, hchain hfile⟩
  · obtain ⟨result, hlaunch, hcode, herrors⟩ := hfails
    obtain ⟨failure, hrun, hchain⟩ := (run_fallback_exact (fun _ => .ok latinUnit) .json
      ⟨"cat", ["inc"], [], true⟩ latinHost "a.c" (.empty none)).2.1 result hlaunch
      (by rw [hcode]; decide)
    refine ⟨failure, hrun, (hchain hfile).trans ?_⟩
    rw [herrors, hcode]
    decide +kernel

end Settings

end Uninit
