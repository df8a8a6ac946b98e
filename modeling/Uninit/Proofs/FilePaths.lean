import Mathlib.Data.List.Basic
import Uninit.Text.FilePath

/-!
# When two spellings are the same path

Paths are compared by their components. What that amounts to can be told from the spellings: both
begin with a slash or none does, both begin with the piece `.` or none does, and but for empty
pieces and pieces `.` they have the same pieces between their slashes. So slashes may be repeated
or put at the end and a piece `.` may be put inside without making another path of it, while a
leading `.` and any `..` make one.

## Main definitions

* `isAbsolute`, `startsHere`, `names`: what a spelling is compared by

## Main statements

* `components_eq`: the components of a path
* `same_iff`: which spellings are the same path
-/
namespace Uninit.Text.FilePath

def isAbsolute (path : List Char) : Bool :=
  path.head? == some '/'

/-- Whether the first piece of a path is `.`. -/
def startsHere (path : List Char) : Bool :=
  (splitSlashes path).head? == some ['.']

def isName (piece : List Char) : Bool :=
  !(piece == [] || piece == ['.'])

def names (path : List Char) : List (List Char) :=
  (splitSlashes path).filter isName

/-! ## Pieces -/

/-- Cutting at slashes is cutting at one character. -/
theorem splitSlashes_eq_splitOn (cs : List Char) : splitSlashes cs = cs.splitOn '/' := by
  induction cs with
  | nil => rfl
  | cons c rest ih =>
    rw [splitSlashes, List.splitOn_cons_eq_if_modifyHead, ih]
    obtain ⟨piece, more, hrest⟩ :=
      List.exists_cons_of_ne_nil (List.splitOn_ne_nil '/' rest)
    by_cases hc : c = '/' <;> simp [hc, hrest]

theorem splitSlashes_append (a b : List Char) :
    splitSlashes (a ++ '/' :: b) = splitSlashes a ++ splitSlashes b := by
  simp only [splitSlashes_eq_splitOn, List.splitOn_append_cons_self]

theorem splitSlashes_ne_nil (cs : List Char) : splitSlashes cs ≠ [] := by
  rw [splitSlashes_eq_splitOn]
  exact List.splitOn_ne_nil '/' cs

theorem names_append (a b : List Char) : names (a ++ '/' :: b) = names a ++ names b := by
  rw [names, splitSlashes_append, List.filter_append, names, names]

/-- Only a path that begins with a slash has an empty first piece, but for the empty path. -/
theorem head?_splitSlashes_cons (c : Char) (rest : List Char) :
    (splitSlashes (c :: rest)).head? = some [] ↔ c = '/' := by
  obtain ⟨piece, more, hrest⟩ := List.exists_cons_of_ne_nil (splitSlashes_ne_nil rest)
  by_cases hc : c = '/' <;> simp [splitSlashes, hc, hrest]

theorem startsHere_append (a b : List Char) : startsHere (a ++ '/' :: b) = startsHere a := by
  obtain ⟨piece, more, ha⟩ := List.exists_cons_of_ne_nil (splitSlashes_ne_nil a)
  simp [startsHere, splitSlashes_append, ha]

theorem isAbsolute_append {a : List Char} (h : a ≠ []) (b : List Char) :
    isAbsolute (a ++ b) = isAbsolute a := by
  obtain ⟨c, cs, rfl⟩ := List.exists_cons_of_ne_nil h
  rfl

/-! ## Components -/

/-- The component of a piece that counts. -/
def toComponent (piece : List Char) : Component :=
  if piece = ['.', '.'] then .parent else .name piece

theorem toComponent_injective : Function.Injective toComponent := by
  intro a b h
  simp only [toComponent] at h
  split at h <;> split at h <;> simp_all

theorem toComponent_ne_root (piece : List Char) : toComponent piece ≠ .root := by
  rw [toComponent]
  split <;> simp

theorem toComponent_ne_here (piece : List Char) : toComponent piece ≠ .here := by
  rw [toComponent]
  split <;> simp

theorem componentOf_eq (piece : List Char) :
    componentOf piece = if isName piece then some (toComponent piece) else none := by
  by_cases h : piece = [] ∨ piece = ['.']
  · have hname : isName piece = false := by rcases h with rfl | rfl <;> rfl
    rw [componentOf, if_pos h, hname]
    rfl
  · have hname : isName piece = true := by simpa [isName] using h
    rw [componentOf, if_neg h, hname, toComponent]
    split <;> rfl

theorem filterMap_componentOf (pieces : List (List Char)) :
    pieces.filterMap componentOf = (pieces.filter isName).map toComponent := by
  rw [← List.filterMap_eq_map, List.filterMap_filter]
  exact List.filterMap_congr fun piece _ => componentOf_eq piece

/-- What a path begins with, as components. -/
def start (path : List Char) : List Component :=
  if isAbsolute path then [.root] else if startsHere path then [.here] else []

/-- **The components of a path**: what it begins with, and the pieces that count. -/
theorem components_eq (path : List Char) :
    components path = start path ++ (names path).map toComponent := by
  cases path with
  | nil => rfl
  | cons c rest =>
    obtain ⟨first, more, hsplit⟩ := List.exists_cons_of_ne_nil (splitSlashes_ne_nil (c :: rest))
    have habsolute : isAbsolute (c :: rest) = true ↔ first = [] := by
      have hfirst := head?_splitSlashes_cons c rest
      rw [hsplit, List.head?_cons, Option.some_inj] at hfirst
      rw [hfirst, isAbsolute]
      simp
    have hhere : startsHere (c :: rest) = true ↔ first = ['.'] := by simp [startsHere, hsplit]
    simp only [components, hsplit, start, names, habsolute, hhere, filterMap_componentOf]
    split
    case h_1 => rfl
    case h_2 => rfl
    case h_3 hempty hdot =>
      have hname : isName first = true := by simpa [isName] using ⟨hempty, hdot⟩
      rw [componentOf_eq, hname, if_neg hempty, if_neg hdot, List.filter_cons_of_pos hname]
      rfl

/-! ## Equal paths -/

theorem same_eq_true_iff {a b : String} :
    same a b = true ↔ components a.toList = components b.toList :=
  decide_eq_true_iff

@[simp] theorem same_self (a : String) : same a a = true := by
  rw [same_eq_true_iff]

theorem same_congr {a a' b b' : String} (ha : same a a' = true) (hb : same b b' = true) :
    same a b = same a' b' := by
  rw [same_eq_true_iff] at ha hb
  rw [same, same, ha, hb]

/-- A path that begins with a slash does not begin with a `.`. -/
theorem startsHere_of_isAbsolute {path : List Char} (h : isAbsolute path = true) :
    startsHere path = false := by
  cases path with
  | nil => rfl
  | cons c rest =>
    have hslash : c = '/' := by simpa [isAbsolute] using h
    have hfirst := (head?_splitSlashes_cons c rest).mpr hslash
    simp [startsHere, hfirst]

theorem start_inj (a b : List Char) :
    start a = start b ↔ isAbsolute a = isAbsolute b ∧ startsHere a = startsHere b := by
  have ha := @startsHere_of_isAbsolute a
  have hb := @startsHere_of_isAbsolute b
  cases hroot : isAbsolute a <;> cases hroot' : isAbsolute b <;> cases hhere : startsHere a <;>
    cases hhere' : startsHere b <;> simp_all [start]

/-- What a path begins with can be told from its components. -/
theorem filter_components (path : List Char) :
    (components path).filter (fun c => c == .root || c == .here) = start path := by
  have hstart : ∀ c ∈ start path, (c == .root || c == .here) = true := by
    rw [start]
    split_ifs <;> simp
  have hnames : ∀ c ∈ (names path).map toComponent, ¬ (c == .root || c == .here) = true := by
    refine List.forall_mem_map.mpr fun piece _ => ?_
    simp [toComponent_ne_root, toComponent_ne_here]
  rw [components_eq, List.filter_append, List.filter_eq_self.mpr hstart,
    List.filter_eq_nil_iff.mpr hnames, List.append_nil]

/-- **Two spellings are the same path** exactly if they begin alike and have the same pieces that
count. -/
theorem same_iff (a b : String) :
    same a b = true ↔ isAbsolute a.toList = isAbsolute b.toList ∧
      startsHere a.toList = startsHere b.toList ∧ names a.toList = names b.toList := by
  rw [same_eq_true_iff, ← and_assoc, ← start_inj]
  constructor
  · intro h
    have hstart : start a.toList = start b.toList := by
      rw [← filter_components, h, filter_components]
    rw [components_eq, components_eq, hstart, List.append_cancel_left_eq] at h
    exact ⟨hstart, List.map_injective_iff.mpr toComponent_injective h⟩
  · rintro ⟨hstart, hnames⟩
    rw [components_eq, components_eq, hstart, hnames]

/-! ## Spellings of one path -/

theorem isAbsolute_append_slash (a b b' : List Char) :
    isAbsolute (a ++ '/' :: b) = isAbsolute (a ++ '/' :: b') := by
  cases a <;> rfl

/-- Pieces behind the first that do not count may be put in or left out. -/
theorem same_of_names {p q : String} {a b b' : List Char} (hp : p.toList = a ++ '/' :: b)
    (hq : q.toList = a ++ '/' :: b') (h : names b = names b') : same p q = true := by
  rw [same_iff, hp, hq, startsHere_append, startsHere_append, names_append, names_append, h]
  exact ⟨isAbsolute_append_slash a b b', rfl, rfl⟩

/-- A slash may be repeated. -/
theorem same_repeated (a b : String) : same (a ++ "//" ++ b) (a ++ "/" ++ b) = true :=
  same_of_names (a := a.toList) (b := '/' :: b.toList) (by simp) (by simp)
    (names_append [] b.toList)

/-- A piece `.` may be put inside a path. -/
theorem same_inner (a b : String) : same (a ++ "/./" ++ b) (a ++ "/" ++ b) = true :=
  same_of_names (a := a.toList) (b := '.' :: '/' :: b.toList) (by simp) (by simp)
    (names_append ['.'] b.toList)

/-- A slash may be put at the end of a path that is not empty. -/
theorem same_trailing {a : String} (h : a ≠ "") : same (a ++ "/") a = true := by
  have hne : a.toList ≠ [] := by simpa using h
  have hlist : (a ++ "/").toList = a.toList ++ ['/'] := by simp
  rw [same_iff, hlist, isAbsolute_append hne, startsHere_append, names_append]
  exact ⟨rfl, rfl, List.append_nil _⟩

/-! ## Spellings of different paths -/

/-- A leading `.` counts: it makes another path of any path that does not begin with one. -/
theorem same_here (a : String) : same ("./" ++ a) a = startsHere a.toList := by
  have hlist : ("./" ++ a).toList = ['.'] ++ '/' :: a.toList := by simp
  have hstart : startsHere ['.'] = true := rfl
  have hroot : isAbsolute ['.'] = false := rfl
  rw [Bool.eq_iff_iff, same_iff, hlist, isAbsolute_append (by simp), startsHere_append,
    names_append, hstart, hroot]
  constructor
  · rintro ⟨-, hhere, -⟩
    exact hhere.symm
  · intro hhere
    refine ⟨?_, hhere.symm, rfl⟩
    cases habsolute : isAbsolute a.toList with
    | false => rfl
    | true =>
      rw [startsHere_of_isAbsolute habsolute] at hhere
      cases hhere

/-- How often a path leads out of a directory. -/
def ascents (path : String) : ℕ :=
  (names path.toList).count ['.', '.']

/-- A `..` counts: the same paths have as many of them. -/
theorem ascents_eq_of_same {a b : String} (h : same a b = true) : ascents a = ascents b := by
  rw [ascents, ascents, ((same_iff a b).mp h).2.2]

/-- A way through a directory and out of it makes another path. -/
theorem same_through (dir a : String) : same (dir ++ "/../" ++ a) a = false := by
  have hlist : (dir ++ "/../" ++ a).toList =
      dir.toList ++ '/' :: (['.', '.'] ++ '/' :: a.toList) := by
    simp
  have hup : (names ['.', '.']).count ['.', '.'] = 1 := by decide
  rw [Bool.eq_false_iff]
  intro h
  have hcount := ascents_eq_of_same h
  rw [ascents, ascents, hlist, names_append, names_append, List.count_append, List.count_append,
    hup] at hcount
  omega

end Uninit.Text.FilePath
