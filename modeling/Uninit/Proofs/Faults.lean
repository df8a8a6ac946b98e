import Uninit.Proofs.Overlooked

/-!
# Faults and flaws

A tree is refused if anything is wrong in it, and what is told is its first fault. The search for it
trusts the marks of the nodes and enters no node in which nothing is said to be wrong. Where all
marks are right this misses no fault: the search finds what a search through all nodes in the order
of the document finds, and a tree that is refused always has a fault to tell.

## Main definitions

* `Tree.IsMarked`: the mark of a node is right if the marks of its children are
* `Tree.MarksUp`: a node is marked if anything is wrong in one of its children

## Main statements

* `flawed_eq_any_isFault`: a node is marked exactly if there is a fault in it
* `firstFault_eq_find?`: the search for the first fault misses none
* `read_faults_exact`: which trees are refused, and for which fault
-/
namespace Uninit.Tree

/-- A node is marked as flawed exactly if it is a fault itself or one of its children is marked. -/
def IsMarked (t : Tree) : Prop :=
  t.label.flawed = (t.isFault || t.children.any fun c => c.label.flawed)

instance (t : Tree) : Decidable t.IsMarked :=
  inferInstanceAs (Decidable (_ = _))

theorem forall_mem_nodes {P : Tree → Prop} {l : Label} {cs : List Tree} :
    (∀ n ∈ (node l cs).nodes, P n) ↔ P (node l cs) ∧ ∀ c ∈ cs, ∀ n ∈ c.nodes, P n := by
  rw [nodes_node, List.forall_mem_cons, List.forall_mem_flatMap]

/-- **A node is marked exactly if there is a fault in it.** -/
theorem flawed_eq_any_isFault {t : Tree} (h : ∀ n ∈ t.nodes, n.IsMarked) :
    t.label.flawed = t.nodes.any isFault := by
  induction t using induct with
  | node l cs ih =>
    obtain ⟨hmark, hbelow⟩ := forall_mem_nodes.mp h
    have hchildren : (cs.any fun c => c.label.flawed) = cs.any fun c => c.nodes.any isFault := by
      rw [Bool.eq_iff_iff, List.any_eq_true, List.any_eq_true]
      refine exists_congr fun c => and_congr_right fun hc => ?_
      rw [ih c hc (hbelow c hc)]
    rw [hmark, nodes_node, List.any_cons, List.any_flatMap, ← hchildren]
    rfl

/-- Children are searched one behind the other. -/
theorem firstFaultIn_eq_find? {cs : List Tree}
    (h : ∀ c ∈ cs, firstFault c = c.nodes.find? isFault) :
    firstFaultIn cs = (cs.flatMap nodes).find? isFault := by
  induction cs with
  | nil => rfl
  | cons c rest ih =>
    obtain ⟨hc, hrest⟩ := List.forall_mem_cons.mp h
    rw [firstFaultIn, hc, ih hrest, List.flatMap_cons, List.find?_append]
    cases c.nodes.find? isFault <;> rfl

/-- A tree is wrong if it is a fault or marked. -/
def IsWrong (t : Tree) : Prop :=
  t.isFault = true ∨ t.label.flawed = true

/-- A node is marked if anything is wrong in one of its children. -/
def MarksUp (t : Tree) : Prop :=
  ∀ c ∈ t.children, c.IsWrong → t.label.flawed = true

/-- Where all marks are right, what is wrong is marked in the node above. -/
theorem marksUp_of_isMarked {t : Tree} (h : ∀ n ∈ t.nodes, n.IsMarked) :
    ∀ n ∈ t.nodes, n.MarksUp := by
  induction t using induct with
  | node l cs ih =>
    obtain ⟨hmark, hbelow⟩ := forall_mem_nodes.mp h
    refine forall_mem_nodes.mpr ⟨fun c hc hwrong => ?_, fun c hc => ih c hc (hbelow c hc)⟩
    have hown : c.IsMarked := by
      obtain ⟨l', cs'⟩ := c
      exact (forall_mem_nodes.mp (hbelow _ hc)).1
    have hflawed : c.label.flawed = true := hwrong.elim (fun hfault => by rw [hown, hfault]; rfl) id
    rw [hmark, Bool.or_eq_true]
    exact .inr (List.any_eq_true.mpr ⟨c, hc, hflawed⟩)

/-- Where nothing is wrong, nothing is wrong below. -/
theorem not_isWrong_of_mem_nodes {t : Tree} (h : ∀ n ∈ t.nodes, n.MarksUp) (ht : ¬ t.IsWrong) :
    ∀ n ∈ t.nodes, ¬ n.IsWrong := by
  induction t using induct with
  | node l cs ih =>
    obtain ⟨hmark, hbelow⟩ := forall_mem_nodes.mp h
    exact forall_mem_nodes.mpr ⟨ht, fun c hc =>
      ih c hc (hbelow c hc) fun hwrong => ht (.inr (hmark c hc hwrong))⟩

/-- The search misses no fault if what is wrong is marked in the node above: a node that is not
entered has no fault in it, so that a search through all nodes finds nothing there either. -/
theorem firstFault_eq_find?_of_marksUp {t : Tree} (h : ∀ n ∈ t.nodes, n.MarksUp) :
    firstFault t = t.nodes.find? isFault := by
  induction t using induct with
  | node l cs ih =>
    obtain ⟨-, hbelow⟩ := forall_mem_nodes.mp h
    have hchildren : firstFaultIn cs = (cs.flatMap nodes).find? isFault :=
      firstFaultIn_eq_find? fun c hc => ih c hc (hbelow c hc)
    have hself : (node l cs).isFault = (l.kind == .error || l.missing) := rfl
    rw [firstFault, ← hself]
    by_cases hfault : (node l cs).isFault = true
    · rw [if_pos hfault, nodes_node, List.find?_cons_of_pos hfault]
    · rw [if_neg hfault]
      by_cases hmarked : l.flawed = true
      · rw [if_pos hmarked, nodes_node, List.find?_cons_of_neg hfault, hchildren]
      · rw [if_neg hmarked]
        symm
        rw [List.find?_eq_none]
        exact fun n hn hwrong => not_isWrong_of_mem_nodes h (not_or.mpr ⟨hfault, hmarked⟩) n hn
          (.inl hwrong)

/-- **The search misses no fault** where all marks are right. -/
theorem firstFault_eq_find? {t : Tree} (h : ∀ n ∈ t.nodes, n.IsMarked) :
    firstFault t = t.nodes.find? isFault :=
  firstFault_eq_find?_of_marksUp (marksUp_of_isMarked h)

/-- What is told of a tree is its first fault. The root stands in for it only if nothing that is
wrong could be found, which does not happen. -/
theorem fault?_eq_map_find? (source : String) {t : Tree} (h : ∀ n ∈ t.nodes, n.IsMarked) :
    t.fault? source = (t.nodes.find? isFault).map (describe source) := by
  rw [fault?, firstFault_eq_find? h, flawed_eq_any_isFault h, ← List.isSome_find?]
  cases t.nodes.find? isFault <;> rfl

/-- **Which trees are refused, and for which fault**, where the marks of all nodes are right: those
that have an error or a missing token anywhere. What is told is the first in the order of the
document, by the place where it starts, counted from one. -/
theorem read_faults_exact (source : String) {t : Tree} (h : ∀ n ∈ t.nodes, n.IsMarked) :
    ((∃ fault, t.read source = .error fault) ↔ ∃ n ∈ t.nodes, n.isFault = true) ∧
      firstFault t = t.nodes.find? isFault ∧
      (t.label.flawed = true → (firstFault t).isSome = true) ∧
      (∀ n, t.nodes.find? isFault = some n →
        t.read source = .error ⟨n.start.row + 1, n.start.column + 1, n.cause source⟩) ∧
      (t.nodes.find? isFault = none → t.read source = .ok (t.unit source)) := by
  have hfirst : firstFault t = t.nodes.find? isFault := firstFault_eq_find? h
  have hsome : ∀ n, t.nodes.find? isFault = some n →
      t.read source = .error ⟨n.start.row + 1, n.start.column + 1, n.cause source⟩ := by
    intro n hn
    rw [read, fault?_eq_map_find? source h, hn]
    rfl
  have hnone : t.nodes.find? isFault = none → t.read source = .ok (t.unit source) := by
    intro hn
    rw [read, fault?_eq_map_find? source h, hn]
    rfl
  refine ⟨?_, hfirst, ?_, hsome, hnone⟩
  · rw [← List.find?_isSome]
    cases hn : t.nodes.find? isFault with
    | none => simp [hnone hn]
    | some n => simp [hsome n hn]
  · intro hflawed
    rw [hfirst, List.isSome_find?, ← flawed_eq_any_isFault h]
    exact hflawed

/-- A node of one line in which something is wrong. -/
def flawedLine (k : Kind) (start stop : ℕ) (missing : Bool) (cs : List Tree) : Tree :=
  node ⟨k, none, ⟨start, 0, start⟩, ⟨stop, 0, stop⟩, missing, true⟩ cs

/-- A tree with three faults: the second declaration misses its end, and behind it there is an error
with another one inside. -/
def faultyTree : Tree :=
  flawedLine (.other "translation_unit") 0 16 false [
    oneLine .declaration none 0 6 [
      oneLine (.other "primitive_type") none 0 3 [],
      oneLine .identifier (some .declarator) 4 5 [],
      oneLine (.token ";") none 5 6 []],
    flawedLine .declaration 7 12 false [
      oneLine (.other "primitive_type") none 7 10 [],
      oneLine .identifier (some .declarator) 11 12 [],
      flawedLine (.token ";") 12 12 true []],
    flawedLine .error 13 16 false [
      flawedLine .error 13 14 false [],
      oneLine .identifier none 15 16 []]]

/-- The first fault of `faultyTree` is the missing token. -/
theorem read_faults_exact_faultyTree :
    (∀ n ∈ faultyTree.nodes, n.IsMarked) ∧
      (faultyTree.nodes.filter isFault).length = 3 ∧
      faultyTree.read "int a; int b ) c" = .error ⟨1, 13, .missing ";"⟩ := by
  have hmarked : ∀ n ∈ faultyTree.nodes, n.IsMarked := by decide
  refine ⟨hmarked, by decide, ?_⟩
  exact (read_faults_exact "int a; int b ) c" hmarked).2.2.2.1
    (flawedLine (.token ";") 12 12 true []) (by rfl)

end Uninit.Tree
