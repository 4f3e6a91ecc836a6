import Mathlib.Data.List.Basic

/-!
# Hash trees kept as a list of leaves

Nothing of the tree is stored but its leaves. The level above a level has the hash of each two
neighbours, and a node that has no neighbour is its own. The root and the path of a leaf are computed
from the leaves, level by level; a step of a path says on which side the node is, so that the hash
need not be symmetric. `climb_path`: whatever the number of leaves, the path of a leaf climbs to the
root.
-/

namespace InterBit.Lib.LevelTree

variable {D : Type} (hash : D → D → D)

/-- The level above. -/
def nextLevel : List D → List D
  | [] => []
  | [left] => [hash left left]
  | left :: right :: rest => hash left right :: nextLevel rest

theorem length_nextLevel (level : List D) :
    (nextLevel hash level).length = (level.length + 1) / 2 := by
  fun_induction nextLevel hash level with
  | case1 => simp only [List.length_nil]
  | case2 left => simp only [List.length_cons, List.length_nil]
  | case3 left right rest ih =>
    simp only [List.length_cons, ih]
    omega

/-- The root; `none` if there is no leaf. -/
def root (level : List D) : Option D :=
  if 1 < level.length then root (nextLevel hash level) else level[0]?
  termination_by level.length
  decreasing_by rw [length_nextLevel]; omega

theorem root_singleton (leaf : D) : root hash [leaf] = some leaf := by
  rw [root]
  exact if_neg (Nat.lt_irrefl 1)

theorem root_pair (left right : D) : root hash [left, right] = some (hash left right) := by
  rw [root]
  exact (if_pos (Nat.lt_succ_self 1)).trans (root_singleton hash _)

/-- The neighbour of a node; `none` if there is no such node. -/
def sibling (level : List D) (index : Nat) : Option D :=
  let siblingIndex := if index % 2 = 1 then index - 1 else index + 1
  if siblingIndex < level.length then level[siblingIndex]? else level[index]?

/-- The neighbours on the way from a leaf to the root, each with whether the node is on its right. -/
def path (level : List D) (index : Nat) : Option (List (D × Bool)) :=
  if 1 < level.length then do
    let neighbour ← sibling level index
    let above ← path (nextLevel hash level) (index / 2)
    some ((neighbour, decide (index % 2 = 1)) :: above)
  else some []
  termination_by level.length
  decreasing_by rw [length_nextLevel]; omega

/-- One step of a path. -/
def ascend (current : D) (step : D × Bool) : D :=
  if step.2 then hash step.1 current else hash current step.1

/-- Hash a digest with the steps of a path. -/
def climb (digest : D) (steps : List (D × Bool)) : D := steps.foldl (ascend hash) digest

/-- A node of the level above is the hash of the two below it. -/
theorem getElem?_nextLevel {level : List D} {i : Nat} {left : D} (h : level[2 * i]? = some left) :
    (nextLevel hash level)[i]? = some (hash left ((level[2 * i + 1]?).getD left)) := by
  fun_induction nextLevel hash level generalizing i with
  | case1 => cases h
  | case2 only =>
    cases i with
    | zero => exact congrArg (fun d => some (hash d d)) (Option.some.inj h)
    | succ i => cases h
  | case3 first second rest ih =>
    cases i with
    | zero => exact congrArg (fun d => some (hash d second)) (Option.some.inj h)
    | succ i => exact ih h

/-- A step from a node leads to the node above it. -/
theorem ascend_sibling {level : List D} {index : Nat} {leaf : D} (h : level[index]? = some leaf) :
    ∃ neighbour, sibling level index = some neighbour ∧
      (nextLevel hash level)[index / 2]?
        = some (ascend hash leaf (neighbour, decide (index % 2 = 1))) := by
  have hlt := (List.getElem?_eq_some_iff.mp h).1
  rcases Nat.mod_two_eq_zero_or_one index with heven | hodd
  · have hindex : 2 * (index / 2) = index := by omega
    have hside : ¬ index % 2 = 1 := by omega
    have habove := getElem?_nextLevel hash (i := index / 2) (hindex.symm ▸ h)
    rw [hindex] at habove
    refine ⟨(level[index + 1]?).getD leaf, ?_, ?_⟩
    · simp only [sibling, hside, if_false]
      split
      next hnext => rw [List.getElem?_eq_getElem hnext, Option.getD_some]
      -- the last node of a level of odd length
      next hlast => rw [List.getElem?_eq_none (Nat.le_of_not_lt hlast), Option.getD_none, h]
    · rw [habove, decide_eq_false hside, ascend, if_neg Bool.false_ne_true]
  · have hindex : 2 * (index / 2) + 1 = index := by omega
    have hleft : 2 * (index / 2) < level.length := by omega
    have habove := getElem?_nextLevel hash (i := index / 2)
      (List.getElem?_eq_getElem hleft)
    rw [hindex, h, Option.getD_some] at habove
    refine ⟨level[2 * (index / 2)], ?_, ?_⟩
    · have hprevious : index - 1 = 2 * (index / 2) := by omega
      simp only [sibling, hodd, if_true, hprevious]
      rw [if_pos hleft, List.getElem?_eq_getElem hleft]
    · rw [habove, decide_eq_true hodd, ascend, if_pos rfl]

/-- The path of a leaf climbs to the root. -/
theorem climb_path {level : List D} {index : Nat} {leaf : D} (h : level[index]? = some leaf) :
    ∃ steps, path hash level index = some steps ∧
      root hash level = some (climb hash leaf steps) := by
  fun_induction path hash level index generalizing leaf with
  | case1 level index hlong ih =>
    obtain ⟨neighbour, hneighbour, habove⟩ := ascend_sibling hash h
    obtain ⟨steps, hsteps, hroot⟩ := ih habove
    refine ⟨(neighbour, decide (index % 2 = 1)) :: steps, ?_, ?_⟩
    · rw [hneighbour, hsteps]
      rfl
    · rw [root, if_pos hlong, hroot]
      rfl
  | case2 level index hshort =>
    refine ⟨[], rfl, ?_⟩
    have hlt := (List.getElem?_eq_some_iff.mp h).1
    have hzero : index = 0 := by omega
    subst hzero
    rw [root, if_neg hshort, h]
    rfl

end InterBit.Lib.LevelTree
