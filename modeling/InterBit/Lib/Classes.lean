import Mathlib.Data.List.Range
import Mathlib.Data.List.Sort

/-!
# The classes of a relation on positions

An equivalence relation on the numbers below `n` has classes, and each class has a first member.
`classes` lists them in the order of the first members, and the members of each in increasing
order. Together they are all the numbers, each once (`flatten_classes_perm`).
-/

namespace InterBit.Lib

section Definitions

variable (r : Nat → Nat → Prop) [DecidableRel r]

/-- No member of the class of `i` comes before `i`. -/
def IsFirst (i : Nat) : Prop := ∀ l < i, ¬ r l i

instance (i : Nat) : Decidable (IsFirst r i) := inferInstanceAs (Decidable (∀ l < i, ¬ r l i))

/-- The members of the class of `i` below `n`. -/
def classOf (n i : Nat) : List Nat := (List.range n).filter fun j => r i j

/-- The classes whose first members are below `k`. -/
def classesBelow (n k : Nat) : List (List Nat) :=
  ((List.range k).filter fun i => IsFirst r i).map (classOf r n)

/-- The classes. -/
def classes (n : Nat) : List (List Nat) := classesBelow r n n

end Definitions

variable {r : Nat → Nat → Prop} {n : Nat}

theorem not_isFirst_iff {j : Nat} : ¬ IsFirst r j ↔ ∃ l < j, r l j := by
  simp only [IsFirst, not_forall, not_not, exists_prop]

/-- Two first members of one class are the same. -/
theorem eq_of_isFirst (hr : Equivalence r) {i j k : Nat} (hi : IsFirst r i) (hj : IsFirst r j)
    (hik : r i k) (hjk : r j k) : i = j := by
  have hij : r i j := hr.trans hik (hr.symm hjk)
  rcases Nat.lt_trichotomy i j with hlt | heq | hlt
  · exact absurd hij (hj i hlt)
  · exact heq
  · exact absurd (hr.symm hij) (hi j hlt)

variable [DecidableRel r]

theorem mem_classOf {i j : Nat} : j ∈ classOf r n i ↔ j < n ∧ r i j := by
  rw [classOf, List.mem_filter, List.mem_range, decide_eq_true_iff]

theorem pairwise_classOf (i : Nat) : (classOf r n i).Pairwise (· < ·) :=
  List.Pairwise.filter _ List.pairwise_lt_range

/-- A list in increasing order with the members of a class is that class. -/
theorem eq_classOf {i : Nat} {group : List Nat} (h : group.Pairwise (· < ·))
    (hmem : ∀ j, j ∈ group ↔ j < n ∧ r i j) : group = classOf r n i := by
  refine List.Perm.eq_of_pairwise' h (pairwise_classOf i) ?_
  refine (List.perm_ext_iff_of_nodup (h.imp Nat.ne_of_lt)
    ((pairwise_classOf i).imp Nat.ne_of_lt)).mpr fun j => ?_
  rw [hmem, mem_classOf]

theorem classesBelow_succ_of_isFirst {k : Nat} (h : IsFirst r k) :
    classesBelow r n (k + 1) = classesBelow r n k ++ [classOf r n k] := by
  rw [classesBelow, List.range_succ, List.filter_append, List.map_append, List.filter_cons,
    if_pos (decide_eq_true h)]
  rfl

theorem classesBelow_succ_of_not_isFirst {k : Nat} (h : ¬ IsFirst r k) :
    classesBelow r n (k + 1) = classesBelow r n k := by
  rw [classesBelow, List.range_succ, List.filter_append, List.map_append, List.filter_cons,
    if_neg fun hk => h (of_decide_eq_true hk)]
  exact List.append_nil _

theorem mem_classes {group : List Nat} :
    group ∈ classes r n ↔ ∃ i < n, IsFirst r i ∧ classOf r n i = group := by
  rw [classes, classesBelow, List.mem_map]
  constructor
  · rintro ⟨i, hi, rfl⟩
    rw [List.mem_filter, List.mem_range, decide_eq_true_iff] at hi
    exact ⟨i, hi.1, hi.2, rfl⟩
  · rintro ⟨i, hlt, hfirst, rfl⟩
    exact ⟨i, List.mem_filter.mpr ⟨List.mem_range.mpr hlt, decide_eq_true hfirst⟩, rfl⟩

/-- The members of a class stand in increasing order. -/
theorem pairwise_of_mem_classes {group : List Nat} (h : group ∈ classes r n) :
    group.Pairwise (· < ·) := by
  obtain ⟨i, -, -, rfl⟩ := mem_classes.mp h
  exact pairwise_classOf i

variable (hr : Equivalence r)
include hr

/-- Every class has a first member. -/
theorem exists_isFirst (j : Nat) : ∃ i ≤ j, IsFirst r i ∧ r i j := by
  have hex : ∃ i, r i j := ⟨j, hr.refl j⟩
  refine ⟨Nat.find hex, Nat.find_min' hex (hr.refl j), fun l hl hrl => ?_, Nat.find_spec hex⟩
  exact Nat.find_min hex hl (hr.trans hrl (Nat.find_spec hex))

/-- Members of one class are in one of the lists. -/
theorem exists_mem_classes {i j : Nat} (hi : i < n) (hj : j < n) (hij : r i j) :
    ∃ group ∈ classes r n, i ∈ group ∧ j ∈ group := by
  obtain ⟨k, hk, hfirst, hki⟩ := exists_isFirst hr i
  exact ⟨classOf r n k, mem_classes.mpr ⟨k, by omega, hfirst, rfl⟩, mem_classOf.mpr ⟨hi, hki⟩,
    mem_classOf.mpr ⟨hj, hr.trans hki hij⟩⟩

theorem nodup_flatten_classes : (classes r n).flatten.Nodup := by
  have hincreasing : ((List.range n).filter fun i => IsFirst r i).Pairwise (· < ·) :=
    List.Pairwise.filter _ List.pairwise_lt_range
  refine List.nodup_flatten.mpr ⟨fun group hgroup => ?_, List.pairwise_map.mpr ?_⟩
  · exact (pairwise_of_mem_classes hgroup).imp Nat.ne_of_lt
  · refine hincreasing.imp_of_mem fun {i j} hi hj hij k hik hjk => ?_
    have hfirst : i = j := eq_of_isFirst hr (of_decide_eq_true (List.mem_filter.mp hi).2)
      (of_decide_eq_true (List.mem_filter.mp hj).2) (mem_classOf.mp hik).2 (mem_classOf.mp hjk).2
    exact Nat.ne_of_lt hij hfirst

/-- The classes are the numbers below `n`, each once. -/
theorem flatten_classes_perm : (classes r n).flatten.Perm (List.range n) := by
  refine (List.perm_ext_iff_of_nodup (nodup_flatten_classes hr) List.nodup_range).mpr fun j => ?_
  rw [List.mem_flatten, List.mem_range]
  constructor
  · rintro ⟨group, hgroup, hj⟩
    obtain ⟨i, -, -, rfl⟩ := mem_classes.mp hgroup
    exact (mem_classOf.mp hj).1
  · intro hj
    obtain ⟨group, hgroup, hmem, -⟩ := exists_mem_classes hr hj hj (hr.refl j)
    exact ⟨group, hgroup, hmem⟩

end InterBit.Lib
