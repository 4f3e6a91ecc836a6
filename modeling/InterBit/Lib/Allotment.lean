import Mathlib.Algebra.Ring.Nat
import Mathlib.Algebra.BigOperators.Group.List.Basic
import Mathlib.Data.List.Sort

/-!
# Serving a demand in a given order

A demand is met by suppliers that come one after the other. Each gives what it has, until the
demand is met: together they give all that is asked for or all that there is (`sum_given`).
-/

namespace InterBit.Lib

section Allotment

variable {α : Type*} (size : α → Nat)

/-- How much each supplier gives. -/
def allot : Nat → List α → List (α × Nat)
  | _, [] => []
  | demand, a :: as => (a, min demand (size a)) :: allot (demand - size a) as

/-- What some suppliers have together. -/
def supply (as : List α) : Nat := (as.map size).sum

/-- Who gives something. -/
def given (demand : Nat) (as : List α) : List (α × Nat) := (allot size demand as).filter (0 < ·.2)

/-- Who keeps something. -/
def kept (demand : Nat) (as : List α) : List (α × Nat) :=
  (allot size demand as).filter fun p => p.2 < size p.1

theorem allot_append (demand : Nat) (as bs : List α) :
    allot size demand (as ++ bs)
      = allot size demand as ++ allot size (demand - supply size as) bs := by
  induction as generalizing demand with
  | nil => rfl
  | cons a as ih =>
    have hrest : demand - supply size (a :: as) = demand - size a - supply size as :=
      Nat.sub_add_eq ..
    rw [List.cons_append, allot, ih, hrest]
    rfl

theorem given_append (demand : Nat) (as bs : List α) :
    given size demand (as ++ bs)
      = given size demand as ++ given size (demand - supply size as) bs := by
  rw [given, allot_append, List.filter_append]
  rfl

theorem kept_append (demand : Nat) (as bs : List α) :
    kept size demand (as ++ bs)
      = kept size demand as ++ kept size (demand - supply size as) bs := by
  rw [kept, allot_append, List.filter_append]
  rfl

/-- A demand that is met asks nobody for anything. -/
theorem allot_zero (as : List α) : allot size 0 as = as.map fun a => (a, 0) := by
  induction as with
  | nil => rfl
  | cons a as ih => rw [allot, Nat.zero_min, Nat.zero_sub, ih, List.map_cons]

theorem given_zero (as : List α) : given size 0 as = [] := by
  rw [given, allot_zero]
  refine List.filter_eq_nil_iff.mpr fun p hp => ?_
  obtain ⟨a, _, rfl⟩ := List.mem_map.mp hp
  exact of_decide_eq_false rfl

variable {size} {as : List α}

theorem kept_zero (h : ∀ a ∈ as, 0 < size a) : kept size 0 as = as.map fun a => (a, 0) := by
  rw [kept, allot_zero]
  refine List.filter_eq_self.mpr fun p hp => ?_
  obtain ⟨a, ha, rfl⟩ := List.mem_map.mp hp
  exact decide_eq_true (h a ha)

/-- Who is first gives all that it has. -/
theorem given_cons_of_le {demand : Nat} {a : α} (h : size a ≤ demand) (hpos : 0 < size a) :
    given size demand (a :: as) = (a, size a) :: given size (demand - size a) as := by
  rw [given, allot, Nat.min_eq_right h]
  exact List.filter_cons_of_pos (decide_eq_true hpos)

theorem kept_cons_of_le {demand : Nat} {a : α} (h : size a ≤ demand) :
    kept size demand (a :: as) = kept size (demand - size a) as := by
  rw [kept, allot, Nat.min_eq_right h]
  exact List.filter_cons_of_neg fun hlt => Nat.lt_irrefl _ (of_decide_eq_true hlt)

/-- Who is first gives all that is asked for. -/
theorem given_cons_of_lt {demand : Nat} {a : α} (h : demand < size a) (hpos : 0 < demand) :
    given size demand (a :: as) = [(a, demand)] := by
  rw [given, allot, Nat.min_eq_left (Nat.le_of_lt h), Nat.sub_eq_zero_of_le (Nat.le_of_lt h),
    List.filter_cons, if_pos (decide_eq_true hpos)]
  exact congrArg _ (given_zero size as)

theorem kept_cons_of_lt {demand : Nat} {a : α} (h : demand < size a) (hpos : ∀ b ∈ as, 0 < size b) :
    kept size demand (a :: as) = (a, demand) :: as.map fun b => (b, 0) := by
  rw [kept, allot, Nat.min_eq_left (Nat.le_of_lt h), Nat.sub_eq_zero_of_le (Nat.le_of_lt h),
    List.filter_cons, if_pos (decide_eq_true h)]
  exact congrArg _ (kept_zero hpos)

theorem sum_allot (demand : Nat) (as : List α) :
    ((allot size demand as).map (·.2)).sum = min demand (supply size as) := by
  induction as generalizing demand with
  | nil => exact (Nat.min_zero demand).symm
  | cons a as ih =>
    rw [allot, List.map_cons, List.sum_cons, ih]
    have hsupply : supply size (a :: as) = size a + supply size as := rfl
    rw [hsupply]
    omega

/-- Nobody gives more than he has. -/
theorem le_of_mem_allot (demand : Nat) : ∀ p ∈ allot size demand as, p.2 ≤ size p.1 := by
  induction as generalizing demand with
  | nil => exact fun _ h => (nomatch h)
  | cons a as ih => exact List.forall_mem_cons.mpr ⟨Nat.min_le_right .., ih _⟩

theorem le_of_mem_given {demand : Nat} {p : α × Nat} (h : p ∈ given size demand as) :
    p.2 ≤ size p.1 := le_of_mem_allot demand p (List.mem_of_mem_filter h)

/-- All that is asked for is given, or all that there is. -/
theorem sum_given (demand : Nat) (as : List α) :
    ((given size demand as).map (·.2)).sum = min demand (supply size as) := by
  rw [← sum_allot, given]
  induction allot size demand as with
  | nil => rfl
  | cons p ps ih =>
    rw [List.map_cons, List.sum_cons, ← ih, List.filter_cons]
    split
    next => rw [List.map_cons, List.sum_cons]
    next hzero =>
      have hzero : p.2 = 0 := Nat.eq_zero_of_not_pos fun hpos => hzero (decide_eq_true hpos)
      rw [hzero, Nat.zero_add]

end Allotment

/-- In a list that is sorted so that `p` only stops to hold, those with `p` come first. -/
theorem takeWhile_eq_filter {α : Type*} {r : α → α → Prop} {p : α → Bool} {as : List α}
    (hsorted : as.Pairwise r) (hp : ∀ a b, r a b → p b → p a) : as.takeWhile p = as.filter p := by
  induction as with
  | nil => rfl
  | cons a as ih =>
    obtain ⟨hfirst, hrest⟩ := List.pairwise_cons.mp hsorted
    by_cases ha : p a = true
    · rw [List.takeWhile_cons_of_pos ha, List.filter_cons_of_pos ha, ih hrest]
    · have hnone : as.filter p = [] :=
        List.filter_eq_nil_iff.mpr fun b hb hpb => ha (hp a b (hfirst b hb) hpb)
      rw [List.takeWhile_cons_of_neg ha, List.filter_cons_of_neg ha, hnone]

end InterBit.Lib
