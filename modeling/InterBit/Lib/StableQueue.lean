import Mathlib.Data.List.Sort
import Mathlib.Data.List.Perm.Basic

/-!
# Queues by rank

A queue in which what ranks higher comes first, and what ranks the same comes in the order of
arrival. An element goes in front of the first one that ranks lower (`enqueue`). `Ranked` is the
invariant, with all that has ever arrived.
-/

namespace InterBit.Lib

variable {α : Type} (rank : α → Nat)

/-- What ranks lower does not come first. -/
def Falling (queue : List α) : Prop := queue.Pairwise fun first later => rank later ≤ rank first

/-- Put an element in front of the first one that ranks lower, or at the end. -/
def enqueue (x : α) (queue : List α) : List α :=
  queue.insertIdx (queue.findIdx fun y => rank y < rank x) x

/-- The queue is sorted by rank, and what ranks the same is in the order of arrival. -/
structure Ranked (arrivals queue : List α) : Prop where
  falling : Falling rank queue
  stable : ∀ r, (queue.filter fun x => rank x = r).Sublist arrivals

variable {rank}

theorem enqueue_cons_of_lt {x y : α} {queue : List α} (h : rank y < rank x) :
    enqueue rank x (y :: queue) = x :: y :: queue := by
  rw [enqueue, List.findIdx_cons, decide_eq_true h]
  rfl

theorem enqueue_cons_of_le {x y : α} {queue : List α} (h : rank x ≤ rank y) :
    enqueue rank x (y :: queue) = y :: enqueue rank x queue := by
  rw [enqueue, List.findIdx_cons, decide_eq_false (Nat.not_lt_of_le h)]
  rfl

theorem enqueue_perm (x : α) (queue : List α) : (enqueue rank x queue).Perm (x :: queue) := by
  induction queue with
  | nil => exact .refl _
  | cons y queue ih =>
    rcases Nat.lt_or_ge (rank y) (rank x) with hlt | hle
    · rw [enqueue_cons_of_lt hlt]
    · rw [enqueue_cons_of_le hle]
      exact (ih.cons y).trans (.swap x y queue)

theorem Falling.enqueue {queue : List α} (h : Falling rank queue) (x : α) :
    Falling rank (enqueue rank x queue) := by
  induction queue with
  | nil => exact List.pairwise_singleton ..
  | cons y queue ih =>
    obtain ⟨hy, hrest⟩ := List.pairwise_cons.mp h
    rcases Nat.lt_or_ge (rank y) (rank x) with hlt | hle
    · rw [enqueue_cons_of_lt hlt]
      refine List.pairwise_cons.mpr ⟨fun z hz => ?_, h⟩
      rcases List.mem_cons.mp hz with rfl | hz
      · exact Nat.le_of_lt hlt
      · exact (hy z hz).trans (Nat.le_of_lt hlt)
    · rw [enqueue_cons_of_le hle]
      refine List.pairwise_cons.mpr ⟨fun z hz => ?_, ih hrest⟩
      rcases List.mem_cons.mp ((enqueue_perm x queue).mem_iff.mp hz) with rfl | hz
      · exact hle
      · exact hy z hz

/-- A new element comes after all that rank the same. -/
theorem filter_enqueue {queue : List α} (h : Falling rank queue) (x : α) (r : Nat) :
    (enqueue rank x queue).filter (fun y => rank y = r)
      = queue.filter (fun y => rank y = r) ++ [x].filter (fun y => rank y = r) := by
  induction queue with
  | nil => rfl
  | cons y queue ih =>
    obtain ⟨hy, hrest⟩ := List.pairwise_cons.mp h
    rcases Nat.lt_or_ge (rank y) (rank x) with hlt | hle
    · rw [enqueue_cons_of_lt hlt]
      by_cases hr : rank x = r
      · -- all that follows ranks lower
        have hnone : (y :: queue).filter (fun y => rank y = r) = [] := by
          refine List.filter_eq_nil_iff.mpr fun z hz => ?_
          have hle : rank z ≤ rank y := by
            rcases List.mem_cons.mp hz with rfl | hz
            · exact le_rfl
            · exact hy z hz
          rw [decide_eq_true_iff]
          omega
        have hpos : ∀ l : List α, (x :: l).filter (fun y => rank y = r)
            = x :: l.filter fun y => rank y = r :=
          fun l => List.filter_cons_of_pos (decide_eq_true hr)
        rw [hpos, hpos, hnone]
        rfl
      · have hneg : ∀ l : List α, (x :: l).filter (fun y => rank y = r)
            = l.filter fun y => rank y = r :=
          fun l => List.filter_cons_of_neg fun h => hr (of_decide_eq_true h)
        rw [hneg, hneg]
        exact (List.append_nil _).symm
    · rw [enqueue_cons_of_le hle, List.filter_cons, List.filter_cons, ih hrest]
      split
      next => rfl
      next => rfl

theorem Ranked.enqueue {arrivals queue : List α} (h : Ranked rank arrivals queue) (x : α) :
    Ranked rank (arrivals ++ [x]) (enqueue rank x queue) := by
  refine ⟨h.falling.enqueue x, fun r => ?_⟩
  rw [filter_enqueue h.falling]
  exact (h.stable r).append List.filter_sublist

theorem Ranked.filter {arrivals queue : List α} (h : Ranked rank arrivals queue) (p : α → Bool) :
    Ranked rank arrivals (queue.filter p) := by
  refine ⟨h.falling.sublist List.filter_sublist, fun r => ?_⟩
  exact (List.Sublist.filter _ List.filter_sublist).trans (h.stable r)

theorem ranked_nil (arrivals : List α) : Ranked rank arrivals [] :=
  ⟨.nil, fun _ => List.nil_sublist _⟩

/-- A list that has been sorted by falling rank. -/
theorem falling_mergeSort (queue : List α) :
    Falling rank (queue.mergeSort fun x y => rank y ≤ rank x) := by
  refine (List.pairwise_mergeSort (fun x y z hxy hyz => ?_) (fun x y => ?_) queue).imp
    fun h => of_decide_eq_true h
  · exact decide_eq_true ((of_decide_eq_true hyz).trans (of_decide_eq_true hxy))
  · rw [Bool.or_eq_true, decide_eq_true_iff, decide_eq_true_iff]
    exact Nat.le_total _ _

end InterBit.Lib
