import Mathlib.Data.List.Perm.Basic

/-!
# Queues that go round

A round looks at the first `n` elements of a queue. Those that are due are served, and the others go
to the end. An element that was at place `i` is at place `i - n` then, or it is one of those that
were looked at. So an element that is due waits for a bounded number of rounds, whatever joins the
queue at its end (`served_of_rounds`).
-/

namespace InterBit.Lib

variable {α : Type}

/-- What is served in a round. -/
def served (due : α → Bool) (n : Nat) (queue : List α) : List α := (queue.take n).filter due

/-- The queue after a round. -/
def rotated (due : α → Bool) (n : Nat) (queue : List α) : List α :=
  queue.drop n ++ (queue.take n).filter fun x => !due x

variable {due : α → Bool} {n i : Nat} {queue : List α} {x : α}

/-- An element that is not looked at comes `n` places nearer. -/
theorem getElem?_rotated (h : queue[i]? = some x) (hn : n ≤ i) :
    (rotated due n queue)[i - n]? = some x := by
  have hi : i < queue.length := (List.getElem?_eq_some_iff.mp h).1
  rw [rotated, List.getElem?_append_left (by rw [List.length_drop]; omega), List.getElem?_drop,
    Nat.add_sub_cancel' hn, h]

theorem mem_served (h : queue[i]? = some x) (hn : i < n) (hdue : due x = true) :
    x ∈ served due n queue := by
  refine List.mem_filter.mpr ⟨List.mem_iff_getElem?.mpr ⟨i, ?_⟩, hdue⟩
  rw [List.getElem?_take_of_lt hn, h]

/-- What is not due stays. -/
theorem filter_rotated_perm :
    ((rotated due n queue).filter fun x => !due x).Perm (queue.filter fun x => !due x) := by
  rw [rotated, List.filter_append, List.filter_filter]
  simp only [Bool.and_self]
  refine List.perm_append_comm.trans ?_
  rw [← List.filter_append, List.take_append_drop]

theorem mem_of_mem_rotated (h : x ∈ rotated due n queue) : x ∈ queue := by
  rcases List.mem_append.mp h with h | h
  · exact List.mem_of_mem_drop h
  · exact List.mem_of_mem_take (List.mem_filter.mp h).1

section Rounds

variable {S C : Type} {step : S → C → S} {isRound : C → Bool} {ok : C → Prop} {batch : Nat}
  {I done : S → Prop} {waits : S → Nat → Prop}

/-- What every call keeps holds after the calls. -/
theorem foldl_keeps {calls : List C} {s : S} (hkeep : ∀ s c, ok c → I s → I (step s c))
    (hok : ∀ c ∈ calls, ok c) (hs : I s) : I (calls.foldl step s) := by
  induction calls generalizing s with
  | nil => exact hs
  | cons c calls ih =>
    obtain ⟨hc, hok⟩ := List.forall_mem_cons.mp hok
    exact ih hok (hkeep s c hc hs)

/-- What waits at a place below `batch` times the number of rounds is served. -/
theorem served_of_rounds {calls : List C} {s : S} {i : Nat}
    (hinv : ∀ s c, ok c → I s → I (step s c))
    (hdone : ∀ s c, ok c → I s → done s → done (step s c))
    (hother : ∀ s c i, ok c → I s → isRound c = false → waits s i → waits (step s c) i)
    (hround : ∀ s c i, ok c → I s → isRound c = true → waits s i →
      if i < batch then done (step s c) else waits (step s c) (i - batch))
    (hok : ∀ c ∈ calls, ok c) (hs : I s) (hwaits : waits s i)
    (hi : i < batch * calls.countP isRound) : done (calls.foldl step s) := by
  induction calls generalizing s i with
  | nil =>
    rw [List.countP_nil] at hi
    omega
  | cons c calls ih =>
    obtain ⟨hc, hok⟩ := List.forall_mem_cons.mp hok
    rw [List.foldl_cons]
    cases hkind : isRound c with
    | false =>
      rw [List.countP_cons_of_neg (by rw [hkind]; exact Bool.false_ne_true)] at hi
      exact ih hok (hinv s c hc hs) (hother s c i hc hs hkind hwaits) hi
    | true =>
      rw [List.countP_cons_of_pos hkind, Nat.mul_add, Nat.mul_one] at hi
      have hone := hround s c i hc hs hkind hwaits
      split at hone
      next =>
        have hboth : ∀ s c, ok c → I s ∧ done s → I (step s c) ∧ done (step s c) :=
          fun s c hc h => ⟨hinv s c hc h.1, hdone s c hc h.1 h.2⟩
        exact (foldl_keeps hboth hok ⟨hinv s c hc hs, hone⟩).2
      next => exact ih hok (hinv s c hc hs) hone (by omega)

end Rounds

end InterBit.Lib
