import Mathlib.Tactic.Ring

/-!
# Loops that work off what they have found

A loop takes turns until it is done (`repeatTurns`); a turn may panic. What every turn preserves
holds when the loop returns (`repeatTurns_spec`). If every turn also makes a size smaller, the loop
does not run out of turns (`repeatTurns_cases`).

A search that follows paths without repetitions has such a size: `worth` is what a path counts, and
all the ways to go on from it count less together (`sum_worth_lt`).
-/

namespace InterBit.Lib

/-- What a turn comes to: the loop goes on, or it is done. -/
inductive Turn (S R : Type) where
  | going (state : S)
  | done (result : R)

variable {S R : Type}

/-- Take turns; `none` is a panic, or there are no turns left. -/
def repeatTurns (turn : S → Option (Turn S R)) : Nat → S → Option R
  | 0, _ => none
  | n + 1, state =>
    match turn state with
    | none => none
    | some (.done result) => some result
    | some (.going state') => repeatTurns turn n state'

variable {turn : S → Option (Turn S R)} {I : S → Prop}

/-- What is returned comes from a state like this. -/
theorem repeatTurns_spec (hturn : ∀ s s', I s → turn s = some (.going s') → I s') :
    ∀ (n : Nat) {s : S} {result : R}, I s → repeatTurns turn n s = some result →
      ∃ s', I s' ∧ turn s' = some (.done result) := by
  intro n
  induction n with
  | zero => exact fun _ h => nomatch h
  | succ n ih =>
    intro s result hs h
    rw [repeatTurns] at h
    cases hstep : turn s with
    | none =>
      rw [hstep] at h
      cases h
    | some next =>
      rw [hstep] at h
      cases next with
      | done result' =>
        cases h
        exact ⟨s, hs, hstep⟩
      | going s' => exact ih (hturn s s' hs hstep) h

/-- With enough turns, the loop returns, or there is a turn that panics. -/
theorem repeatTurns_cases {size : S → Nat}
    (hturn : ∀ s s', I s → turn s = some (.going s') → I s' ∧ size s' < size s) :
    ∀ (n : Nat) {s : S}, I s → size s < n →
      (∃ s', I s' ∧ turn s' = none ∧ repeatTurns turn n s = none) ∨
      ∃ s' result, I s' ∧ turn s' = some (.done result) ∧ repeatTurns turn n s = some result := by
  intro n
  induction n with
  | zero => exact fun _ h => absurd h (Nat.not_lt_zero _)
  | succ n ih =>
    intro s hs hsize
    rw [repeatTurns]
    cases hstep : turn s with
    | none => exact Or.inl ⟨s, hs, hstep, rfl⟩
    | some next =>
      cases next with
      | done result => exact Or.inr ⟨s, result, hs, hstep, rfl⟩
      | going s' =>
        obtain ⟨hs', hless⟩ := hturn s s' hs hstep
        exact ih hs' (by omega)

variable {α : Type}

/-- What every element preserves, a list of them does. -/
theorem foldlM_invariant {f : S → α → Option S} {l : List α}
    (hstep : ∀ s s', ∀ a ∈ l, I s → f s a = some s' → I s') {s s' : S} (hs : I s)
    (h : l.foldlM f s = some s') : I s' := by
  induction l generalizing s with
  | nil =>
    cases h
    exact hs
  | cons a l ih =>
    obtain ⟨s₁, hfirst, h⟩ := Option.bind_eq_some_iff.mp h
    exact ih (fun s s' a ha => hstep s s' a (List.mem_cons_of_mem _ ha))
      (hstep s s₁ a List.mem_cons_self hs hfirst) h

/-! ### The size of a search -/

/-- What a path counts, if there are `degree` ways to go on at most, and no path is longer than
`longest`. -/
def worth (degree longest : Nat) (path : List α) : Nat := (degree + 1) ^ (longest - path.length)

theorem worth_pos (degree longest : Nat) (path : List α) : 0 < worth degree longest path :=
  Nat.pow_pos (Nat.succ_pos degree)

/-- The ways to go on from a path count less than the path. -/
theorem sum_worth_lt {degree longest : Nat} {path : List α} {nexts : List (List α)}
    (hlength : path.length < longest) (hdegree : nexts.length ≤ degree)
    (hnext : ∀ next ∈ nexts, next.length = path.length + 1) :
    (nexts.map (worth degree longest)).sum < worth degree longest path := by
  have hsum : (nexts.map (worth degree longest)).sum
      = nexts.length * (degree + 1) ^ (longest - (path.length + 1)) := by
    rw [List.map_congr_left (g := fun _ => (degree + 1) ^ (longest - (path.length + 1)))
      fun next h => by rw [worth, hnext next h], List.map_const', List.sum_replicate_nat]
  have hpow : worth degree longest path
      = (degree + 1) ^ (longest - (path.length + 1)) * (degree + 1) := by
    rw [worth, ← Nat.pow_succ]
    congr 1
    omega
  have hpos : 0 < (degree + 1) ^ (longest - (path.length + 1)) := Nat.pow_pos (Nat.succ_pos _)
  rw [hsum, hpow, Nat.mul_comm]
  exact Nat.mul_lt_mul_of_pos_left (by omega) hpos

end InterBit.Lib
