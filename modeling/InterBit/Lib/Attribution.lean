import Mathlib.Data.Finset.Insert
import InterBit.Lib.Rounds

/-!
# Values and the tasks that have written

What a cell of a shared memory can hold often depends on who has written: a counter
has been raised once for each of them at most. `Reach X k v` says that cell `k` can hold
`v` when the tasks of `X` have written. If every task, reading what can be there, does
not panic and writes what can be there after it, no interleaving of the tasks panics
(`Pool.Attributed`).
-/

namespace InterBit.Lib

variable {K V ε α β τ : Type} [DecidableEq τ] {Reach : Finset τ → K → V → Prop} {S : Finset τ}
  {t : τ}

namespace Prog

variable (Reach S t) in
/-- Reading what cells can hold, with more and more tasks of `S` among the writers `X`, the
program of task `t` does not panic, each of its writes is one that the cell can then hold,
and a result comes with `Q`. -/
def Attributed (Q : α → Finset τ → Prop) : Prog K V ε α → Finset τ → Prop
  | .ret a, X => Q a X
  | .fail _, _ => True
  | .panic, _ => False
  | .read k cont, X => ∀ X', X ⊆ X' → X' ⊆ S → (t ∈ X' → t ∈ X) →
      ∀ v, (∀ a, v = some a → Reach X' k a) → Attributed Q (cont v) X'
  | .write k v cont, X => t ∈ S ∧ Reach (insert t X) k v ∧ Attributed Q cont (insert t X)

variable {Q : α → Finset τ → Prop} {X X' : Finset τ}

/-- The others have written meanwhile. -/
theorem Attributed.mono (hReach : ∀ X X' k v, X ⊆ X' → Reach X k v → Reach X' k v)
    (hQ : ∀ a X X', X ⊆ X' → Q a X → Q a X') {p : Prog K V ε α}
    (h : p.Attributed Reach S t Q X) (hX : X ⊆ X') (ht : t ∈ X' → t ∈ X) :
    p.Attributed Reach S t Q X' := by
  induction p generalizing X X' with
  | ret a => exact hQ a X X' hX h
  | fail e => trivial
  | panic => exact h
  | read k cont _ =>
    intro X'' hX'' hS ht''
    exact h X'' (hX.trans hX'') hS fun hmem => ht (ht'' hmem)
  | write k v cont ih =>
    obtain ⟨hS, hv, hrest⟩ := h
    have hinsert : insert t X ⊆ insert t X' := Finset.insert_subset_insert t hX
    exact ⟨hS, hReach _ _ _ _ hinsert hv, ih hrest hinsert fun _ => Finset.mem_insert_self t X⟩

/-- Two parts. -/
theorem Attributed.bind {Q' : β → Finset τ → Prop} {p : Prog K V ε α} {f : α → Prog K V ε β}
    (h : p.Attributed Reach S t Q X) (hf : ∀ a X, Q a X → (f a).Attributed Reach S t Q' X) :
    (p >>= f).Attributed Reach S t Q' X := by
  induction p generalizing X with
  | ret a => exact hf a X h
  | fail e => trivial
  | panic => exact h
  | read k cont ih => exact fun X' hX hS ht v hv => ih v (h X' hX hS ht v hv)
  | write k v cont ih => exact ⟨h.1, h.2.1, ih h.2.2⟩

theorem attributed_require {c : Prop} [Decidable c] {e : ε} {Q : Unit → Finset τ → Prop}
    (hQ : c → Q () X) : (require c e : Prog K V ε Unit).Attributed Reach S t Q X := by
  unfold require
  split
  next hc => exact hQ hc
  next => trivial

theorem attributed_require_bind {c : Prop} [Decidable c] {e : ε} {f : Unit → Prog K V ε α}
    (hf : c → (f ()).Attributed Reach S t Q X) :
    (require c e >>= f).Attributed Reach S t Q X := by
  refine (attributed_require (Q := fun _ X' => X' = X ∧ c) fun hc => ⟨rfl, hc⟩).bind
    fun _ X' hq => ?_
  obtain ⟨rfl, hc⟩ := hq
  exact hf hc

theorem attributed_orFail_bind {e : ε} {o : Option α} {f : α → Prog K V ε β}
    {Q : β → Finset τ → Prop} (hf : ∀ a, o = some a → (f a).Attributed Reach S t Q X) :
    (orFail e o >>= f).Attributed Reach S t Q X := by
  cases o with
  | none => trivial
  | some a => exact hf a rfl

end Prog

namespace Pool

variable {χ : Type} {code : χ → τ → Prog K V ε α} {X : Finset τ} {limit : Nat}
  {s s' : Pool τ K V ε α}

variable (Reach S code X) in
/-- What is left of a task goes on well when the tasks of `X` have written. -/
def GoesWell (t : τ) : Stage K V ε α → Prop
  | .waiting => ∀ c, (code c t).Attributed Reach S t (fun _ _ => True) X
  | .busy p => p.Attributed Reach S t (fun _ _ => True) X
  | .done o => o ≠ .panicked

theorem GoesWell.of_write (hReach : ∀ X X' k v, X ⊆ X' → Reach X k v → Reach X' k v) {r : τ}
    {stage : Stage K V ε α} (h : GoesWell Reach S code X r stage) (hr : r ≠ t) :
    GoesWell Reach S code (insert t X) r stage := by
  have hmem : r ∈ insert t X → r ∈ X := fun h => Finset.mem_of_mem_insert_of_ne h hr
  have hsub : X ⊆ insert t X := Finset.subset_insert t X
  match stage with
  | .waiting => exact fun c => (h c).mono hReach (fun _ _ _ _ _ => trivial) hsub hmem
  | .busy p => exact Prog.Attributed.mono hReach (fun _ _ _ _ _ => trivial) h hsub hmem
  | .done o => exact h

variable (Reach S code) in
/-- Every cell holds what it can hold after those who have written, and every task goes
on well. -/
def Attributed (s : Pool τ K V ε α) : Prop :=
  ∃ X ⊆ S, (∀ k v, s.memory k = some v → Reach X k v) ∧
    ∀ x ∈ s.tasks, GoesWell Reach S code X x.1 x.2

theorem attributed_start {tasks : List τ} {m₀ : Memory K V}
    (hm : ∀ k v, m₀ k = some v → Reach ∅ k v)
    (h : ∀ t ∈ tasks, ∀ c, (code c t).Attributed Reach S t (fun _ _ => True) ∅) :
    Attributed Reach S code (start m₀ tasks) := by
  refine ⟨∅, Finset.empty_subset S, hm, fun x hx => ?_⟩
  obtain ⟨t, ht, rfl⟩ := List.mem_map.mp hx
  exact h t ht

theorem Attributed.not_crashed (h : Attributed Reach S code s) :
    ∀ x ∈ s.tasks, x.2.crashed = false := by
  obtain ⟨X, -, -, htasks⟩ := h
  intro ⟨t, stage⟩ hx
  have hwell := htasks _ hx
  match stage with
  | .waiting => rfl
  | .busy p => rfl
  | .done (.ok a) => rfl
  | .done (.err e) => rfl
  | .done .panicked => exact absurd rfl hwell

variable [DecidableEq K]

theorem Attributed.next (hReach : ∀ X X' k v, X ⊆ X' → Reach X k v → Reach X' k v)
    (h : Attributed Reach S code s) (hnodup : (s.tasks.map Prod.fst).Nodup)
    (hnext : Next limit code s s') : Attributed Reach S code s' := by
  obtain ⟨X, hXS, hmemory, hwell⟩ := h
  cases moves_of_next hnext with
  | recv htasks =>
    rw [htasks, List.forall_mem_append, List.forall_mem_cons] at hwell
    refine ⟨X, hXS, hmemory, ?_⟩
    rw [List.forall_mem_append, List.forall_mem_cons]
    exact ⟨hwell.1, hwell.2.1 _, hwell.2.2⟩
  | finish htasks hended =>
    rename_i l₁ l₂ t p o
    rw [htasks, List.forall_mem_append, List.forall_mem_cons] at hwell
    refine ⟨X, hXS, hmemory, ?_⟩
    rw [List.forall_mem_append, List.forall_mem_cons]
    refine ⟨hwell.1, fun he => ?_, hwell.2.2⟩
    have hown : p.Attributed Reach S t (fun _ _ => True) X := hwell.2.1
    cases p with
    | panic => exact hown
    | ret a =>
      cases hended
      cases he
    | fail e =>
      cases hended
      cases he
    | read k cont => cases hended
    | write k v cont => cases hended
  | access htasks hadvance =>
    rename_i l₁ l₂ t p p' memory
    rw [htasks, List.map_append, List.map_cons, List.nodup_middle, List.nodup_cons,
      ← List.map_append] at hnodup
    rw [htasks, List.forall_mem_append, List.forall_mem_cons] at hwell
    obtain ⟨hwell₁, hown, hwell₂⟩ := hwell
    cases p with
    | ret a => cases hadvance
    | fail e => cases hadvance
    | panic => cases hadvance
    | read k cont =>
      cases hadvance
      refine ⟨X, hXS, hmemory, ?_⟩
      rw [List.forall_mem_append, List.forall_mem_cons]
      exact ⟨hwell₁, hown X (fun _ h => h) hXS id _ (hmemory k), hwell₂⟩
    | write k v cont =>
      cases hadvance
      obtain ⟨htS, hv, hrest⟩ := hown
      have hne : ∀ x : τ × Stage K V ε α, x ∈ l₁ ++ l₂ → x.1 ≠ t := fun x hx he =>
        hnodup.1 (List.mem_map.mpr ⟨x, hx, he⟩)
      -- From now on the task is among those who have written.
      refine ⟨insert t X, Finset.insert_subset htS hXS, ?_, ?_⟩
      · refine (Function.forall_update_iff _ fun j w => ∀ b, w = some b →
          Reach (insert t X) j b).mpr ⟨fun b hb => ?_, fun j _ b hb => ?_⟩
        · obtain rfl := Option.some.inj hb
          exact hv
        · exact hReach _ _ _ _ (Finset.subset_insert t X) (hmemory j b hb)
      · rw [List.forall_mem_append, List.forall_mem_cons]
        exact ⟨fun x hx => (hwell₁ x hx).of_write hReach (hne x (List.mem_append_left _ hx)),
          hrest, fun x hx => (hwell₂ x hx).of_write hReach (hne x (List.mem_append_right _ hx))⟩

end Pool

end InterBit.Lib
