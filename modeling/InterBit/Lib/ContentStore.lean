import Mathlib.Logic.Function.Basic

/-!
# Content-addressed stores

A store files every node under the digest of its own content. Nodes point at
each other by digest, so equal nodes share one entry and nothing counts how
many places refer to it. This file is the vocabulary for such stores over an
arbitrary digest type `H` and node type `N`: the two updates (`insert`,
`remove`), reachability along the edges of a node, and `Closed` (nothing
reachable is missing), with the rule that proves it (`closed_of_invariant`).
-/

namespace InterBit.Lib

/-- A map from digests to nodes. -/
abbrev Store (H N : Type) := H → Option N

namespace Store

variable {H N : Type} [DecidableEq H]

/-- File `n` under `h`, replacing what was there. -/
def insert (σ : Store H N) (h : H) (n : N) : Store H N := Function.update σ h (some n)

/-- Drop the entry under `h`. -/
def remove (σ : Store H N) (h : H) : Store H N := Function.update σ h none

@[simp] theorem insert_self (σ : Store H N) (h : H) (n : N) : σ.insert h n h = some n := by
  simp [insert]

@[simp] theorem remove_self (σ : Store H N) (h : H) : σ.remove h h = none := by
  simp [remove]

theorem insert_ne {σ : Store H N} {h x : H} (n : N) (hx : x ≠ h) : σ.insert h n x = σ x := by
  simp [insert, hx]

theorem remove_ne {σ : Store H N} {h x : H} (hx : x ≠ h) : σ.remove h x = σ x := by
  simp [remove, hx]

/-- Filing what is there already. -/
theorem insert_eq_self {σ : Store H N} {h : H} {n : N} (hn : σ h = some n) : σ.insert h n = σ :=
  Function.update_eq_self_iff.mpr hn.symm

/-- Dropping an entry and filing it again. -/
theorem remove_insert_eq_self {σ : Store H N} {h : H} {n : N} (hn : σ h = some n) :
    (σ.remove h).insert h n = σ := by
  rw [insert, remove, Function.update_idem]
  exact insert_eq_self hn

end Store

variable {H N : Type}

/-- `x` is reached from `h` by following the edges of stored nodes. -/
inductive Reaches (edges : N → H → Prop) (σ : Store H N) (h : H) : H → Prop
  | root : Reaches edges σ h h
  | step {x y : H} {n : N} : Reaches edges σ h x → σ x = some n → edges n y →
      Reaches edges σ h y

/-- Every digest reached from `h` is a key, and what it maps to has that digest. -/
def Closed (digest : N → H) (edges : N → H → Prop) (σ : Store H N) (h : H) : Prop :=
  ∀ x, Reaches edges σ h x → ∃ n, σ x = some n ∧ digest n = x

/-- A set of digests that contains the root, and with each digest its node and
the targets of the node's edges, closes the store. -/
theorem closed_of_invariant {digest : N → H} {edges : N → H → Prop} {σ : Store H N} {h : H}
    {S : H → Prop} (hroot : S h)
    (hS : ∀ x, S x → ∃ n, σ x = some n ∧ digest n = x ∧ ∀ y, edges n y → S y) :
    Closed digest edges σ h := by
  have hmem : ∀ x, Reaches edges σ h x → S x := by
    intro x hx
    induction hx with
    | root => exact hroot
    | step _ hn hy ih =>
      obtain ⟨m, hm, -, hedges⟩ := hS _ ih
      rw [hm] at hn
      exact hedges _ (Option.some.inj hn ▸ hy)
  intro x hx
  obtain ⟨n, hn, hd, -⟩ := hS x (hmem x hx)
  exact ⟨n, hn, hd⟩

end InterBit.Lib
