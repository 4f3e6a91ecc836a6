import InterBit.Dex.AmmPool
import InterBit.Dex.LiquidityAggregator

/-!
# The square root of pools and quotes

Newton's loop stands twice in the exchange: `AmmPool::sqrt` sizes the first deposit of a pool,
`LiquidityAggregator::sqrt` the price of a quote. They are one computation (`toOption_sqrt`),
and it finds the root rounded down for every number but the largest, where `x + 1` panics
before the loop.
-/

namespace InterBit.Dex

open InterBit.Lib

/-- The greatest number with a square of at most `x`. -/
def IsIntegerSqrt (x r : Nat) : Prop := r * r ≤ x ∧ ∀ s, s * s ≤ x → s ≤ r

theorem isIntegerSqrt_sqrt (x : Nat) : IsIntegerSqrt x (Nat.sqrt x) :=
  ⟨Nat.sqrt_le x, fun _ hs => Nat.le_sqrt.mpr hs⟩

namespace LiquidityAggregator

open Panicking

theorem toOption_because {α : Type} (cause : PanicCause) (result : Option α) :
    (because cause result).toOption = result := by
  cases result with
  | none => rfl
  | some v => rfl

theorem toOption_bind {α β : Type} (c : Panicking α) (k : α → Panicking β) :
    (c >>= k).toOption = c.toOption >>= fun v => (k v).toOption := by
  cases c with
  | error cause => rfl
  | ok v => rfl

theorem toOption_add (a b : U256) : (add a b).toOption = addU256 b a := by
  rw [add, toOption_because, addU256, addU256, Nat.add_comm, BitVec.add_comm]

/-- The two loops add in a different order only. -/
theorem toOption_sqrtLoop (value : U256) (n : Nat) :
    ∀ x y : U256, x.toNat ≤ n →
      (sqrtLoop value x y).toOption = AmmPool.sqrtLoop value x y := by
  induction n with
  | zero =>
    intro x y hx
    rw [sqrtLoop, AmmPool.sqrtLoop, if_neg, if_neg]
    · rfl
    all_goals
      intro hlt
      have := BitVec.lt_def.mp hlt
      omega
  | succ n ih =>
    intro x y hx
    rw [sqrtLoop, AmmPool.sqrtLoop]
    split
    next hlt =>
      have hlt := BitVec.lt_def.mp hlt
      have hy : y.toNat ≤ n := by omega
      simp only [toOption_bind, toOption_add, div, toOption_because, ih y _ hy]
    next => rfl

/-- Both square roots are one computation. -/
theorem toOption_sqrt (value : U256) : (sqrt value).toOption = AmmPool.sqrt value := by
  unfold sqrt AmmPool.sqrt
  split
  next => rfl
  next =>
    simp only [toOption_bind, add, div, toOption_because, toOption_sqrtLoop value _ value _ le_rfl]

theorem sqrt_eq_ok {value r : U256} : sqrt value = .ok r ↔ AmmPool.sqrt value = some r := by
  rw [← toOption_sqrt]
  cases sqrt value with
  | error cause => exact ⟨nofun, nofun⟩
  | ok v =>
    exact ⟨fun h => congrArg some (Except.ok.inj h), fun h => congrArg _ (Option.some.inj h)⟩

end LiquidityAggregator

/-- Both square roots return the greatest root of all numbers but the largest. -/
theorem sqrt_greatest_iff (x : U256) :
    (∃ r, AmmPool.sqrt x = some r ∧ IsIntegerSqrt x.toNat r.toNat) ∧
        (∃ r, LiquidityAggregator.sqrt x = .ok r ∧ IsIntegerSqrt x.toNat r.toNat) ↔
      x.toNat + 1 < 2 ^ 256 := by
  constructor
  · intro h
    obtain ⟨⟨r, hr, -⟩, -⟩ := h
    refine (AmmPool.sqrt_isSome x).mp ?_
    rw [hr]
    rfl
  · intro h
    obtain ⟨r, hr, hroot⟩ := AmmPool.sqrt_eq x h
    have hgreatest : IsIntegerSqrt x.toNat r.toNat := hroot ▸ isIntegerSqrt_sqrt x.toNat
    exact ⟨⟨r, hr, hgreatest⟩, r, LiquidityAggregator.sqrt_eq_ok.mpr hr, hgreatest⟩

/-- The largest number has no square root. -/
theorem sqrt_largest_panics :
    ¬ ((∃ r, AmmPool.sqrt (BitVec.allOnes 256) = some r ∧
          IsIntegerSqrt (BitVec.allOnes 256).toNat r.toNat) ∧
        ∃ r, LiquidityAggregator.sqrt (BitVec.allOnes 256) = .ok r ∧
          IsIntegerSqrt (BitVec.allOnes 256).toNat r.toNat) := by
  intro h
  obtain ⟨⟨r, hr, -⟩, -⟩ := h
  have hsome := (AmmPool.sqrt_isSome (BitVec.allOnes 256)).mp (by rw [hr]; rfl)
  rw [BitVec.toNat_allOnes] at hsome
  exact absurd hsome (by decide)

end InterBit.Dex
