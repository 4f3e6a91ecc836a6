import InterBit.Dex.AmmPool

/-!
# The constant product

A swap takes the amount with the fee, and pays for the amount without it, rounded down. So the
product of the reserves never goes down, whatever the directions of the swaps. A panic in the
middle of a swap changes nothing or comes after the exchange.
-/

namespace InterBit.Dex.AmmPool

open InterBit.Lib

variable {D : Type} {env : DexEnv D}

/-- The arguments of a call of `swap`, and the time. -/
structure SwapCall where
  now : U64
  amountIn : U256
  tokenIn : H256

/-- The run of a call, as if the locks were re-entrant. -/
def SwapCall.run (env : DexEnv D) (call : SwapCall) (pool : AmmPool) :
    Ending AmmLock (Except DexError U256) × AmmPool :=
  (swap env call.now call.amountIn call.tokenIn).reentrant pool

/-- The pool after a call. -/
def swapped (env : DexEnv D) (pool : AmmPool) (call : SwapCall) : AmmPool := (call.run env pool).2

/-- The product of the reserves. -/
def product (pool : AmmPool) : Nat := pool.reserveA.toNat * pool.reserveB.toNat

/-- Both reserves are positive. -/
def Funded (pool : AmmPool) : Prop := 0 < pool.reserveA.toNat ∧ 0 < pool.reserveB.toNat

theorem product_eq (pool : AmmPool) (side : Side) :
    pool.product = (pool.reserve side).toNat * (pool.reserve side.other).toNat := by
  cases side with
  | a => rfl
  | b => exact Nat.mul_comm ..

theorem funded_iff (pool : AmmPool) (side : Side) :
    pool.Funded ↔ 0 < (pool.reserve side).toNat ∧ 0 < (pool.reserve side.other).toNat := by
  cases side with
  | a => exact Iff.rfl
  | b => exact And.comm

theorem SameButOracle.reserve {pool pool' : AmmPool} (h : pool.SameButOracle pool') (side : Side) :
    pool'.reserve side = pool.reserve side := by
  obtain ⟨_, _, rfl⟩ := h
  cases side <;> rfl

theorem net_le (pool : AmmPool) (amountIn : Nat) : pool.net amountIn ≤ amountIn :=
  Nat.div_le_of_le_mul (by
    rw [Nat.mul_comm]
    exact Nat.mul_le_mul_right _ (Nat.sub_le ..))

/-- What a call does: either nothing but to fail, or the exchange. -/
theorem run_spec (call : SwapCall) (pool : AmmPool) :
    let r := call.run env pool
    (r.2 = pool ∧ ∀ out, r.1 ≠ .returned (.ok out)) ∨
    ∃ side out, pool.sideOf call.tokenIn = some side ∧
      (r.2.reserve side).toNat = (pool.reserve side).toNat + call.amountIn.toNat ∧
      (r.2.reserve side.other).toNat + out.toNat = (pool.reserve side.other).toNat ∧
      out.toNat
        = pool.quote call.amountIn.toNat (pool.reserve side).toNat (pool.reserve side.other).toNat ∧
      (r.1 = .returned (.ok out) ∨ r.1 = .panicked) := by
  intro r
  obtain ⟨_, hpool, he⟩ | ⟨side, out, reserveIn, reserveOut, hside, hswapped, hsame, hfinish⟩ :=
    @swap_spec _ env true call.now call.amountIn call.tokenIn pool
  · refine Or.inl ⟨hpool, fun out hout => ?_⟩
    rcases he with he | ⟨error, he⟩
    · cases he.symm.trans hout
    · cases he.symm.trans hout
  · have hsame : ((pool.setReserve side reserveIn).setReserve side.other
        reserveOut).SameButOracle r.2 := hsame
    refine Or.inr ⟨side, out, hside, ?_, ?_, hswapped.quoted, ?_⟩
    · rw [hsame.reserve, reserve_setReserve_of_other, reserve_setReserve_self]
      exact hswapped.reserveIn
    · rw [hsame.reserve, reserve_setReserve_self]
      exact hswapped.reserveOut
    · rcases hfinish with ⟨he, _⟩ | ⟨_, h, _⟩
      · exact he
      · cases h

theorem swapped_spec {pool : AmmPool} (hfunded : pool.Funded) (call : SwapCall) :
    (swapped env pool call).Funded ∧ pool.product ≤ (swapped env pool call).product := by
  obtain ⟨hpool, _⟩ | ⟨side, out, _, hin, hout, hquoted, _⟩ := @run_spec _ env call pool
  · rw [swapped, hpool]
    exact ⟨hfunded, le_rfl⟩
  · -- The product goes up by the fee and by what has been rounded off.
    obtain ⟨hposIn, hposOut⟩ := (funded_iff pool side).mp hfunded
    have hlt := payout_lt (pool.net call.amountIn.toNat) hposIn hposOut
    have hproduct := product_le_of_payout (pool.reserve side).toNat (pool.reserve side.other).toNat
      (net_le pool call.amountIn.toNat)
    rw [show payout _ _ _ = out.toNat from hquoted.symm] at hlt hproduct
    rw [funded_iff _ side, product_eq _ side, product_eq (swapped env pool call) side, swapped, hin]
    rw [← hout, Nat.add_sub_cancel] at hproduct
    rw [← hout] at hlt
    exact ⟨⟨by omega, by omega⟩, hout ▸ hproduct⟩

/-- Along a run of swaps the reserves stay positive and their product never goes down; a call that
fails moves no reserve, and one that returns moves them by exactly what goes in and out. -/
theorem constant_product (env : DexEnv D) {pool : AmmPool} (hfunded : pool.Funded)
    (calls : List SwapCall) (call : SwapCall) :
    let before := calls.foldl (swapped env) pool
    let after := call.run env before
    before.Funded ∧ after.2.Funded ∧ pool.product ≤ before.product ∧
      before.product ≤ after.2.product ∧
      (∀ error, after.1 = .returned (.error error) → ∀ side,
        after.2.reserve side = before.reserve side) ∧
      (∀ out, after.1 = .returned (.ok out) → ∃ side, before.sideOf call.tokenIn = some side ∧
        (after.2.reserve side).toNat = (before.reserve side).toNat + call.amountIn.toNat ∧
        (after.2.reserve side.other).toNat + out.toNat = (before.reserve side.other).toNat) := by
  intro before after
  have hbefore : before.Funded ∧ pool.product ≤ before.product := by
    induction calls generalizing pool with
    | nil => exact ⟨hfunded, le_rfl⟩
    | cons first calls ih =>
      obtain ⟨hnext, hle⟩ := @swapped_spec _ env pool hfunded first
      obtain ⟨hlast, hle'⟩ := ih hnext
      exact ⟨hlast, hle.trans hle'⟩
  obtain ⟨hafter, hle⟩ := @swapped_spec _ env before hbefore.1 call
  refine ⟨hbefore.1, hafter, hbefore.2, hle, fun error herror side => ?_, fun out hout => ?_⟩
  · obtain ⟨hpool, _⟩ | ⟨_, _, _, _, _, _, he⟩ := @run_spec _ env call before
    · rw [show after.2 = before from hpool]
    · rcases he with he | he <;> cases herror.symm.trans he
  · obtain ⟨_, hno⟩ | ⟨side, out', hside, hin, hout', _, he⟩ := @run_spec _ env call before
    · exact absurd hout (hno out)
    · rcases he with he | he
      · cases hout.symm.trans he
        exact ⟨side, hside, hin, hout'⟩
      · cases hout.symm.trans he

/-- A pool of 1000 of each token. -/
def sampleFunded : AmmPool :=
  { new (sampleToken 0) (sampleToken 1) with reserveA := 1000, reserveB := 1000 }

theorem constant_product_sample :
    let call : SwapCall := ⟨1, 100, sampleToken 0⟩
    (call.run sampleDexEnv sampleFunded).1 = .returned (.ok 90) ∧
      sampleFunded.product ≤ (call.run sampleDexEnv sampleFunded).2.product := by
  intro call
  have hfunded : sampleFunded.Funded := ⟨by decide, by decide⟩
  exact ⟨by decide +kernel, (constant_product sampleDexEnv hfunded [] call).2.2.2.1⟩

end InterBit.Dex.AmmPool
