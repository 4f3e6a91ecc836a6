import InterBit.Dex.ConstantProduct
import InterBit.Lib.Assoc

/-!
# The accounts of the liquidity providers

`Accounted` is the invariant of a pool over all runs of its calls, panics included: the balances
add up to the supply, and a supply is backed by both tokens. A withdrawal pays at most what its
share is worth, so that something is left for a supply that is left.
-/

namespace InterBit.Dex.AmmPool

open InterBit.Lib

variable {D : Type} {env : DexEnv D} {reentry : Bool}

/-- The sum of the balances. -/
def balances (pool : AmmPool) : Nat := weigh BitVec.toNat pool.liquidityProviders

/-- The balances add up to the supply, which is backed by both tokens. -/
structure Accounted (pool : AmmPool) : Prop where
  sum : pool.balances = pool.totalSupply.toNat
  backed : 0 < pool.totalSupply.toNat → pool.Funded

theorem accounted_new (tokenA tokenB : H256) : (new tokenA tokenB).Accounted :=
  ⟨rfl, fun h => absurd h (Nat.lt_irrefl 0)⟩

theorem toNat_balance (pool : AmmPool) (provider : Address) :
    (pool.balance provider).toNat = weightAt BitVec.toNat pool.liquidityProviders provider := by
  unfold balance weightAt
  cases pool.liquidityProviders.lookup provider with
  | none => rfl
  | some balance => rfl

/-- Nobody has more than all have. -/
theorem balance_le_balances (pool : AmmPool) (provider : Address) :
    (pool.balance provider).toNat ≤ pool.balances := by
  rw [toNat_balance, balances, weigh_eq_weightAt _ _ provider]
  exact Nat.le_add_right ..

/-- Setting a balance moves the sum by as much. -/
theorem balances_setBalance (pool : AmmPool) (provider : Address) (after : U256) :
    (pool.setBalance provider after).balances + (pool.balance provider).toNat
      = pool.balances + after.toNat := by
  rw [toNat_balance, balances, balances, weigh_eq_weightAt _ pool.liquidityProviders provider,
    setBalance, weigh_insert]
  omega

/-- The oracle does not matter. -/
theorem SameButOracle.accounted {pool pool' : AmmPool} (h : pool.SameButOracle pool')
    (haccounted : pool.Accounted) : pool'.Accounted := by
  obtain ⟨_, _, rfl⟩ := h
  exact ⟨haccounted.sum, haccounted.backed⟩

theorem Topped.accounted {pool pool' : AmmPool} (h : pool.Topped pool')
    (haccounted : pool.Accounted) : pool'.Accounted := by
  obtain ⟨reserveA, reserveB, rfl, hleA, hleB, _⟩ := h
  refine ⟨haccounted.sum, fun hpos => ?_⟩
  obtain ⟨hA, hB⟩ := haccounted.backed hpos
  exact ⟨hA.trans_le hleA, hB.trans_le hleB⟩

/-! ## Deposits -/

variable {pool minted : AmmPool} {amountA amountB lp : U256}

/-- What is minted goes into the total. -/
theorem Minted.totalSupply (h : pool.Minted amountA amountB lp minted) :
    minted.totalSupply.toNat = pool.totalSupply.toNat + lp.toNat := by
  cases h with
  | initial _ hzero =>
    rw [hzero]
    exact (Nat.zero_add _).symm
  | proportional _ _ _ _ _ _ _ htotal => exact htotal

/-- After a deposit there is something in both reserves. -/
theorem Minted.funded (h : pool.Minted amountA amountB lp minted) (haccounted : pool.Accounted)
    (hpos : 0 < minted.totalSupply.toNat) : minted.Funded := by
  cases h with
  | initial product _ hproduct hlp =>
    have hproduct := mulU256_eq.mp hproduct
    have hne : product.toNat ≠ 0 := by
      intro hzero
      -- The square root of nothing is nothing.
      rw [sqrt, if_pos (BitVec.eq_of_toNat_eq hzero)] at hlp
      rw [← Option.some.inj hlp] at hpos
      exact Nat.lt_irrefl 0 hpos
    rw [hproduct] at hne
    exact ⟨Nat.pos_of_ne_zero (Nat.ne_zero_of_mul_ne_zero_left hne),
      Nat.pos_of_ne_zero (Nat.ne_zero_of_mul_ne_zero_right hne)⟩
  | proportional reserveA reserveB totalSupply hne _ hA hB _ =>
    have hsupply : 0 < pool.totalSupply.toNat :=
      Nat.pos_of_ne_zero fun h => hne (BitVec.eq_of_toNat_eq h)
    obtain ⟨hposA, hposB⟩ := haccounted.backed hsupply
    exact ⟨hA ▸ Nat.add_pos_left hposA _, hB ▸ Nat.add_pos_left hposB _⟩

theorem Minted.balances (h : pool.Minted amountA amountB lp minted) :
    minted.balances = pool.balances := by
  rw [AmmPool.balances, h.liquidityProviders, AmmPool.balances]

/-- A balance is part of the supply, so that there is room for what is credited to it. -/
theorem Minted.room (h : pool.Minted amountA amountB lp minted) (haccounted : pool.Accounted)
    (provider : Address) : (pool.balance provider).toNat + lp.toNat < 2 ^ 256 := by
  have hle := balance_le_balances pool provider
  have hsum := haccounted.sum
  have htotal := h.totalSupply
  have hlt := minted.totalSupply.isLt
  omega

/-- A deposit that has been credited. -/
theorem Minted.accounted {amountA amountB lp after : U256} {provider : Address}
    (h : pool.Minted amountA amountB lp minted) (haccounted : pool.Accounted)
    (hafter : after.toNat = (pool.balance provider).toNat + lp.toNat) :
    (minted.setBalance provider after).Accounted := by
  refine ⟨?_, h.funded haccounted⟩
  have hbalance : minted.balance provider = pool.balance provider := by
    rw [balance, h.liquidityProviders, balance]
  have hset := balances_setBalance minted provider after
  have hsum := haccounted.sum
  have htotal := h.totalSupply
  rw [hbalance, h.balances] at hset
  rw [show (minted.setBalance provider after).totalSupply = minted.totalSupply from rfl]
  omega

/-- A deposit credits what it mints, or panics before. -/
theorem addLiquidity_accounted {pool : AmmPool} (h : pool.Accounted) (now : U64)
    (amountA amountB : U256) (provider : Address) :
    ((addLiquidity env now amountA amountB provider).run reentry [] pool).2.Accounted := by
  obtain ⟨_, _, htopped⟩ | ⟨lp, minted, _, hminted, hrest⟩ :=
    @addLiquidity_spec _ env reentry now amountA amountB provider pool
  · exact htopped.accounted h
  obtain ⟨hlarge, _⟩ | ⟨after, hafter, hsame, _⟩ := hrest
  · exact absurd (hminted.room h provider) (Nat.not_lt_of_le hlarge)
  · exact hsame.accounted (hminted.accounted h hafter)

/-! ## Withdrawals -/

/-- A withdrawal burns what it debits. -/
theorem Removed.accounted {pool removed : AmmPool} {lpTokens amountA amountB : U256}
    {provider : Address} (h : pool.Removed lpTokens amountA amountB provider removed)
    (haccounted : pool.Accounted) : removed.Accounted := by
  cases h with
  | intro reserveA reserveB totalSupply after _ hamountA hamountB hA hB htotal hafter =>
    refine ⟨?_, fun hpos => ?_⟩
    · have hset := balances_setBalance { pool with reserveA, reserveB, totalSupply } provider after
      have hsum := haccounted.sum
      rw [show balance { pool with reserveA, reserveB, totalSupply } provider = pool.balance provider
        from rfl, show balances { pool with reserveA, reserveB, totalSupply } = pool.balances
        from rfl] at hset
      rw [show (setBalance { pool with reserveA, reserveB, totalSupply } provider after).totalSupply
        = totalSupply from rfl]
      omega
    · have hpos : 0 < totalSupply.toNat := hpos
      obtain ⟨hposA, hposB⟩ := haccounted.backed (by omega)
      -- Who leaves a part of the supply leaves a part of the reserves.
      have hlt : lpTokens.toNat < pool.totalSupply.toNat := by omega
      have hltA : pool.worth lpTokens.toNat .a < pool.reserveA.toNat := share_lt hlt hposA
      have hltB : pool.worth lpTokens.toNat .b < pool.reserveB.toNat := share_lt hlt hposB
      exact ⟨show 0 < reserveA.toNat by omega, show 0 < reserveB.toNat by omega⟩

/-- A withdrawal keeps the account however it ends. -/
theorem removeLiquidity_accounted {pool : AmmPool} (h : pool.Accounted) (now : U64)
    (lpTokens : U256) (provider : Address) :
    ((removeLiquidity env now lpTokens provider).run reentry [] pool).2.Accounted := by
  obtain ⟨_, _, hsame⟩ | ⟨amountA, amountB, removed, hremoved, hsame, _⟩ :=
    @removeLiquidity_spec _ env reentry now lpTokens provider pool
  · rw [hsame (h.sum ▸ balance_le_balances pool provider)]
    exact h
  · exact hsame.accounted (hremoved.accounted h)

/-! ## Whole runs -/

/-- Swaps have nothing to do with shares. -/
theorem swapped_accounted {pool : AmmPool} (h : pool.Accounted) (call : SwapCall) :
    (swapped env pool call).Accounted := by
  have hsame : (swapped env pool call).totalSupply = pool.totalSupply ∧
      (swapped env pool call).liquidityProviders = pool.liquidityProviders := by
    obtain ⟨_, hpool, _⟩ | ⟨side, _, _, _, _, _, ⟨_, _, hpool⟩, _⟩ :=
      @swap_spec _ env true call.now call.amountIn call.tokenIn pool
    · rw [swapped, SwapCall.run, Routine.reentrant, hpool]
      exact ⟨rfl, rfl⟩
    · rw [swapped, SwapCall.run, Routine.reentrant, hpool]
      constructor
      · simp only [setReserve_totalSupply]
      · simp only [setReserve_liquidityProviders]
  refine ⟨?_, fun hpos => ?_⟩
  · rw [balances, hsame.1, hsame.2]
    exact h.sum
  · rw [hsame.1] at hpos
    exact (swapped_spec (h.backed hpos) call).1

/-- A call on a pool. -/
inductive PoolCall where
  | add (now : U64) (amountA amountB : U256) (provider : Address)
  | remove (now : U64) (lpTokens : U256) (provider : Address)
  | swap (call : SwapCall)

/-- The pool after a call, as if the locks were re-entrant. -/
def apply (env : DexEnv D) (pool : AmmPool) : PoolCall → AmmPool
  | .add now amountA amountB provider =>
    ((addLiquidity env now amountA amountB provider).reentrant pool).2
  | .remove now lpTokens provider => ((removeLiquidity env now lpTokens provider).reentrant pool).2
  | .swap call => swapped env pool call

/-- Every call keeps the account. -/
theorem Accounted.apply {pool : AmmPool} (h : pool.Accounted) (call : PoolCall) :
    (pool.apply env call).Accounted := by
  cases call with
  | add now amountA amountB provider => exact addLiquidity_accounted h now amountA amountB provider
  | remove now lpTokens provider => exact removeLiquidity_accounted h now lpTokens provider
  | swap call => exact swapped_accounted h call

/-- Every run keeps the account. -/
theorem Accounted.run {pool : AmmPool} (h : pool.Accounted) (calls : List PoolCall) :
    (calls.foldl (AmmPool.apply env) pool).Accounted := by
  induction calls generalizing pool with
  | nil => exact h
  | cons call calls ih => exact ih (h.apply call)

/-- After any calls on a new pool the balances add up to the supply, and a supply is backed by at
least one of each token. -/
theorem lp_accounting (env : DexEnv D) (tokenA tokenB : H256) (calls : List PoolCall) :
    let pool := calls.foldl (AmmPool.apply env) (new tokenA tokenB)
    (pool.liquidityProviders.entries.map fun entry => entry.2.toNat).sum = pool.totalSupply.toNat ∧
      (0 < pool.totalSupply.toNat → 1 ≤ pool.reserveA.toNat ∧ 1 ≤ pool.reserveB.toNat) := by
  intro pool
  have h : pool.Accounted := (accounted_new tokenA tokenB).run calls
  exact ⟨h.sum, h.backed⟩

end InterBit.Dex.AmmPool
