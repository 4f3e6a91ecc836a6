import InterBit.Dex.LpAccounting

/-!
# What the other providers could withdraw

A withdrawal is rounded down and so takes nothing from the others. A deposit is not: the
liquidity is rounded down first, and then the amounts that are taken for it are rounded down as
well. What a deposit is spared in this way the others may lose. `others_keep_iff` says exactly
when they do not.
-/

namespace InterBit.Dex.AmmPool

open InterBit.Lib

variable {D : Type} {env : DexEnv D}

/-- What a provider could withdraw of a token. -/
def withdrawable (pool : AmmPool) (provider : Address) (side : Side) : Nat :=
  share (pool.balance provider).toNat (pool.reserve side).toNat pool.totalSupply.toNat

/-- A provider could withdraw no less than before. -/
def Keeps (pool pool' : AmmPool) (provider : Address) : Prop :=
  ∀ side, pool.withdrawable provider side ≤ pool'.withdrawable provider side

/-- What rounding spares a deposit of `liquidity` is no more than what it has cost the provider
so far. -/
def RoundingCovered (pool : AmmPool) (liquidity : Nat) (provider : Address) : Prop :=
  ∀ side,
    (pool.balance provider).toNat * (liquidity * (pool.reserve side).toNat % pool.totalSupply.toNat)
      ≤ ((pool.balance provider).toNat * (pool.reserve side).toNat % pool.totalSupply.toNat)
        * (pool.totalSupply.toNat + liquidity)

variable {provider other : Address}

theorem balance_setBalance_of_ne (pool : AmmPool) (after : U256) (h : other ≠ provider) :
    (pool.setBalance provider after).balance other = pool.balance other := by
  rw [balance, setBalance, AList.lookup_insert_ne h, balance]

theorem SameButOracle.withdrawable {pool pool' : AmmPool} (h : pool.SameButOracle pool')
    (provider : Address) (side : Side) :
    pool'.withdrawable provider side = pool.withdrawable provider side := by
  obtain ⟨_, _, rfl⟩ := h
  cases side <;> rfl

theorem Topped.keeps {pool pool' : AmmPool} (h : pool.Topped pool') (provider : Address) :
    pool.Keeps pool' provider := by
  obtain ⟨reserveA, reserveB, rfl, hleA, hleB, _⟩ := h
  intro side
  cases side with
  | a => exact share_mono _ _ hleA
  | b => exact share_mono _ _ hleB

/-- A deposit that has been credited, as another provider sees it. -/
theorem Minted.withdrawable {pool minted : AmmPool} {amountA amountB lp : U256}
    (h : pool.Minted amountA amountB lp minted) (hpos : 0 < pool.totalSupply.toNat)
    (hne : other ≠ provider) (after : U256) (side : Side) :
    lp.toNat = pool.liquidityFor amountA.toNat amountB.toNat ∧
      (minted.setBalance provider after).withdrawable other side
        = share (pool.balance other).toNat
            ((pool.reserve side).toNat + share lp.toNat (pool.reserve side).toNat
              pool.totalSupply.toNat) (pool.totalSupply.toNat + lp.toNat) := by
  have hbalance : (minted.setBalance provider after).balance other = pool.balance other := by
    rw [balance_setBalance_of_ne _ _ hne, balance, h.liquidityProviders, balance]
  cases h with
  | initial _ hzero =>
    rw [hzero] at hpos
    exact absurd hpos (Nat.lt_irrefl 0)
  | proportional reserveA reserveB totalSupply _ hlp hA hB htotal =>
    refine ⟨hlp, ?_⟩
    rw [AmmPool.withdrawable, hbalance, ← htotal]
    cases side with
    | a => exact congrArg (fun R => share _ R totalSupply.toNat) hA
    | b => exact congrArg (fun R => share _ R totalSupply.toNat) hB

theorem addLiquidity_keeps_iff {pool : AmmPool} (h : pool.Accounted)
    (hpos : 0 < pool.totalSupply.toNat) (now : U64) (amountA amountB : U256)
    (hne : other ≠ provider) :
    pool.Keeps ((addLiquidity env now amountA amountB provider).reentrant pool).2 other ↔
      (pool.Fits amountA.toNat amountB.toNat →
        pool.RoundingCovered (pool.liquidityFor amountA.toNat amountB.toNat) other) := by
  have hmintable : pool.Mintable amountA.toNat amountB.toNat
      = pool.Fits amountA.toNat amountB.toNat := by
    rw [Mintable, if_neg fun hzero => ?_]
    rw [hzero] at hpos
    exact Nat.lt_irrefl 0 hpos
  obtain ⟨hno, _, htopped⟩ | ⟨lp, minted, hyes, hminted, hrest⟩ :=
    @addLiquidity_spec _ env true now amountA amountB provider pool
  · rw [hmintable] at hno
    exact iff_of_true (htopped.keeps other) fun hfits => absurd hfits hno
  obtain ⟨hlarge, _⟩ | ⟨after, _, hsame, _⟩ := hrest
  · exact absurd (hminted.room h provider) (Nat.not_lt_of_le hlarge)
  · rw [hmintable] at hyes
    refine Iff.trans ?_ (forall_prop_of_true hyes).symm
    refine forall_congr' fun side => ?_
    obtain ⟨hlp, hafter⟩ := hminted.withdrawable hpos hne after side
    rw [Routine.reentrant, hsame.withdrawable, hafter, AmmPool.withdrawable, ← hlp]
    exact share_le_iff_of_deposit hpos ..

theorem removeLiquidity_keeps {pool : AmmPool} (h : pool.Accounted) (now : U64) (lpTokens : U256)
    (hne : other ≠ provider) :
    pool.Keeps ((removeLiquidity env now lpTokens provider).reentrant pool).2 other := by
  obtain ⟨_, _, hsame⟩ | ⟨amountA, amountB, removed, hremoved, hsame, _⟩ :=
    @removeLiquidity_spec _ env true now lpTokens provider pool
  · rw [Routine.reentrant, hsame (h.sum ▸ balance_le_balances pool provider)]
    exact fun _ => le_rfl
  · intro side
    rw [Routine.reentrant, hsame.withdrawable]
    cases hremoved with
    | intro reserveA reserveB totalSupply after hremovable hamountA hamountB hA hB htotal _ =>
      -- Together, the two own no more than all there is.
      have hboth : (pool.balance other).toNat + lpTokens.toNat ≤ pool.totalSupply.toNat := by
        have hadd := weightAt_add_le BitVec.toNat pool.liquidityProviders hne
        rw [← toNat_balance, ← toNat_balance] at hadd
        have hsum := h.sum
        have hcovered := hremovable.covered
        unfold balances at hsum
        omega
      have hbalance : balance (setBalance { pool with reserveA, reserveB, totalSupply } provider
          after) other = pool.balance other := balance_setBalance_of_ne _ _ hne
      have hleft : ∀ {R R' amount : Nat}, amount = share lpTokens.toNat R pool.totalSupply.toNat →
          R' + amount = R → share (pool.balance other).toNat R pool.totalSupply.toNat
            ≤ share (pool.balance other).toNat R' totalSupply.toNat := by
        intro R R' amount hamount hR
        have hle := share_le_of_withdrawal R hboth
        rw [← hamount] at hle
        rw [show R' = R - amount by omega, show totalSupply.toNat
          = pool.totalSupply.toNat - lpTokens.toNat by omega]
        exact hle
      rw [withdrawable, withdrawable, hbalance]
      cases side with
      | a => exact hleft hamountA hA
      | b => exact hleft hamountB hB

/-- In a pool that is reached from a new one and has liquidity, a withdrawal takes nothing from
another provider, and a deposit takes nothing exactly if it fails or its rounding is covered. -/
theorem others_keep_iff (env : DexEnv D) (tokenA tokenB : H256) (calls : List PoolCall) :
    let pool := calls.foldl (AmmPool.apply env) (new tokenA tokenB)
    0 < pool.totalSupply.toNat → ∀ (now : U64) (provider other : Address), other ≠ provider →
      (∀ amountA amountB, pool.Keeps (pool.apply env (.add now amountA amountB provider)) other ↔
        (pool.Fits amountA.toNat amountB.toNat →
          pool.RoundingCovered (pool.liquidityFor amountA.toNat amountB.toNat) other)) ∧
      ∀ lpTokens, pool.Keeps (pool.apply env (.remove now lpTokens provider)) other := by
  intro pool hpos now provider other hne
  have h : pool.Accounted := (accounted_new tokenA tokenB).run calls
  exact ⟨fun amountA amountB => addLiquidity_keeps_iff h hpos now amountA amountB hne,
    fun lpTokens => removeLiquidity_keeps h now lpTokens hne⟩

/-- Two deposits. -/
def twoDeposits : List PoolCall :=
  [.add 0 200 500 (sampleToken 1), .add 0 100 250 (sampleToken 2)]

/-- A withdrawal of the second provider is paid: 50 of its liquidity go, for 31 of the first
token. -/
theorem others_keep_iff_sample :
    let pool := twoDeposits.foldl (AmmPool.apply sampleDexEnv) (new (sampleToken 0) (sampleToken 1))
    let pool' := pool.apply sampleDexEnv (.remove 0 50 (sampleToken 2))
    (pool.reserveA = 300 ∧ pool'.reserveA = 269) ∧ pool.Keeps pool' (sampleToken 1) :=
  ⟨by decide +kernel, (others_keep_iff sampleDexEnv (sampleToken 0) (sampleToken 1) twoDeposits
    (by decide +kernel) 0 (sampleToken 2) (sampleToken 1) (by decide)).2 50⟩

/-- A pool with a deposit of 2 and 5. -/
def sampleDeposited : AmmPool :=
  [PoolCall.add 0 2 5 (sampleToken 1)].foldl (AmmPool.apply sampleDexEnv)
    (new (sampleToken 0) (sampleToken 1))

/-- A deposit of 1 and 2 is credited with a quarter of the liquidity for none of the first token. -/
theorem deposit_dilutes :
    sampleDeposited.withdrawable (sampleToken 1) .a = 2 ∧
      (sampleDeposited.apply sampleDexEnv (.add 0 1 2 (sampleToken 2))).withdrawable
        (sampleToken 1) .a = 1 := by
  decide +kernel

end InterBit.Dex.AmmPool
