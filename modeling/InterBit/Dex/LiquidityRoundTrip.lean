import InterBit.Dex.LpAccounting

/-!
# In and out again

A deposit followed by the withdrawal of the tokens that it has minted. A later deposit takes for
its liquidity no more than it is worth, and what it has put in is not worth more afterwards; the
first deposit gets back all that it has put in. So nothing is gained whatever is rounded.
-/

namespace InterBit.Dex.AmmPool

open InterBit.Lib

variable {D : Type} {env : DexEnv D}

/-- What a deposit mints is worth no more of a token than has been brought along, and no more than
the reserve has grown by if it is not the first deposit. -/
theorem Minted.worth_le {pool minted : AmmPool} {amountA amountB lp : U256}
    (h : pool.Minted amountA amountB lp minted) (haccounted : pool.Accounted)
    (hpos : 0 < lp.toNat) :
    (minted.worth lp.toNat .a ≤ amountA.toNat ∧ minted.worth lp.toNat .b ≤ amountB.toNat) ∧
      (0 < pool.totalSupply.toNat → ∀ side,
        minted.worth lp.toNat side + (pool.reserve side).toNat ≤ (minted.reserve side).toNat) := by
  cases h with
  | initial product hzero _ _ =>
    -- The first provider owns the pool.
    have hall : ∀ reserve : Nat, share lp.toNat reserve lp.toNat = reserve := share_self hpos
    refine ⟨⟨(hall amountA.toNat).le, (hall amountB.toNat).le⟩, fun hsupply => ?_⟩
    rw [hzero] at hsupply
    exact absurd hsupply (Nat.lt_irrefl 0)
  | proportional reserveA reserveB totalSupply hne hlp hA hB htotal =>
    have hsupply : 0 < pool.totalSupply.toNat :=
      Nat.pos_of_ne_zero fun h => hne (BitVec.eq_of_toNat_eq h)
    obtain ⟨hposA, hposB⟩ := haccounted.backed hsupply
    have hworthA : share lp.toNat reserveA.toNat totalSupply.toNat ≤ pool.worth lp.toNat .a := by
      rw [hA, htotal]
      exact share_le_of_added hsupply ..
    have hworthB : share lp.toNat reserveB.toNat totalSupply.toNat ≤ pool.worth lp.toNat .b := by
      rw [hB, htotal]
      exact share_le_of_added hsupply ..
    have hboughtA : pool.worth lp.toNat .a ≤ amountA.toNat :=
      share_le_of_bought hposA (hlp.trans_le (Nat.min_le_left ..))
    have hboughtB : pool.worth lp.toNat .b ≤ amountB.toNat :=
      share_le_of_bought hposB (hlp.trans_le (Nat.min_le_right ..))
    refine ⟨⟨hworthA.trans hboughtA, hworthB.trans hboughtB⟩, fun _ side => ?_⟩
    cases side with
    | a =>
      show share lp.toNat reserveA.toNat totalSupply.toNat + pool.reserveA.toNat ≤ reserveA.toNat
      omega
    | b =>
      show share lp.toNat reserveB.toNat totalSupply.toNat + pool.reserveB.toNat ≤ reserveB.toNat
      omega

theorem SameButOracle.worth {pool pool' : AmmPool} (h : pool.SameButOracle pool')
    (liquidity : Nat) (side : Side) : pool'.worth liquidity side = pool.worth liquidity side := by
  obtain ⟨_, _, rfl⟩ := h
  cases side <;> rfl

theorem balance_setBalance_self (pool : AmmPool) (provider : Address) (after : U256) :
    (pool.setBalance provider after).balance provider = after := by
  rw [balance, setBalance, AList.lookup_insert]
  rfl

theorem SameButOracle.balance {pool pool' : AmmPool} (h : pool.SameButOracle pool')
    (provider : Address) : pool'.balance provider = pool.balance provider := by
  obtain ⟨_, _, rfl⟩ := h
  rfl

/-- A call of `add_liquidity` that has credited something has minted as much, whether or not it has
come to its end. -/
theorem addLiquidity_credited {pool : AmmPool} (haccounted : pool.Accounted) (now : U64)
    (amountA amountB lp : U256) (provider : Address) (hpos : 0 < lp.toNat)
    (hcredited :
      (((addLiquidity env now amountA amountB provider).reentrant pool).2.balance provider).toNat
        = (pool.balance provider).toNat + lp.toNat) :
    ∃ minted after, pool.Minted amountA amountB lp minted ∧
      (minted.setBalance provider after).SameButOracle
        ((addLiquidity env now amountA amountB provider).reentrant pool).2 ∧
      ∀ result, ((addLiquidity env now amountA amountB provider).reentrant pool).1
        = .returned (.ok result) → result.lpTokens = lp := by
  obtain ⟨_, _, reserveA, reserveB, hpool, _⟩ | ⟨lp', minted, _, hminted, hrest⟩ :=
    @addLiquidity_spec _ env true now amountA amountB provider pool
  · have hsame : ((addLiquidity env now amountA amountB provider).reentrant pool).2.balance provider
        = pool.balance provider := by
      rw [Routine.reentrant, hpool]
      rfl
    rw [hsame] at hcredited
    omega
  obtain ⟨hlarge, _⟩ | ⟨after, hafter, hsame, hfinish⟩ := hrest
  · exact absurd (hminted.room haccounted provider) (Nat.not_lt_of_le hlarge)
  rw [Routine.reentrant, hsame.balance, balance_setBalance_self, hafter] at hcredited
  obtain rfl : lp' = lp := BitVec.eq_of_toNat_eq (by omega)
  refine ⟨minted, after, hminted, hsame, fun result hresult => ?_⟩
  rcases hfinish with ⟨he | he, _⟩ | ⟨_, hstrict, _⟩
  · cases he.symm.trans hresult
    rfl
  · cases he.symm.trans hresult
  · cases hstrict

/-- If a deposit mints tokens and they are withdrawn at once, then what comes back is at most what
has been brought along, and, unless it is the first deposit, at most what the reserves have grown
by. The withdrawal is not refused. -/
theorem liquidity_round_trip (env : DexEnv D) (tokenA tokenB : H256) (calls : List PoolCall)
    (now later : U64) (amountA amountB lp : U256) (provider : Address) :
    let pool := calls.foldl (AmmPool.apply env) (new tokenA tokenB)
    let added := (addLiquidity env now amountA amountB provider).reentrant pool
    0 < lp.toNat → (added.2.balance provider).toNat = (pool.balance provider).toNat + lp.toNat →
      (∀ result, added.1 = .returned (.ok result) → result.lpTokens = lp) ∧
      ∀ outcome, ((removeLiquidity env later lp provider).reentrant added.2).1 = .returned outcome →
        ∃ outA outB, outcome = .ok (outA, outB) ∧
          outA.toNat ≤ amountA.toNat ∧ outB.toNat ≤ amountB.toNat ∧
          (0 < pool.totalSupply.toNat →
            outA.toNat ≤ added.2.reserveA.toNat - pool.reserveA.toNat ∧
            outB.toNat ≤ added.2.reserveB.toNat - pool.reserveB.toNat) := by
  intro pool added hpos hcredited
  have haccounted : pool.Accounted := (accounted_new tokenA tokenB).run calls
  obtain ⟨minted, after, hminted, hsame, hresult⟩ :=
    addLiquidity_credited haccounted now amountA amountB lp provider hpos hcredited
  have hsame : (minted.setBalance provider after).SameButOracle added.2 := hsame
  refine ⟨hresult, fun outcome houtcome => ?_⟩
  obtain ⟨⟨hleA, hleB⟩, hgrown⟩ := hminted.worth_le haccounted hpos
  have hworth : ∀ side, added.2.worth lp.toNat side = minted.worth lp.toNat side :=
    fun side => hsame.worth lp.toNat side
  have hreserve : ∀ side, added.2.reserve side = minted.reserve side :=
    fun side => hsame.reserve side
  obtain ⟨hno, he, _⟩ | ⟨outA, outB, removed, hremoved, _, hfinish⟩ :=
    @removeLiquidity_spec _ env true later lp provider added.2
  · rcases he with he | ⟨_, hlt⟩
    · cases he.symm.trans houtcome
    · -- The tokens have just been credited.
      exact absurd (hcredited ▸ Nat.le_add_left ..) (Nat.not_le_of_lt hlt)
  · have hok : outcome = .ok (outA, outB) := by
      rcases hfinish with ⟨he | he, _⟩ | ⟨_, hstrict, _⟩
      · cases he.symm.trans houtcome
        rfl
      · cases he.symm.trans houtcome
      · cases hstrict
    cases hremoved with
    | intro reserveA reserveB totalSupply left _ hA hB _ _ _ _ =>
      rw [hworth] at hA hB
      refine ⟨outA, outB, hok, hA.trans_le hleA, hB.trans_le hleB, fun hsupply => ?_⟩
      have hgrownA := hgrown hsupply .a
      have hgrownB := hgrown hsupply .b
      rw [← hreserve, ← hA] at hgrownA
      rw [← hreserve, ← hB] at hgrownB
      exact ⟨Nat.le_sub_of_add_le hgrownA, Nat.le_sub_of_add_le hgrownB⟩

/-- A second deposit, of 2 and 4, pays 1 and 3, and gets back as much. -/
theorem liquidity_round_trip_sample :
    let pool := [PoolCall.add 0 2 5 (sampleToken 1)].foldl (AmmPool.apply sampleDexEnv)
      (new (sampleToken 0) (sampleToken 1))
    let added := (addLiquidity sampleDexEnv 0 2 4 (sampleToken 2)).reentrant pool
    ((removeLiquidity sampleDexEnv 0 2 (sampleToken 2)).reentrant added.2).1
        = .returned (.ok (1, 3)) ∧
      (1 : Nat) ≤ added.2.reserveA.toNat - pool.reserveA.toNat ∧
      (3 : Nat) ≤ added.2.reserveB.toNat - pool.reserveB.toNat := by
  intro pool added
  have houtcome : ((removeLiquidity sampleDexEnv 0 2 (sampleToken 2)).reentrant added.2).1
      = .returned (.ok (1, 3)) := by decide +kernel
  obtain ⟨outA, outB, hout, _, _, hgrown⟩ := (liquidity_round_trip sampleDexEnv (sampleToken 0)
    (sampleToken 1) [.add 0 2 5 (sampleToken 1)] 0 0 2 4 2 (sampleToken 2) (by decide)
    (by decide +kernel)).2 _ houtcome
  obtain ⟨rfl, rfl⟩ := Prod.mk.inj (Except.ok.inj hout)
  exact ⟨houtcome, hgrown (by decide +kernel)⟩

end InterBit.Dex.AmmPool
