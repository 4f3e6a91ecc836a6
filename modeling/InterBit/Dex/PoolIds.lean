import InterBit.Dex.DexEngine

/-!
# The id that a deposit returns

The engine keeps a pool under the digest of its tokens in the order of their bytes; the pool
reports the digest of its tokens in the order in which it was created. `returned_id_finds_iff`
says that the two are the same exactly if that is the order of the bytes. Otherwise nothing is
kept under the id that is returned.
-/

namespace InterBit.Dex.DexEngine

open InterBit.Lib

variable {D : Type} {env : DexEnv D}

/-- Without collisions, an id belongs to one pair of tokens. -/
theorem computePoolId_inj (hsha : Function.Injective env.sha256) {tokenA tokenB tokenC tokenD : H256}
    (h : computePoolId env tokenA tokenB = computePoolId env tokenC tokenD) :
    (tokenA = tokenC ∧ tokenB = tokenD) ∨ (tokenA = tokenD ∧ tokenB = tokenC) := by
  unfold computePoolId at h
  split at h <;> split at h
  · exact Or.inl (toList_append_inj (hsha h))
  · exact Or.inr (toList_append_inj (hsha h))
  · exact Or.inr (toList_append_inj (hsha h)).symm
  · exact Or.inl (toList_append_inj (hsha h)).symm

variable [DecidableEq D] {reentry : Bool}

/-- The pool of a pair, or the one that a deposit creates, has its tokens in the order of their
bytes. -/
def InOrder (env : DexEnv D) (engine : DexEngine D) (tokenA tokenB : H256) : Prop :=
  (engine.target env tokenA tokenB).tokenA.toList < (engine.target env tokenA tokenB).tokenB.toList

instance (engine : DexEngine D) (tokenA tokenB : H256) :
    Decidable (engine.InOrder env tokenA tokenB) := inferInstanceAs (Decidable (_ < _))

/-- What a deposit returns has the id that its pool reports, and is credited there. -/
theorem addLiquidity_result {engine : DexEngine D} {now : U64} {tokenA tokenB : H256}
    {amountA amountB : U256} {provider : Address} {result : LiquidityResult D}
    (h : (engine.addLiquidity env reentry now tokenA tokenB amountA amountB provider).1
      = .returned (.ok result)) :
    result.poolId = (engine.target env tokenA tokenB).getPoolId env ∧
      ∃ pool, (engine.addLiquidity env reentry now tokenA tokenB amountA amountB provider).2.pool?
          (computePoolId env tokenA tokenB) = some pool ∧
        result.lpTokens.toNat ≤ (pool.balance provider).toNat := by
  rw [addLiquidity_eq] at h ⊢
  have hspec := @AmmPool.addLiquidity_spec _ env reentry now amountA amountB provider
    (engine.target env tokenA tokenB)
  unfold Routine.Ensures at hspec
  rw [h] at hspec
  obtain ⟨_, hpanic, _⟩ | ⟨lp, minted, _, hminted, ⟨_, hpanic, _⟩ | ⟨after, hafter, hsame, hfinish⟩⟩ :=
    hspec
  · cases hpanic
  · cases hpanic
  obtain ⟨hok | hok, _⟩ | ⟨hblocked, _⟩ := hfinish
  · have hresult : result = minted.report env lp := Except.ok.inj (Ending.returned.inj hok)
    refine ⟨?_, _, pool?_setPool_self .., ?_⟩
    · rw [hresult]
      cases hminted <;> rfl
    · obtain ⟨_, _, hpool⟩ := hsame
      rw [hpool, hresult]
      have hcredit : ((minted.setBalance provider after).balance provider) = after := by
        rw [AmmPool.balance, AmmPool.setBalance, AList.lookup_insert, Option.getD_some]
      exact (Nat.le_add_left ..).trans_eq (hafter.symm.trans (congrArg BitVec.toNat hcredit.symm))
  · cases hok
  · cases hblocked

/-- In an engine whose pools are under the ids of their tokens, nothing is under a digest of tokens
that are not in order. -/
theorem Keyed.pool?_eq_none {engine : DexEngine D} (h : Keyed env engine)
    (hsha : Function.Injective env.sha256) {tokenA tokenB : H256} (hne : tokenA ≠ tokenB)
    (hlt : ¬ tokenA.toList < tokenB.toList) :
    engine.pool? (env.sha256 (tokenA.toList ++ tokenB.toList)) = none := by
  rw [Option.eq_none_iff_forall_ne_some]
  intro pool hpool
  have hkey := h.key hpool
  unfold computePoolId at hkey
  split at hkey
  next hpair =>
    obtain ⟨rfl, rfl⟩ := toList_append_inj (hsha hkey)
    exact hlt hpair
  next hpair =>
    -- the key has the tokens the other way round
    obtain ⟨rfl, rfl⟩ := toList_append_inj (hsha hkey)
    obtain h | h := lt_or_lt_of_ne hne
    · exact hlt h
    · exact hpair h

/-- After any calls on a new engine, the id that a deposit returns finds the pool of the deposit
exactly if that pool has its tokens in order; otherwise it finds no pool at all. -/
theorem returned_id_finds_iff (env : DexEnv D) (hsha : Function.Injective env.sha256)
    (reentry : Bool) (calls : List (EngineCall D)) (now : U64) {tokenA tokenB : H256}
    (hne : tokenA ≠ tokenB) (amountA amountB : U256) (provider : Address) :
    let engine := calls.foldl (DexEngine.apply env reentry) new
    let outcome := engine.addLiquidity env reentry now tokenA tokenB amountA amountB provider
    ∀ result, outcome.1 = .returned (.ok result) →
      ((∃ pool, outcome.2.pool? (computePoolId env tokenA tokenB) = some pool ∧
          outcome.2.pool? result.poolId = some pool ∧
          result.lpTokens.toNat ≤ (pool.balance provider).toNat) ↔
        engine.InOrder env tokenA tokenB) ∧
      (¬ engine.InOrder env tokenA tokenB → ∀ now lpTokens provider,
        outcome.2.removeLiquidity env reentry now result.poolId lpTokens provider
          = (.returned (.error .poolNotFound), outcome.2)) := by
  intro engine outcome result hresult
  have hkeyed : Keyed env engine := keyed_new.run calls
  have hafter : Keyed env outcome.2 := hkeyed.apply (.add now tokenA tokenB amountA amountB provider)
  obtain ⟨hid, pool, hpool, hbalance⟩ := addLiquidity_result hresult
  have htarget := (hkeyed.target tokenA tokenB).1
  have habsent : ¬ engine.InOrder env tokenA tokenB → outcome.2.pool? result.poolId = none := by
    intro hno
    rw [hid]
    refine hafter.pool?_eq_none hsha (fun heq => hne ?_) hno
    obtain ⟨hA, hB⟩ | ⟨hA, hB⟩ := computePoolId_inj hsha htarget
    · exact hA.trans (heq.trans hB.symm)
    · exact hA.trans (heq.symm.trans hB.symm)
  refine ⟨⟨?_, fun hin => ?_⟩, fun hno now lpTokens provider => onPool_of_none (habsent hno) _⟩
  · rintro ⟨_, _, hfound, _⟩
    by_contra hno
    rw [habsent hno] at hfound
    cases hfound
  · refine ⟨pool, hpool, ?_, hbalance⟩
    have hkey : computePoolId env tokenA tokenB = result.poolId := by
      rw [htarget, hid, computePoolId, AmmPool.getPoolId]
      exact if_pos hin
    rw [← hkey]
    exact hpool

/-- The first deposit of a pair, by a provider. -/
def sampleDeposit (tokenA tokenB : UInt8) :
    Ending AmmLock (Except DexError (LiquidityResult (List UInt8))) × DexEngine (List UInt8) :=
  new.addLiquidity AmmPool.sampleDexEnv true 0 (AmmPool.sampleToken tokenA)
    (AmmPool.sampleToken tokenB) 2 8 (AmmPool.sampleToken 9)

theorem returned_id_finds_iff_sample :
    ∃ pool, (sampleDeposit 1 2).2.pool?
        (computePoolId AmmPool.sampleDexEnv (AmmPool.sampleToken 1) (AmmPool.sampleToken 2))
          = some pool ∧
      (sampleDeposit 1 2).2.pool? (List.replicate 32 1 ++ List.replicate 32 2) = some pool ∧
      4 ≤ (pool.balance (AmmPool.sampleToken 9)).toNat :=
  (returned_id_finds_iff AmmPool.sampleDexEnv Function.injective_id true [] 0 (by decide) 2 8
    (AmmPool.sampleToken 9) { poolId := _, lpTokens := 4, share := (4, 4) }
    (by decide +kernel)).1.mpr (by decide +kernel)

/-- A pool that is created as `(B, A)` with `A < B` is not found under the id that it reports. -/
theorem returned_id_not_found :
    (sampleDeposit 2 1).1 = .returned (.ok
        { poolId := List.replicate 32 2 ++ List.replicate 32 1, lpTokens := 4, share := (4, 4) }) ∧
      (((sampleDeposit 2 1).2.removeLiquidity AmmPool.sampleDexEnv true 0
        (List.replicate 32 2 ++ List.replicate 32 1) 4 (AmmPool.sampleToken 9)).1
          = .returned (.error .poolNotFound)) := by
  decide +kernel

end InterBit.Dex.DexEngine
