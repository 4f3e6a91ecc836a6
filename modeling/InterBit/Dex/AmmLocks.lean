import InterBit.Dex.AmmPool

/-!
# When a call of a pool waits for itself

`update_oracle` calls `get_price`, which reads the reserves, and the calls that end with
`update_oracle` hold the reserves for writing. They wait for ever unless they fail before, or no
time has elapsed since the oracle was last updated.
-/

namespace InterBit.Dex.AmmPool

open InterBit.Lib

variable {D : Type} {env : DexEnv D}

/-- The liquidity that a deposit mints. -/
def mints (pool : AmmPool) (amountA amountB : U256) : Nat :=
  if pool.totalSupply = 0 then ((sqrt (amountA * amountB)).getD 0).toNat
  else pool.liquidityFor amountA.toNat amountB.toNat

/-- A call of `add_liquidity` comes to `update_oracle`. -/
def Addable (pool : AmmPool) (amountA amountB : U256) (provider : Address) : Prop :=
  pool.Mintable amountA.toNat amountB.toNat ∧
    (pool.balance provider).toNat + pool.mints amountA amountB < 2 ^ 256

/-- A call of `swap` comes to `update_oracle`. -/
def SwapGoesOn (pool : AmmPool) (amountIn : U256) (tokenIn : H256) : Prop :=
  ∃ side, pool.sideOf tokenIn = some side ∧ pool.Swappable amountIn side

theorem Minted.mints {pool pool' : AmmPool} {amountA amountB lp : U256}
    (h : pool.Minted amountA amountB lp pool') : lp.toNat = pool.mints amountA amountB := by
  unfold AmmPool.mints
  cases h with
  | initial product hzero hproduct hlp =>
    have hmul : product = amountA * amountB := by
      unfold mulU256 at hproduct
      split at hproduct
      next => exact (Option.some.inj hproduct).symm
      next => cases hproduct
    rw [if_pos hzero, ← hmul, hlp]
    rfl
  | proportional _ _ _ hpos hlp => rw [if_neg hpos, hlp]

/-- A call that comes to `update_oracle` is blocked there exactly if time has elapsed. -/
theorem Finishes.blocked_iff {α : Type} {ticks : Prop} {result e : Ending AmmLock α}
    (h : Finishes false ticks result e) (hresult : result.isBlocked = false) :
    e.isBlocked = true ↔ ticks := by
  rcases h with ⟨rfl | rfl, hmode⟩ | ⟨he, _, hticks⟩
  · exact iff_of_false (by rw [hresult]; decide) (hmode.resolve_left (by decide))
  · exact iff_of_false Bool.false_ne_true (hmode.resolve_left (by decide))
  · exact iff_of_true he hticks

theorem addLiquidity_blocked (now : U64) (amountA amountB : U256) (provider : Address)
    (pool : AmmPool) :
    ((addLiquidity env now amountA amountB provider).alone pool).1.isBlocked = true ↔
      pool.Addable amountA amountB provider ∧ Ticks env now pool.lastUpdate := by
  obtain ⟨hno, he, _⟩ | ⟨lp, minted, hmintable, hminted, hrest⟩ :=
    @addLiquidity_spec _ env false now amountA amountB provider pool
  · refine iff_of_false ?_ fun h => hno h.1.1
    rw [Routine.alone, he]
    exact Bool.false_ne_true
  have hlp := hminted.mints
  obtain ⟨hlarge, he, _⟩ | ⟨after, hafter, _, hfinish⟩ := hrest
  · refine iff_of_false ?_ fun h => ?_
    · rw [Routine.alone, he]
      exact Bool.false_ne_true
    · rw [hlp] at hlarge
      exact absurd h.1.2 (Nat.not_lt_of_le hlarge)
  · refine (hfinish.blocked_iff rfl).trans (and_iff_right ⟨hmintable, ?_⟩).symm
    rw [← hlp, ← hafter]
    exact after.isLt

theorem removeLiquidity_blocked (now : U64) (lpTokens : U256) (provider : Address)
    (pool : AmmPool) :
    ((removeLiquidity env now lpTokens provider).alone pool).1.isBlocked = true ↔
      pool.Removable lpTokens provider ∧ Ticks env now pool.lastUpdate := by
  obtain ⟨hno, he, _⟩ | ⟨amountA, amountB, removed, hremoved, _, hfinish⟩ :=
    @removeLiquidity_spec _ env false now lpTokens provider pool
  · refine iff_of_false ?_ fun h => hno h.1
    rw [Routine.alone]
    rcases he with he | ⟨he, _⟩ <;> (rw [he]; exact Bool.false_ne_true)
  · cases hremoved with
    | intro _ _ _ _ hremovable =>
      exact (hfinish.blocked_iff rfl).trans (and_iff_right hremovable).symm

theorem swap_blocked (now : U64) (amountIn : U256) (tokenIn : H256) (pool : AmmPool) :
    ((swap env now amountIn tokenIn).alone pool).1.isBlocked = true ↔
      pool.SwapGoesOn amountIn tokenIn ∧ Ticks env now pool.lastUpdate := by
  obtain ⟨hno, _, he⟩ | ⟨side, out, reserveIn, reserveOut, hside, hswapped, _, hfinish⟩ :=
    @swap_spec _ env false now amountIn tokenIn pool
  · refine iff_of_false ?_ fun h => ?_
    · rw [Routine.alone]
      rcases he with he | ⟨error, he⟩ <;> (rw [he]; exact Bool.false_ne_true)
    · obtain ⟨side, hside, hswappable⟩ := h.1
      exact hno side hside hswappable
  · exact (hfinish.blocked_iff rfl).trans (and_iff_right ⟨side, hside, hswapped.swappable⟩).symm

/-- As long as no time has elapsed, the calls do what they do with re-entrant locks. -/
theorem alone_eq_reentrant {now : U64} {pool : AmmPool} (h : ¬ Ticks env now pool.lastUpdate) :
    (∀ amountA amountB provider, (addLiquidity env now amountA amountB provider).alone pool
      = (addLiquidity env now amountA amountB provider).reentrant pool) ∧
    (∀ lpTokens provider, (removeLiquidity env now lpTokens provider).alone pool
      = (removeLiquidity env now lpTokens provider).reentrant pool) ∧
    (∀ amountIn tokenIn, (swap env now amountIn tokenIn).alone pool
      = (swap env now amountIn tokenIn).reentrant pool) := by
  refine ⟨?_, ?_, ?_⟩
  · intro amountA amountB provider
    refine Routine.run_eq_reentrant (Bool.eq_false_iff.mpr fun hblocked => ?_)
    exact h ((addLiquidity_blocked now amountA amountB provider pool).mp hblocked).2
  · intro lpTokens provider
    refine Routine.run_eq_reentrant (Bool.eq_false_iff.mpr fun hblocked => ?_)
    exact h ((removeLiquidity_blocked now lpTokens provider pool).mp hblocked).2
  · intro amountIn tokenIn
    refine Routine.run_eq_reentrant (Bool.eq_false_iff.mpr fun hblocked => ?_)
    exact h ((swap_blocked now amountIn tokenIn pool).mp hblocked).2

/-- A call never waits for a lock that it holds exactly if it fails before `update_oracle` or the
oracle finds no time elapsed. -/
theorem never_waits_for_itself_iff (env : DexEnv D) (pool : AmmPool) (now : U64) :
    (∀ amountA amountB provider,
      ((addLiquidity env now amountA amountB provider).alone pool).1.isBlocked = false ↔
        ¬ pool.Addable amountA amountB provider ∨ ¬ Ticks env now pool.lastUpdate) ∧
    (∀ lpTokens provider,
      ((removeLiquidity env now lpTokens provider).alone pool).1.isBlocked = false ↔
        ¬ pool.Removable lpTokens provider ∨ ¬ Ticks env now pool.lastUpdate) ∧
    (∀ amountIn tokenIn, ((swap env now amountIn tokenIn).alone pool).1.isBlocked = false ↔
      ¬ pool.SwapGoesOn amountIn tokenIn ∨ ¬ Ticks env now pool.lastUpdate) := by
  refine ⟨fun amountA amountB provider => ?_, fun lpTokens provider => ?_,
    fun amountIn tokenIn => ?_⟩
  · rw [← not_and_or, ← addLiquidity_blocked, Bool.not_eq_true]
  · rw [← not_and_or, ← removeLiquidity_blocked, Bool.not_eq_true]
  · rw [← not_and_or, ← swap_blocked, Bool.not_eq_true]

/-- The first deposit into a new pool at any time after 1970 waits for ever. -/
theorem first_deposit_waits :
    ((addLiquidity sampleDexEnv 1 1 1 (sampleToken 0)).alone
      (new (sampleToken 0) (sampleToken 1))).1 = .blocked ⟨.reserveA, .read⟩ := by
  decide +kernel

end InterBit.Dex.AmmPool
