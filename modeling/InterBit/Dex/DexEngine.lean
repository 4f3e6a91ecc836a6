import InterBit.Dex.LpAccounting

/-!
# The pools of the exchange

`DexEngine` of `dex/mod.rs`, as far as it is about pools: which pool a pair of tokens has, and
the two calls that go to a pool. A swap through the engine changes no pool, and the order book
and the router have no part in this.

A pool is kept under a digest that does not depend on the order of its tokens (`Keyed`).
-/

namespace InterBit.Dex

open InterBit.Lib

namespace AmmPool

variable {D : Type} {env : DexEnv D} {reentry : Bool}

/-- The pools are over the same tokens. -/
def SameTokens (pool pool' : AmmPool) : Prop :=
  pool'.tokenA = pool.tokenA ∧ pool'.tokenB = pool.tokenB

/-- A deposit does not change the tokens of a pool. -/
theorem addLiquidity_sameTokens (now : U64) (amountA amountB : U256) (provider : Address)
    (pool : AmmPool) : SameTokens pool
      ((addLiquidity env now amountA amountB provider).run reentry [] pool).2 := by
  obtain ⟨_, _, _, _, h, _⟩ | ⟨lp, minted, _, hminted, hcredited⟩ :=
    @addLiquidity_spec _ env reentry now amountA amountB provider pool
  · rw [h]
    exact ⟨rfl, rfl⟩
  · have hsame : SameTokens pool minted := by cases hminted <;> exact ⟨rfl, rfl⟩
    obtain ⟨_, _, h⟩ | ⟨_, _, ⟨_, _, h⟩, _⟩ := hcredited
    all_goals
      rw [h]
      exact hsame

/-- A withdrawal does not change the tokens of a pool. -/
theorem removeLiquidity_sameTokens {pool : AmmPool} (h : pool.Accounted) (now : U64)
    (lpTokens : U256) (provider : Address) : SameTokens pool
      ((removeLiquidity env now lpTokens provider).run reentry [] pool).2 := by
  obtain ⟨_, _, hsame⟩ | ⟨_, _, removed, hremoved, ⟨_, _, hpool⟩, _⟩ :=
    @removeLiquidity_spec _ env reentry now lpTokens provider pool
  · rw [hsame (h.sum ▸ balance_le_balances pool provider)]
    exact ⟨rfl, rfl⟩
  · rw [hpool]
    cases hremoved
    exact ⟨rfl, rfl⟩

end AmmPool

variable {D : Type} [DecidableEq D]

/-- `struct DexEngine`. -/
structure DexEngine (D : Type) where
  ammPools : AList fun _ : D => AmmPool

namespace DexEngine

/-- `DexEngine::new`. -/
def new : DexEngine D := ⟨∅⟩

/-- `compute_pool_id`. -/
def computePoolId {D : Type} (env : DexEnv D) (tokenA tokenB : H256) : D :=
  if tokenA.toList < tokenB.toList then env.sha256 (tokenA.toList ++ tokenB.toList)
  else env.sha256 (tokenB.toList ++ tokenA.toList)

/-- The pool of an id. -/
def pool? (engine : DexEngine D) (poolId : D) : Option AmmPool := engine.ammPools.lookup poolId

/-- Keep a pool under an id. -/
def setPool (engine : DexEngine D) (poolId : D) (pool : AmmPool) : DexEngine D :=
  ⟨engine.ammPools.insert poolId pool⟩

@[simp] theorem pool?_new (poolId : D) : (new : DexEngine D).pool? poolId = none := rfl

@[simp] theorem pool?_setPool_self (engine : DexEngine D) (poolId : D) (pool : AmmPool) :
    (engine.setPool poolId pool).pool? poolId = some pool :=
  AList.lookup_insert _

/-- The other pools stay. -/
theorem pool?_setPool_of_ne (engine : DexEngine D) {poolId other : D} (pool : AmmPool)
    (h : other ≠ poolId) : (engine.setPool poolId pool).pool? other = engine.pool? other :=
  AList.lookup_insert_ne h

@[simp] theorem setPool_setPool (engine : DexEngine D) (poolId : D) (pool pool' : AmmPool) :
    (engine.setPool poolId pool).setPool poolId pool' = engine.setPool poolId pool' :=
  congrArg DexEngine.mk (AList.insert_insert _)

section Calls

variable (env : DexEnv D) (reentry : Bool)

/-- `get_or_create_pool`. -/
def getOrCreatePool (engine : DexEngine D) (tokenA tokenB : H256) : D × DexEngine D :=
  let poolId := computePoolId env tokenA tokenB
  -- A new pool has the tokens in the order of the caller.
  if (engine.pool? poolId).isNone then (poolId, engine.setPool poolId (.new tokenA tokenB))
  else (poolId, engine)

/-- Run a call on the pool of an id, which is locked meanwhile. -/
def onPool {α : Type} (engine : DexEngine D) (poolId : D)
    (call : AmmPool.Call (Except DexError α)) :
    Ending AmmLock (Except DexError α) × DexEngine D :=
  match engine.pool? poolId with
  | some pool =>
    let (ending, pool) := call.run reentry [] pool
    (ending, engine.setPool poolId pool)
  | none => (.returned (.error .poolNotFound), engine)

/-- `add_liquidity`. -/
def addLiquidity (engine : DexEngine D) (now : U64) (tokenA tokenB : H256)
    (amountA amountB : U256) (provider : Address) :
    Ending AmmLock (Except DexError (LiquidityResult D)) × DexEngine D :=
  let (poolId, engine) := engine.getOrCreatePool env tokenA tokenB
  engine.onPool reentry poolId (AmmPool.addLiquidity env now amountA amountB provider)

/-- `remove_liquidity`. -/
def removeLiquidity (engine : DexEngine D) (now : U64) (poolId : D) (lpTokens : U256)
    (provider : Address) : Ending AmmLock (Except DexError (U256 × U256)) × DexEngine D :=
  engine.onPool reentry poolId (AmmPool.removeLiquidity env now lpTokens provider)

end Calls

/-! ## Two orders of the same tokens -/

/-- Two tokens are in one order or in the other. -/
theorem lt_or_lt_of_ne {x y : H256} (h : x ≠ y) : x.toList < y.toList ∨ y.toList < x.toList := by
  by_contra hno
  rw [not_or] at hno
  exact h (Vector.toList_inj.mp (List.le_antisymm (List.not_lt.mp hno.2) (List.not_lt.mp hno.1)))

theorem computePoolId_comm {D : Type} (env : DexEnv D) (tokenA tokenB : H256) :
    computePoolId env tokenA tokenB = computePoolId env tokenB tokenA := by
  unfold computePoolId
  by_cases heq : tokenA = tokenB
  · rw [heq]
  · obtain hlt | hlt := lt_or_lt_of_ne heq
    · rw [if_pos hlt, if_neg (List.lt_asymm hlt)]
    · rw [if_neg (List.lt_asymm hlt), if_pos hlt]

variable {env : DexEnv D} {reentry : Bool}

variable {engine : DexEngine D}

theorem onPool_of_some {α : Type} {poolId : D} {pool : AmmPool}
    (h : engine.pool? poolId = some pool) (call : AmmPool.Call (Except DexError α)) :
    engine.onPool reentry poolId call
      = ((call.run reentry [] pool).1, engine.setPool poolId (call.run reentry [] pool).2) := by
  simp [onPool, h]

theorem onPool_of_none {α : Type} {poolId : D} (h : engine.pool? poolId = none)
    (call : AmmPool.Call (Except DexError α)) :
    engine.onPool reentry poolId call = (.returned (.error .poolNotFound), engine) := by
  simp [onPool, h]

/-- The pool that a deposit of a pair goes to. -/
def target (env : DexEnv D) (engine : DexEngine D) (tokenA tokenB : H256) : AmmPool :=
  (engine.pool? (computePoolId env tokenA tokenB)).getD (.new tokenA tokenB)

/-- A deposit goes to the target, wherever that comes from. -/
theorem addLiquidity_eq (engine : DexEngine D) (now : U64) (tokenA tokenB : H256)
    (amountA amountB : U256) (provider : Address) :
    engine.addLiquidity env reentry now tokenA tokenB amountA amountB provider =
      let (ending, pool) := (AmmPool.addLiquidity env now amountA amountB provider).run reentry []
        (engine.target env tokenA tokenB)
      (ending, engine.setPool (computePoolId env tokenA tokenB) pool) := by
  unfold addLiquidity getOrCreatePool target
  cases hpool : engine.pool? (computePoolId env tokenA tokenB) with
  | some pool => simp [onPool_of_some hpool, hpool]
  | none => simp [onPool, hpool]

/-- The target after a deposit. -/
theorem addLiquidity_pool (engine : DexEngine D) (now : U64) (tokenA tokenB : H256)
    (amountA amountB : U256) (provider : Address) :
    (engine.addLiquidity env reentry now tokenA tokenB amountA amountB provider).2.pool?
        (computePoolId env tokenA tokenB)
      = some ((AmmPool.addLiquidity env now amountA amountB provider).run reentry []
          (engine.target env tokenA tokenB)).2 := by
  rw [addLiquidity_eq]
  exact pool?_setPool_self ..

/-- How a deposit ends. -/
theorem addLiquidity_ending (engine : DexEngine D) (now : U64) (tokenA tokenB : H256)
    (amountA amountB : U256) (provider : Address) :
    (engine.addLiquidity env reentry now tokenA tokenB amountA amountB provider).1
      = ((AmmPool.addLiquidity env now amountA amountB provider).run reentry []
          (engine.target env tokenA tokenB)).1 := by
  rw [addLiquidity_eq]

/-! ## Every pool is kept under the id of its tokens -/

/-- The calls that change the pools. -/
inductive EngineCall (D : Type) where
  | add (now : U64) (tokenA tokenB : H256) (amountA amountB : U256) (provider : Address)
  | remove (now : U64) (poolId : D) (lpTokens : U256) (provider : Address)

/-- The engine after a call. -/
def apply (env : DexEnv D) (reentry : Bool) (engine : DexEngine D) : EngineCall D → DexEngine D
  | .add now tokenA tokenB amountA amountB provider =>
    (engine.addLiquidity env reentry now tokenA tokenB amountA amountB provider).2
  | .remove now poolId lpTokens provider =>
    (engine.removeLiquidity env reentry now poolId lpTokens provider).2

/-- Every pool is kept under the id of its tokens, and its accounts are right. -/
structure Keyed (env : DexEnv D) (engine : DexEngine D) : Prop where
  key {poolId : D} {pool : AmmPool} : engine.pool? poolId = some pool →
    poolId = computePoolId env pool.tokenA pool.tokenB
  accounted {poolId : D} {pool : AmmPool} : engine.pool? poolId = some pool → pool.Accounted

theorem keyed_new : Keyed env (new : DexEngine D) := ⟨fun h => (nomatch h), fun h => (nomatch h)⟩

/-- A pool may be replaced by one with the same tokens. -/
theorem Keyed.setPool (h : Keyed env engine) {poolId : D} {pool pool' : AmmPool}
    (hkey : poolId = computePoolId env pool.tokenA pool.tokenB) (htokens : pool.SameTokens pool')
    (haccounted : pool'.Accounted) :
    Keyed env (engine.setPool poolId pool') := by
  have hcases : ∀ {poolId' pool''}, (engine.setPool poolId pool').pool? poolId' = some pool'' →
      (poolId' = poolId ∧ pool'' = pool') ∨ engine.pool? poolId' = some pool'' := by
    intro poolId' pool'' hpool
    by_cases heq : poolId' = poolId
    · rw [heq, pool?_setPool_self] at hpool
      exact Or.inl ⟨heq, (Option.some.inj hpool).symm⟩
    · rw [pool?_setPool_of_ne _ _ heq] at hpool
      exact Or.inr hpool
  refine ⟨fun hpool => ?_, fun hpool => ?_⟩
  · obtain ⟨rfl, rfl⟩ | hpool := hcases hpool
    · rw [htokens.1, htokens.2]
      exact hkey
    · exact h.key hpool
  · obtain ⟨_, rfl⟩ | hpool := hcases hpool
    · exact haccounted
    · exact h.accounted hpool

/-- The target of a deposit is or will be kept under its id. -/
theorem Keyed.target (h : Keyed env engine) (tokenA tokenB : H256) :
    computePoolId env tokenA tokenB = computePoolId env (engine.target env tokenA tokenB).tokenA
        (engine.target env tokenA tokenB).tokenB ∧
      (engine.target env tokenA tokenB).Accounted := by
  unfold DexEngine.target
  cases hpool : engine.pool? (computePoolId env tokenA tokenB) with
  | some pool => exact ⟨h.key hpool, h.accounted hpool⟩
  | none => exact ⟨rfl, AmmPool.accounted_new tokenA tokenB⟩

/-- Every call leaves the pools under the ids of their tokens. -/
theorem Keyed.apply (h : Keyed env engine) (call : EngineCall D) :
    Keyed env (engine.apply env reentry call) := by
  cases call with
  | add now tokenA tokenB amountA amountB provider =>
    rw [DexEngine.apply, addLiquidity_eq]
    obtain ⟨hkey, haccounted⟩ := h.target tokenA tokenB
    exact h.setPool hkey (AmmPool.addLiquidity_sameTokens ..)
      (AmmPool.addLiquidity_accounted haccounted now amountA amountB provider)
  | remove now poolId lpTokens provider =>
    rw [DexEngine.apply, removeLiquidity]
    cases hpool : engine.pool? poolId with
    | some pool =>
      rw [onPool_of_some hpool]
      exact h.setPool (h.key hpool) (AmmPool.removeLiquidity_sameTokens (h.accounted hpool) ..)
        (AmmPool.removeLiquidity_accounted (h.accounted hpool) now lpTokens provider)
    | none =>
      rw [onPool_of_none hpool]
      exact h

theorem Keyed.run (h : Keyed env engine) (calls : List (EngineCall D)) :
    Keyed env (calls.foldl (DexEngine.apply env reentry) engine) := by
  induction calls generalizing engine with
  | nil => exact h
  | cons call calls ih => exact ih (h.apply call)

end DexEngine

end InterBit.Dex
