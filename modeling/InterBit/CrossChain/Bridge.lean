import InterBit.CrossChain.Types

/-!
# The bridge

`cross_chain/bridge.rs`, as far as tokens are locked and unlocked: there is a record for each lock,
and a pool for each token. A lock inserts its record before the pool is updated, and an unlock marks
its record before; so a call that does not get through the pool leaves the record behind.
-/

namespace InterBit.CrossChain

/-- `struct LockedAsset`. -/
structure LockedAsset where
  chainId : U64
  token : H256
  owner : List UInt8
  amount : U256
  lockTime : U64
  unlockTime : Option U64

/-- The record of a new lock. -/
def LockedAsset.new (chainId : U64) (owner : List UInt8) (token : H256) (amount : U256)
    (lockTime : Seconds) : LockedAsset :=
  { chainId, token, owner, amount, lockTime := lockTime.val, unlockTime := none }

/-- `struct LiquidityPool`. -/
structure LiquidityPool where
  token : H256
  totalLiquidity : U256
  availableLiquidity : U256
  pendingWithdrawals : U256

/-- The pool of a token that has none yet. -/
def LiquidityPool.empty (token : H256) : LiquidityPool := ⟨token, 0, 0, 0⟩

/-- `struct Bridge`, without what is minted. -/
structure Bridge where
  config : BridgeConfig
  lockedAssets : AList fun _ : H256 => LockedAsset
  liquidityPools : AList fun _ : H256 => LiquidityPool

/-- `generate_lock_id`, with the reading of the clock that it makes. -/
def generateLockId (env : KeccakEnv) (owner : List UInt8) (token : H256) (amount : U256)
    (now : Seconds) : H256 :=
  env.keccak256 (owner ++ token.toList ++ toLeBytes 32 amount ++ toLeBytes 8 now.val)

/-- `get_locked_amount`, with the records in the order in which they are gone through. -/
def getLockedAmount (entries : List (Sigma fun _ : H256 => LockedAsset)) (token : H256) :
    Option U256 :=
  ((entries.map Sigma.snd).filter fun asset => asset.token = token ∧ asset.unlockTime.isNone).foldlM
    (fun acc asset => addU256 acc asset.amount) 0

namespace Bridge

/-- `Bridge::new`. -/
def new (config : BridgeConfig) : Bridge := ⟨config, ∅, ∅⟩

/-- The pool of a token, or a new one. -/
def pool (bridge : Bridge) (token : H256) : LiquidityPool :=
  (bridge.liquidityPools.lookup token).getD (.empty token)

/-- Write the pool of a token. -/
def setPool (bridge : Bridge) (token : H256) (pool : LiquidityPool) : Bridge :=
  { bridge with liquidityPools := bridge.liquidityPools.insert token pool }

/-- Write the record of a lock. -/
def setAsset (bridge : Bridge) (lockId : H256) (asset : LockedAsset) : Bridge :=
  { bridge with lockedAssets := bridge.lockedAssets.insert lockId asset }

/-- `update_liquidity_pool`. -/
def updateLiquidityPool (bridge : Bridge) (token : H256) (amount : U256) (isLock : Bool) :
    Bridge × Outcome Unit :=
  let pool := bridge.pool token
  if isLock then
    match addU256 pool.totalLiquidity amount with
    | none => (bridge.setPool token pool, none)
    | some totalLiquidity =>
      match addU256 pool.availableLiquidity amount with
      | none => (bridge.setPool token { pool with totalLiquidity }, none)
      | some availableLiquidity =>
        (bridge.setPool token { pool with totalLiquidity, availableLiquidity }, some (.ok ()))
  else if pool.availableLiquidity < amount then
    (bridge.setPool token pool, some (.error (.bridgeError "Insufficient liquidity")))
  else
    match subU256 pool.availableLiquidity amount with
    | none => (bridge.setPool token pool, none)
    | some availableLiquidity =>
      (bridge.setPool token { pool with availableLiquidity }, some (.ok ()))

/-- `lock_tokens`. The clock is read for the id and for the record. -/
def lockTokens (env : KeccakEnv) (bridge : Bridge) (chainId : U64) (owner : List UInt8)
    (token : H256) (amount : U256) (idTime lockTime : Seconds) : Bridge × Outcome H256 :=
  if amount < bridge.config.minTransferAmount then (bridge, some (.error .amountTooLow))
  else if bridge.config.maxTransferAmount < amount then (bridge, some (.error .amountTooHigh))
  else
    let lockId := generateLockId env owner token amount idTime
    let lockedAsset := LockedAsset.new chainId owner token amount lockTime
    match (bridge.setAsset lockId lockedAsset).updateLiquidityPool token amount true with
    | (bridge, none) => (bridge, none)
    | (bridge, some (.error error)) => (bridge, some (.error error))
    | (bridge, some (.ok ())) => (bridge, some (.ok lockId))

/-- `unlock_tokens`. -/
def unlockTokens (bridge : Bridge) (lockId : H256) (now : Seconds) : Bridge × Outcome Unit :=
  match bridge.lockedAssets.lookup lockId with
  | none => (bridge, some (.error (.bridgeError "Lock not found")))
  | some asset =>
    if asset.unlockTime.isSome then (bridge, some (.error (.bridgeError "Already unlocked")))
    else
      (bridge.setAsset lockId { asset with unlockTime := some now.val }).updateLiquidityPool
        asset.token asset.amount false

/-- Whether the amount is one that can be transferred. -/
def InRange (bridge : Bridge) (amount : U256) : Prop :=
  bridge.config.minTransferAmount ≤ amount ∧ amount ≤ bridge.config.maxTransferAmount

theorem pool_setPool (bridge : Bridge) (token token' : H256) (pool : LiquidityPool) :
    (bridge.setPool token pool).pool token'
      = if token' = token then pool else bridge.pool token' := by
  unfold Bridge.pool setPool
  split
  next hsame => rw [hsame, AList.lookup_insert, Option.getD_some]
  next hother => rw [AList.lookup_insert_ne hother]

/-- An amount goes into the pool, unless the total overflows. -/
theorem updateLiquidityPool_lock (bridge : Bridge) {token : H256}
    (hle : (bridge.pool token).availableLiquidity.toNat ≤ (bridge.pool token).totalLiquidity.toNat)
    (amount : U256) : bridge.updateLiquidityPool token amount true =
      if (bridge.pool token).totalLiquidity.toNat + amount.toNat < 2 ^ 256 then
        (bridge.setPool token { bridge.pool token with
          totalLiquidity := (bridge.pool token).totalLiquidity + amount
          availableLiquidity := (bridge.pool token).availableLiquidity + amount }, some (.ok ()))
      else (bridge.setPool token (bridge.pool token), none) := by
  unfold updateLiquidityPool
  dsimp only
  rw [if_pos rfl, addU256]
  by_cases hlt : (bridge.pool token).totalLiquidity.toNat + amount.toNat < 2 ^ 256
  · rw [if_pos hlt, if_pos hlt]
    dsimp only
    rw [addU256, if_pos (by omega)]
  · rw [if_neg hlt, if_neg hlt]

/-- An amount that is available can be taken out of the pool. -/
theorem updateLiquidityPool_unlock {bridge : Bridge} {token : H256} {amount : U256}
    (hle : amount.toNat ≤ (bridge.pool token).availableLiquidity.toNat) :
    bridge.updateLiquidityPool token amount false =
      (bridge.setPool token { bridge.pool token with
        availableLiquidity := (bridge.pool token).availableLiquidity - amount },
        some (.ok ())) := by
  unfold updateLiquidityPool
  dsimp only
  rw [if_neg Bool.false_ne_true, if_neg fun hlt => Nat.not_lt.mpr hle (BitVec.lt_def.mp hlt),
    subU256, if_pos hle]

theorem lockTokens_of_not (env : KeccakEnv) {bridge : Bridge} {amount : U256}
    (h : ¬ bridge.InRange amount) (chainId : U64) (owner : List UInt8) (token : H256)
    (idTime lockTime : Seconds) :
    ∃ error, bridge.lockTokens env chainId owner token amount idTime lockTime
      = (bridge, some (.error error)) := by
  unfold lockTokens
  split
  next => exact ⟨_, rfl⟩
  next hlow =>
    split
    next => exact ⟨_, rfl⟩
    next hhigh => exact absurd ⟨BitVec.not_lt.mp hlow, BitVec.not_lt.mp hhigh⟩ h

/-- The record is written in any case, and the amount goes into the pool unless the total
overflows. -/
theorem lockTokens_of_inRange (env : KeccakEnv) {bridge : Bridge} {token : H256} {amount : U256}
    (h : bridge.InRange amount)
    (hle : (bridge.pool token).availableLiquidity.toNat ≤ (bridge.pool token).totalLiquidity.toNat)
    (chainId : U64) (owner : List UInt8) (idTime lockTime : Seconds) :
    bridge.lockTokens env chainId owner token amount idTime lockTime =
      let lockId := generateLockId env owner token amount idTime
      let written := bridge.setAsset lockId (.new chainId owner token amount lockTime)
      if (bridge.pool token).totalLiquidity.toNat + amount.toNat < 2 ^ 256 then
        (written.setPool token { bridge.pool token with
          totalLiquidity := (bridge.pool token).totalLiquidity + amount
          availableLiquidity := (bridge.pool token).availableLiquidity + amount },
          some (.ok lockId))
      else (written.setPool token (bridge.pool token), none) := by
  unfold lockTokens
  rw [if_neg (BitVec.not_lt.mpr h.1), if_neg (BitVec.not_lt.mpr h.2)]
  dsimp only
  have hpool := updateLiquidityPool_lock (bridge.setAsset
    (generateLockId env owner token amount idTime) (.new chainId owner token amount lockTime)) hle
    amount
  by_cases hlt : (bridge.pool token).totalLiquidity.toNat + amount.toNat < 2 ^ 256
  · rw [if_pos hlt, hpool.trans (if_pos hlt)]
    rfl
  · rw [if_neg hlt, hpool.trans (if_neg hlt)]
    rfl

/-- A lock that has not been unlocked, and is covered by the pool, can be unlocked. -/
theorem unlockTokens_of_some {bridge : Bridge} {lockId : H256} {asset : LockedAsset}
    (hasset : bridge.lockedAssets.lookup lockId = some asset) (hopen : asset.unlockTime = none)
    (hle : asset.amount.toNat ≤ (bridge.pool asset.token).availableLiquidity.toNat)
    (now : Seconds) : bridge.unlockTokens lockId now =
      ((bridge.setAsset lockId { asset with unlockTime := some now.val }).setPool asset.token
        { bridge.pool asset.token with
          availableLiquidity := (bridge.pool asset.token).availableLiquidity - asset.amount },
        some (.ok ())) := by
  unfold unlockTokens
  rw [hasset]
  dsimp only
  rw [hopen, Option.isSome_none, if_neg Bool.false_ne_true]
  exact updateLiquidityPool_unlock hle

end Bridge

end InterBit.CrossChain
