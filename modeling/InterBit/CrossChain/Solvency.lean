import InterBit.CrossChain.Bridge
import InterBit.Lib.Assoc
import InterBit.Lib.Trace
import Mathlib.Algebra.BigOperators.Group.List.Basic

/-!
# The two ledgers of the bridge

The records of the locks and the totals of the pools have to agree. `solvent_iff`: they do, every
lock can be unlocked once for its own amount, and a call that fails changes nothing, exactly if no
lock gets the id of an earlier one, which it does if it is made twice in a second, and the total of
a pool, which is all that has ever been locked, does not overflow after the record has been written.
-/

namespace InterBit.CrossChain

open InterBit.Lib

/-- A lock that `lock_tokens` has returned. -/
structure Lock where
  id : H256
  token : H256
  amount : U256

/-- A bridge, what has been locked, and what has been unlocked. -/
structure BridgeSession where
  bridge : Bridge
  locks : List Lock
  unlocked : List H256

/-- A call. -/
inductive BridgeCall where
  | lock (chainId : U64) (owner : List UInt8) (token : H256) (amount : U256)
    (idTime lockTime : Seconds)
  | unlock (lockId : H256) (now : Seconds)

/-- What of a lock is outstanding for a token. -/
def Lock.outstanding (unlocked : List H256) (token : H256) (lock : Lock) : Nat :=
  if lock.token = token ∧ lock.id ∉ unlocked then lock.amount.toNat else 0

/-- What of a record is locked for a token. -/
def LockedAsset.openAmount (token : H256) (asset : LockedAsset) : Nat :=
  if asset.token = token ∧ asset.unlockTime.isNone then asset.amount.toNat else 0

namespace BridgeSession

/-- A new bridge. -/
def new (config : BridgeConfig) : BridgeSession := ⟨.new config, [], []⟩

/-- One call. -/
def next (env : KeccakEnv) (session : BridgeSession) : BridgeCall → BridgeSession
  | .lock chainId owner token amount idTime lockTime =>
    match session.bridge.lockTokens env chainId owner token amount idTime lockTime with
    | (bridge, some (.ok lockId)) =>
      { session with bridge, locks := session.locks ++ [⟨lockId, token, amount⟩] }
    | (bridge, _) => { session with bridge }
  | .unlock lockId now =>
    match session.bridge.unlockTokens lockId now with
    | (bridge, some (.ok ())) => { session with bridge, unlocked := session.unlocked ++ [lockId] }
    | (bridge, _) => { session with bridge }

/-- Whether a call does not return `Ok`. -/
def Fails (env : KeccakEnv) (session : BridgeSession) : BridgeCall → Prop
  | .lock chainId owner token amount idTime lockTime => ∀ lockId,
    (session.bridge.lockTokens env chainId owner token amount idTime lockTime).2
      ≠ some (.ok lockId)
  | .unlock lockId now => (session.bridge.unlockTokens lockId now).2 ≠ some (.ok ())

/-- The sum of the locks of a token that have not been unlocked. -/
def outstanding (session : BridgeSession) (token : H256) : Nat :=
  (session.locks.map (Lock.outstanding session.unlocked token)).sum

/-- The ledgers agree, and every lock can be unlocked once for its own amount. -/
structure Solvent (session : BridgeSession) : Prop where
  available : ∀ token,
    (session.bridge.pool token).availableLiquidity.toNat = session.outstanding token
  locked : ∀ token entries, entries.Perm session.bridge.lockedAssets.entries →
    (getLockedAmount entries token).map BitVec.toNat = some (session.outstanding token)
  distinct : (session.locks.map Lock.id).Nodup
  once : session.unlocked.Nodup
  redeemable : ∀ lock ∈ session.locks, lock.id ∉ session.unlocked → ∀ now,
    (session.bridge.unlockTokens lock.id now).2 = some (.ok ()) ∧
      ∀ token, (session.bridge.pool token).availableLiquidity.toNat
        = ((session.bridge.unlockTokens lock.id now).1.pool token).availableLiquidity.toNat
          + if token = lock.token then lock.amount.toNat else 0
  spent : ∀ lockId ∈ session.unlocked, ∀ now,
    (session.bridge.unlockTokens lockId now).2
      = some (.error (.bridgeError "Already unlocked"))

/-- Two bridges with the same records and pools. -/
structure SameState (bridge bridge' : Bridge) : Prop where
  lockedAssets : ∀ lockId, bridge'.lockedAssets.lookup lockId = bridge.lockedAssets.lookup lockId
  liquidityPools : ∀ token, bridge'.liquidityPools.lookup token = bridge.liquidityPools.lookup token

/-- The bridge is solvent after the call; and it is as it was if the call fails. -/
structure Sound (env : KeccakEnv) (session : BridgeSession) (call : BridgeCall) : Prop where
  solvent : (session.next env call).Solvent
  unchanged : session.Fails env call → SameState session.bridge (session.next env call).bridge

/-- A lock gets a new id; or the total of the pool overflows, but the record that has been written
is there already. -/
def Proper (env : KeccakEnv) (session : BridgeSession) : BridgeCall → Prop
  | .lock chainId owner token amount idTime lockTime => session.bridge.InRange amount →
    let lockId := generateLockId env owner token amount idTime
    if (session.bridge.pool token).totalLiquidity.toNat + amount.toNat < 2 ^ 256 then
      session.bridge.lockedAssets.lookup lockId = none
    else
      session.bridge.lockedAssets.lookup lockId = some (.new chainId owner token amount lockTime)
  | .unlock _ _ => True

/-- The records are those of the locks, and the pools have what is outstanding. -/
structure Ledger (session : BridgeSession) : Prop where
  distinct : (session.locks.map Lock.id).Nodup
  once : session.unlocked.Nodup
  recorded : ∀ lock ∈ session.locks, ∃ asset,
    session.bridge.lockedAssets.lookup lock.id = some asset ∧ asset.token = lock.token ∧
      asset.amount = lock.amount ∧ (asset.unlockTime.isSome ↔ lock.id ∈ session.unlocked)
  known : ∀ lockId asset, session.bridge.lockedAssets.lookup lockId = some asset →
    lockId ∈ session.locks.map Lock.id
  taken : ∀ lockId ∈ session.unlocked, lockId ∈ session.locks.map Lock.id
  weighed : ∀ token,
    weigh (LockedAsset.openAmount token) session.bridge.lockedAssets = session.outstanding token
  available : ∀ token,
    (session.bridge.pool token).availableLiquidity.toNat = session.outstanding token
  bounded : ∀ token, (session.bridge.pool token).availableLiquidity.toNat
    ≤ (session.bridge.pool token).totalLiquidity.toNat

/-! ## Sums -/

/-- The loop over the records computes the sum. -/
theorem foldlM_openAmount (token : H256) (assets : List LockedAsset) (acc : U256)
    (h : acc.toNat + (assets.map (LockedAsset.openAmount token)).sum < 2 ^ 256) :
    ((assets.filter fun asset => asset.token = token ∧ asset.unlockTime.isNone).foldlM
      (fun acc asset => addU256 acc asset.amount) acc).map BitVec.toNat
      = some (acc.toNat + (assets.map (LockedAsset.openAmount token)).sum) := by
  induction assets generalizing acc with
  | nil => rfl
  | cons asset assets ih =>
    rw [List.map_cons, List.sum_cons] at h ⊢
    rw [List.filter_cons]
    by_cases hopen : asset.token = token ∧ asset.unlockTime.isNone
    · have hamount : asset.openAmount token = asset.amount.toNat := if_pos hopen
      rw [hamount] at h ⊢
      have hadd : addU256 acc asset.amount = some (acc + asset.amount) := if_pos (by omega)
      have hsum := addU256_eq.mp hadd
      rw [if_pos (decide_eq_true hopen), List.foldlM_cons, hadd, Option.bind_eq_bind,
        Option.bind_some, ih _ (by omega), hsum, Nat.add_assoc]
    · have hamount : asset.openAmount token = 0 := if_neg hopen
      rw [hamount, Nat.zero_add] at h ⊢
      rw [if_neg (by rwa [decide_eq_true_iff]), ih acc h]

/-- In whatever order it goes through the records. -/
theorem getLockedAmount_eq {entries : List (Sigma fun _ : H256 => LockedAsset)}
    {lockedAssets : AList fun _ : H256 => LockedAsset} (hperm : entries.Perm lockedAssets.entries)
    {token : H256} (h : weigh (LockedAsset.openAmount token) lockedAssets < 2 ^ 256) :
    (getLockedAmount entries token).map BitVec.toNat
      = some (weigh (LockedAsset.openAmount token) lockedAssets) := by
  have hsum : ((entries.map Sigma.snd).map (LockedAsset.openAmount token)).sum
      = weigh (LockedAsset.openAmount token) lockedAssets := by
    rw [List.map_map]
    exact (hperm.map _).sum_eq
  have hzero : BitVec.toNat (0 : U256) = 0 := rfl
  have hloop := foldlM_openAmount token (entries.map Sigma.snd) 0
  rw [hsum, hzero, Nat.zero_add] at hloop
  exact hloop h

variable {lock : Lock} {asset : LockedAsset} {session : BridgeSession} {amount : U256}

/-- A lock that has not been unlocked is outstanding for its token. -/
theorem outstanding_of_open {unlocked : List H256} (hopen : lock.id ∉ unlocked) (token : H256) :
    lock.outstanding unlocked token
      = if token = lock.token then lock.amount.toNat else 0 :=
  if_congr ((and_iff_left hopen).trans eq_comm) rfl rfl

/-- And so is its record. -/
theorem openAmount_of_open (htoken : asset.token = lock.token)
    (hamount : asset.amount = lock.amount) (hnone : asset.unlockTime = none) (token : H256) :
    asset.openAmount token = if token = lock.token then lock.amount.toNat else 0 := by
  rw [LockedAsset.openAmount, htoken, hamount, hnone]
  exact if_congr ((and_iff_left rfl).trans eq_comm) rfl rfl

/-- What is outstanding contains each lock that has not been unlocked. -/
theorem outstanding_unlock {locks : List Lock} {unlocked : List H256}
    (hdistinct : (locks.map Lock.id).Nodup) (hmem : lock ∈ locks) (hopen : lock.id ∉ unlocked)
    (token : H256) : (locks.map (Lock.outstanding unlocked token)).sum =
      (locks.map (Lock.outstanding (unlocked ++ [lock.id]) token)).sum
        + if token = lock.token then lock.amount.toNat else 0 := by
  obtain ⟨before, after, rfl⟩ := List.append_of_mem hmem
  rw [List.map_append, List.map_cons, List.nodup_append, List.nodup_cons] at hdistinct
  obtain ⟨_, ⟨hafter, _⟩, hbefore⟩ := hdistinct
  have hothers : ∀ other : Lock, other.id ≠ lock.id →
      Lock.outstanding unlocked token other
        = Lock.outstanding (unlocked ++ [lock.id]) token other := by
    intro other hne
    refine if_congr (and_congr_right fun _ => not_congr ?_) rfl rfl
    rw [List.mem_append, List.mem_singleton, or_iff_left hne]
  have hfront : before.map (Lock.outstanding unlocked token)
      = before.map (Lock.outstanding (unlocked ++ [lock.id]) token) :=
    List.map_congr_left fun other hother => hothers other fun heq =>
      hbefore _ (List.mem_map_of_mem hother) _ (List.mem_cons_self ..) heq
  have hback : after.map (Lock.outstanding unlocked token)
      = after.map (Lock.outstanding (unlocked ++ [lock.id]) token) :=
    List.map_congr_left fun other hother => hothers other fun heq =>
      hafter (heq ▸ List.mem_map_of_mem hother)
  have hnew : Lock.outstanding (unlocked ++ [lock.id]) token lock = 0 :=
    if_neg fun h => h.2 (List.mem_append_right _ (List.mem_singleton_self _))
  rw [List.map_append, List.map_cons, List.sum_append, List.sum_cons, List.map_append,
    List.map_cons, List.sum_append, List.sum_cons, hfront, hback, hnew, outstanding_of_open hopen]
  omega

/-! ## Unlocking -/

/-- A session after a lock has been unlocked. -/
def afterUnlock (session : BridgeSession) (lock : Lock) (asset : LockedAsset) (now : Seconds) :
    BridgeSession where
  bridge := (session.bridge.setAsset lock.id { asset with unlockTime := some now.val }).setPool
    lock.token { session.bridge.pool lock.token with
      availableLiquidity := (session.bridge.pool lock.token).availableLiquidity - lock.amount }
  locks := session.locks
  unlocked := session.unlocked ++ [lock.id]

/-- An outstanding lock is covered, so it can be unlocked. -/
theorem Ledger.unlockTokens (h : session.Ledger) (hmem : lock ∈ session.locks)
    (hopen : lock.id ∉ session.unlocked) (now : Seconds) :
    ∃ asset, session.bridge.lockedAssets.lookup lock.id = some asset ∧ asset.token = lock.token ∧
      asset.amount = lock.amount ∧ asset.unlockTime = none ∧
      lock.amount.toNat ≤ (session.bridge.pool lock.token).availableLiquidity.toNat ∧
      session.bridge.unlockTokens lock.id now
        = ((session.afterUnlock lock asset now).bridge, some (.ok ())) := by
  obtain ⟨asset, hasset, htoken, hamount, hspent⟩ := h.recorded lock hmem
  have hnone : asset.unlockTime = none := by
    rw [← Option.not_isSome_iff_eq_none, hspent]
    exact hopen
  have hcovered : lock.amount.toNat
      ≤ (session.bridge.pool lock.token).availableLiquidity.toNat := by
    rw [h.available, outstanding, outstanding_unlock h.distinct hmem hopen, if_pos rfl]
    exact Nat.le_add_left ..
  refine ⟨asset, hasset, htoken, hamount, hnone, hcovered, ?_⟩
  obtain ⟨lockId, token, amount⟩ := lock
  obtain rfl : asset.token = token := htoken
  obtain rfl : asset.amount = amount := hamount
  exact Bridge.unlockTokens_of_some hasset hnone hcovered now

theorem toNat_sub_of_le {a b : U256} (h : b.toNat ≤ a.toNat) : (a - b).toNat + b.toNat = a.toNat :=
  subU256_eq.mp (if_pos h)

/-- An unlock takes its amount out of its own pool. -/
theorem available_afterUnlock (session : BridgeSession) (asset : LockedAsset) (now : Seconds)
    (hle : lock.amount.toNat ≤ (session.bridge.pool lock.token).availableLiquidity.toNat)
    (token : H256) : (session.bridge.pool token).availableLiquidity.toNat =
      ((session.afterUnlock lock asset now).bridge.pool token).availableLiquidity.toNat
        + if token = lock.token then lock.amount.toNat else 0 := by
  rw [afterUnlock, Bridge.pool_setPool]
  split
  next hsame =>
    subst hsame
    exact (toNat_sub_of_le hle).symm
  next => rfl

/-- An unlock leaves every total. -/
theorem total_afterUnlock (session : BridgeSession) (lock : Lock) (asset : LockedAsset)
    (now : Seconds) (token : H256) :
    ((session.afterUnlock lock asset now).bridge.pool token).totalLiquidity
      = (session.bridge.pool token).totalLiquidity := by
  rw [afterUnlock, Bridge.pool_setPool]
  split
  next hsame => rw [hsame]
  next => rfl

theorem Ledger.afterUnlock (h : session.Ledger) (hmem : lock ∈ session.locks)
    (hopen : lock.id ∉ session.unlocked)
    (hasset : session.bridge.lockedAssets.lookup lock.id = some asset)
    (htoken : asset.token = lock.token) (hamount : asset.amount = lock.amount)
    (hnone : asset.unlockTime = none)
    (hle : lock.amount.toNat ≤ (session.bridge.pool lock.token).availableLiquidity.toNat)
    (now : Seconds) : (session.afterUnlock lock asset now).Ledger := by
  have hsum : ∀ token, session.outstanding token
      = (session.afterUnlock lock asset now).outstanding token
        + if token = lock.token then lock.amount.toNat else 0 :=
    outstanding_unlock h.distinct hmem hopen
  have hpool := available_afterUnlock session asset now hle
  refine ⟨h.distinct, ?_, fun other hother => ?_, fun lockId asset' hlookup => ?_,
    fun lockId hlockId => ?_, fun token => ?_, fun token => ?_, fun token => ?_⟩
  · rw [BridgeSession.afterUnlock, ← List.concat_eq_append]
    exact h.once.concat hopen
  · show ∃ asset', (session.bridge.lockedAssets.insert _ _).lookup other.id = some asset' ∧
      _ ∧ _ ∧ (_ ↔ other.id ∈ session.unlocked ++ [lock.id])
    by_cases hsame : other.id = lock.id
    -- ids are distinct, so this is the lock that is opened
    · obtain rfl := List.inj_on_of_nodup_map h.distinct hother hmem hsame
      exact ⟨_, AList.lookup_insert _, htoken, hamount,
        iff_of_true rfl (List.mem_append_right _ (List.mem_singleton_self _))⟩
    · obtain ⟨asset', hasset', htoken', hamount', hspent⟩ := h.recorded other hother
      refine ⟨asset', (AList.lookup_insert_ne hsame).trans hasset', htoken', hamount', ?_⟩
      rw [hspent, List.mem_append, List.mem_singleton, or_iff_left hsame]
  · rcases lookup_insert_eq_some.mp hlookup with ⟨rfl, _⟩ | ⟨_, hold⟩
    · exact List.mem_map_of_mem hmem
    · exact h.known lockId asset' hold
  · rcases List.mem_append.mp hlockId with hold | hnew
    · exact h.taken lockId hold
    · exact List.mem_singleton.mp hnew ▸ List.mem_map_of_mem hmem
  · have hweigh := h.weighed token
    rw [hsum token, weigh_erase hasset] at hweigh
    -- the record weighed its amount, and weighs nothing with an unlock time
    have hlocked := openAmount_of_open htoken hamount hnone token
    refine (weigh_insert ..).trans ?_
    rw [LockedAsset.openAmount, if_neg fun h => nomatch h.2]
    omega
  · have havailable := h.available token
    rw [hsum token, hpool token] at havailable
    omega
  · have hbounded := h.bounded token
    rw [hpool token] at hbounded
    rw [total_afterUnlock]
    omega

/-- Unlocking again is an error. -/
theorem Ledger.unlockTokens_spent (h : session.Ledger) {lockId : H256}
    (hspent : lockId ∈ session.unlocked) (now : Seconds) :
    session.bridge.unlockTokens lockId now
      = (session.bridge, some (.error (.bridgeError "Already unlocked"))) := by
  obtain ⟨lock, hmem, rfl⟩ := List.mem_map.mp (h.taken lockId hspent)
  obtain ⟨asset, hasset, _, _, hiff⟩ := h.recorded lock hmem
  unfold Bridge.unlockTokens
  rw [hasset]
  exact if_pos (hiff.mpr hspent)

/-- The books entail solvency. -/
theorem Ledger.solvent (h : session.Ledger) : session.Solvent := by
  refine ⟨h.available, fun token entries hperm => ?_, h.distinct, h.once,
    fun lock hmem hopen now => ?_, fun lockId hspent now => ?_⟩
  · rw [← h.weighed token]
    refine getLockedAmount_eq hperm ?_
    rw [h.weighed token, ← h.available token]
    exact BitVec.isLt _
  · obtain ⟨asset, _, _, _, _, hle, heq⟩ := h.unlockTokens hmem hopen now
    rw [heq]
    exact ⟨rfl, available_afterUnlock session asset now hle⟩
  · rw [h.unlockTokens_spent hspent]

/-! ## Locking -/

/-- A session after a lock, for which a record has been written. -/
def afterLock (session : BridgeSession) (lock : Lock) (asset : LockedAsset) : BridgeSession where
  bridge := (session.bridge.setAsset lock.id asset).setPool lock.token
    { session.bridge.pool lock.token with
      totalLiquidity := (session.bridge.pool lock.token).totalLiquidity + lock.amount
      availableLiquidity := (session.bridge.pool lock.token).availableLiquidity + lock.amount }
  locks := session.locks ++ [lock]
  unlocked := session.unlocked

/-- The amount goes into both totals of its pool. -/
theorem pool_afterLock (asset : LockedAsset)
    (hle : (session.bridge.pool lock.token).availableLiquidity.toNat
      ≤ (session.bridge.pool lock.token).totalLiquidity.toNat)
    (hlt : (session.bridge.pool lock.token).totalLiquidity.toNat + lock.amount.toNat < 2 ^ 256)
    (token : H256) :
    ((session.afterLock lock asset).bridge.pool token).availableLiquidity.toNat
        = (session.bridge.pool token).availableLiquidity.toNat
          + (if token = lock.token then lock.amount.toNat else 0) ∧
      ((session.afterLock lock asset).bridge.pool token).totalLiquidity.toNat
        = (session.bridge.pool token).totalLiquidity.toNat
          + if token = lock.token then lock.amount.toNat else 0 := by
  rw [afterLock, Bridge.pool_setPool]
  split
  next hsame =>
    subst hsame
    exact ⟨addU256_eq.mp (if_pos (by omega)), addU256_eq.mp (if_pos hlt)⟩
  next => exact ⟨rfl, rfl⟩

/-- A lock whose sum fits joins the pool and the open locks. -/
theorem Ledger.afterLock (h : session.Ledger) (htoken : asset.token = lock.token)
    (hamount : asset.amount = lock.amount) (hnone : asset.unlockTime = none)
    (hnew : session.bridge.lockedAssets.lookup lock.id = none)
    (hlt : (session.bridge.pool lock.token).totalLiquidity.toNat + lock.amount.toNat < 2 ^ 256) :
    (session.afterLock lock asset).Ledger := by
  -- every lock of the session has a record, and the new id has none
  have hfresh : lock.id ∉ session.locks.map Lock.id := by
    intro hmem
    obtain ⟨other, hother, hsame⟩ := List.mem_map.mp hmem
    obtain ⟨asset', hasset', _⟩ := h.recorded other hother
    rw [hsame, hnew] at hasset'
    cases hasset'
  have hopen : lock.id ∉ session.unlocked := fun hmem => hfresh (h.taken _ hmem)
  have hsum : ∀ token, (session.afterLock lock asset).outstanding token
      = session.outstanding token + if token = lock.token then lock.amount.toNat else 0 := by
    intro token
    rw [outstanding, BridgeSession.afterLock, List.map_append, List.sum_append, List.map_singleton,
      List.sum_singleton, outstanding_of_open hopen]
    rfl
  have hpool := pool_afterLock asset (h.bounded lock.token) hlt
  refine ⟨?_, h.once, fun other hother => ?_, fun lockId asset' hlookup => ?_,
    fun lockId hlockId => ?_, fun token => ?_, fun token => ?_, fun token => ?_⟩
  · rw [BridgeSession.afterLock, List.map_append, List.map_singleton, ← List.concat_eq_append]
    exact h.distinct.concat hfresh
  · show ∃ asset', (session.bridge.lockedAssets.insert _ _).lookup other.id = some asset' ∧ _
    rcases List.mem_append.mp hother with hold | hlast
    · have hne : other.id ≠ lock.id := fun hsame => hfresh (hsame ▸ List.mem_map_of_mem hold)
      rw [AList.lookup_insert_ne hne]
      exact h.recorded other hold
    · obtain rfl := List.mem_singleton.mp hlast
      refine ⟨asset, AList.lookup_insert _, htoken, hamount, iff_of_false ?_ hopen⟩
      rw [hnone]
      exact Bool.false_ne_true
  · rw [BridgeSession.afterLock, List.map_append]
    rcases lookup_insert_eq_some.mp hlookup with ⟨rfl, _⟩ | ⟨_, hold⟩
    · exact List.mem_append_right _ (List.mem_singleton_self _)
    · exact List.mem_append_left _ (h.known lockId asset' hold)
  · rw [BridgeSession.afterLock, List.map_append]
    exact List.mem_append_left _ (h.taken lockId hlockId)
  -- the id weighed nothing before
  · have hweigh := h.weighed token
    rw [weigh_eq_weightAt _ _ lock.id, weightAt, hnew, Option.map_none, Option.getD_none,
      Nat.zero_add] at hweigh
    refine (weigh_insert ..).trans ?_
    rw [hsum token, openAmount_of_open htoken hamount hnone, hweigh, Nat.add_comm]
  · rw [(hpool token).1, hsum token, h.available token]
  · rw [(hpool token).1, (hpool token).2]
    exact Nat.add_le_add_right (h.bounded token) _

/-- A bridge in which a record has been written, and then the total of the pool has overflowed. -/
def overflowed (bridge : Bridge) (lockId token : H256) (asset : LockedAsset) : Bridge :=
  (bridge.setAsset lockId asset).setPool token (bridge.pool token)

/-- Only the record can be new then. -/
theorem sameState_overflowed {bridge : Bridge} {lockId token : H256}
    (hover : ¬ (bridge.pool token).totalLiquidity.toNat + amount.toNat < 2 ^ 256) :
    SameState bridge (overflowed bridge lockId token asset) ↔
      bridge.lockedAssets.lookup lockId = some asset := by
  constructor
  · intro hsame
    exact (hsame.lockedAssets lockId).symm.trans (AList.lookup_insert _)
  · intro hasset
    refine ⟨fun lockId' => ?_, fun token' => ?_⟩
    · by_cases hkey : lockId' = lockId
      · subst hkey
        exact (AList.lookup_insert _).trans hasset.symm
      · exact AList.lookup_insert_ne hkey
    · by_cases hkey : token' = token
      · subst hkey
        refine (AList.lookup_insert _).trans ?_
        unfold Bridge.pool at hover ⊢
        cases hpool : bridge.liquidityPools.lookup token' with
        | some pool => rfl
        | none =>
          -- a pool that is new cannot overflow
          rw [hpool] at hover
          have hamount := amount.isLt
          exact absurd ((Nat.zero_add _).trans_lt hamount) hover
      · exact AList.lookup_insert_ne hkey

theorem Ledger.overflowed (h : session.Ledger) {lockId token : H256}
    (hover : ¬ (session.bridge.pool token).totalLiquidity.toNat + amount.toNat < 2 ^ 256)
    (hasset : session.bridge.lockedAssets.lookup lockId = some asset) :
    Ledger ⟨overflowed session.bridge lockId token asset, session.locks, session.unlocked⟩ := by
  have hsame : SameState session.bridge
      (BridgeSession.overflowed session.bridge lockId token asset) :=
    (sameState_overflowed hover).mpr hasset
  have hpool : (BridgeSession.overflowed session.bridge lockId token asset).pool
      = session.bridge.pool := by
    funext token'
    unfold Bridge.pool
    rw [hsame.liquidityPools]
  refine ⟨h.distinct, h.once, fun lock hmem => ?_, fun lockId' asset' hlookup => ?_, h.taken,
    fun token' => ?_, fun token' => ?_, fun token' => ?_⟩
  · dsimp only
    rw [hsame.lockedAssets]
    exact h.recorded lock hmem
  · exact h.known lockId' asset' ((hsame.lockedAssets lockId').symm.trans hlookup)
  · refine Eq.trans ?_ (h.weighed token')
    rw [weigh_erase hasset]
    exact weigh_insert ..
  · dsimp only
    rw [hpool]
    exact h.available token'
  · dsimp only
    rw [hpool]
    exact h.bounded token'

/-! ## Runs -/

theorem SameState.refl (bridge : Bridge) : SameState bridge bridge :=
  ⟨fun _ => rfl, fun _ => rfl⟩

/-- A lock in range whose sum fits. -/
theorem next_lock_of_lt (env : KeccakEnv) (h : session.Ledger) {token : H256}
    (hrange : session.bridge.InRange amount)
    (hlt : (session.bridge.pool token).totalLiquidity.toNat + amount.toNat < 2 ^ 256)
    (chainId : U64) (owner : List UInt8) (idTime lockTime : Seconds) :
    session.next env (.lock chainId owner token amount idTime lockTime)
        = session.afterLock ⟨generateLockId env owner token amount idTime, token, amount⟩
            (.new chainId owner token amount lockTime) ∧
      ¬ session.Fails env (.lock chainId owner token amount idTime lockTime) := by
  have heq := (Bridge.lockTokens_of_inRange env hrange (h.bounded token) chainId owner
    idTime lockTime).trans (if_pos hlt)
  constructor
  · unfold next
    dsimp only
    rw [heq]
    rfl
  · intro hfails
    exact hfails _ (congrArg Prod.snd heq)

/-- A lock in range whose sum does not. -/
theorem next_lock_of_overflow (env : KeccakEnv) (h : session.Ledger) {token : H256}
    (hrange : session.bridge.InRange amount)
    (hover : ¬ (session.bridge.pool token).totalLiquidity.toNat + amount.toNat < 2 ^ 256)
    (chainId : U64) (owner : List UInt8) (idTime lockTime : Seconds) :
    session.next env (.lock chainId owner token amount idTime lockTime)
        = ⟨overflowed session.bridge (generateLockId env owner token amount idTime) token
            (.new chainId owner token amount lockTime), session.locks, session.unlocked⟩ ∧
      session.Fails env (.lock chainId owner token amount idTime lockTime) := by
  have heq := (Bridge.lockTokens_of_inRange env hrange (h.bounded token) chainId owner
    idTime lockTime).trans (if_neg hover)
  constructor
  · unfold next
    dsimp only
    rw [heq]
    rfl
  · intro lockId hok
    exact nomatch (congrArg Prod.snd heq).symm.trans hok

/-- A lock out of range, which is refused. -/
theorem next_lock_of_not (env : KeccakEnv) (hrange : ¬ session.bridge.InRange amount)
    (chainId : U64) (owner : List UInt8) (token : H256) (idTime lockTime : Seconds) :
    session.next env (.lock chainId owner token amount idTime lockTime) = session := by
  obtain ⟨error, heq⟩ := Bridge.lockTokens_of_not env hrange chainId owner token idTime
    lockTime
  unfold next
  dsimp only
  rw [heq]

/-- An unlock leaves the session as it is, or unlocks an outstanding lock. -/
theorem Ledger.next_unlock (h : session.Ledger) (env : KeccakEnv) (lockId : H256) (now : Seconds) :
    session.next env (.unlock lockId now) = session ∨
      (session.next env (.unlock lockId now)).Ledger ∧
        ¬ session.Fails env (.unlock lockId now) := by
  unfold next Fails
  dsimp only
  by_cases hspent : lockId ∈ session.unlocked
  · rw [h.unlockTokens_spent hspent]
    exact .inl rfl
  · by_cases hknown : lockId ∈ session.locks.map Lock.id
    · obtain ⟨lock, hmem, rfl⟩ := List.mem_map.mp hknown
      obtain ⟨asset, hasset, htoken, hamount, hnone, hle, heq⟩ := h.unlockTokens hmem hspent now
      rw [heq]
      exact .inr ⟨h.afterUnlock hmem hspent hasset htoken hamount hnone hle now,
        fun hfails => hfails rfl⟩
    · have hnone : session.bridge.lockedAssets.lookup lockId = none := by
        rw [Option.eq_none_iff_forall_ne_some]
        exact fun asset hasset => hknown (h.known lockId asset hasset)
      unfold Bridge.unlockTokens
      rw [hnone]
      exact .inl rfl

/-- A proper call keeps the ledgers in agreement. -/
theorem Ledger.next {session : BridgeSession} (h : session.Ledger) {env : KeccakEnv}
    {call : BridgeCall} (hproper : session.Proper env call) : (session.next env call).Ledger := by
  cases call with
  | unlock lockId now =>
    rcases h.next_unlock env lockId now with heq | ⟨hnext, _⟩
    · rw [heq]
      exact h
    · exact hnext
  | lock chainId owner token amount idTime lockTime =>
    by_cases hrange : session.bridge.InRange amount
    · have hrecord := hproper hrange
      dsimp only at hrecord
      split at hrecord
      next hlt =>
        rw [(next_lock_of_lt env h hrange hlt chainId owner idTime lockTime).1]
        exact h.afterLock rfl rfl rfl hrecord hlt
      next hover =>
        rw [(next_lock_of_overflow env h hrange hover chainId owner idTime lockTime).1]
        exact h.overflowed hover hrecord
    · rw [next_lock_of_not env hrange]
      exact h

/-- Only a proper call keeps the bridge solvent. -/
theorem Ledger.sound_iff (h : session.Ledger) (env : KeccakEnv) (call : BridgeCall) :
    session.Sound env call ↔ session.Proper env call := by
  cases call with
  | unlock lockId now =>
    refine iff_of_true ?_ trivial
    rcases h.next_unlock env lockId now with heq | ⟨hnext, hok⟩
    · refine ⟨?_, fun _ => ?_⟩
      · rw [heq]
        exact h.solvent
      · rw [heq]
        exact .refl _
    · exact ⟨hnext.solvent, fun hfails => absurd hfails hok⟩
  | lock chainId owner token amount idTime lockTime =>
    -- out of range a lock is refused at once
    by_cases hrange : session.bridge.InRange amount
    · constructor
      · intro hsound _
        dsimp only
        split
        next hlt =>
          -- a lock that goes through must not have an id that exists
          have hdistinct := hsound.solvent.distinct
          rw [(next_lock_of_lt env h hrange hlt chainId owner idTime lockTime).1,
            BridgeSession.afterLock, List.map_append, List.map_singleton, ← List.concat_eq_append,
            List.nodup_concat] at hdistinct
          rw [Option.eq_none_iff_forall_ne_some]
          exact fun asset hasset => hdistinct.1 (h.known _ asset hasset)
        next hover =>
          obtain ⟨heq, hfails⟩ :=
            next_lock_of_overflow env h hrange hover chainId owner idTime lockTime
          -- a lock that panics has stored its record, which must have been there
          have hsame := hsound.unchanged hfails
          rw [heq] at hsame
          exact (sameState_overflowed hover).mp hsame
      · intro hproper
        refine ⟨(h.next hproper).solvent, fun hfails => ?_⟩
        have hrecord := hproper hrange
        dsimp only at hrecord
        split at hrecord
        next hlt =>
          exact absurd hfails (next_lock_of_lt env h hrange hlt chainId owner idTime lockTime).2
        next hover =>
          rw [(next_lock_of_overflow env h hrange hover chainId owner idTime lockTime).1]
          exact (sameState_overflowed hover).mpr hrecord
    · refine iff_of_true ⟨?_, fun _ => ?_⟩ fun hin => absurd hin hrange
      · rw [next_lock_of_not env hrange]
        exact h.solvent
      · rw [next_lock_of_not env hrange]
        exact .refl _

/-- The books of a bridge without locks. -/
theorem ledger_new (config : BridgeConfig) : (new config).Ledger := by
  refine ⟨List.nodup_nil, List.nodup_nil, fun lock hmem => ?_, fun lockId asset hlookup => ?_,
    fun lockId hmem => ?_, fun _ => rfl, fun _ => rfl, fun _ => Nat.le_refl _⟩
  · exact absurd hmem List.not_mem_nil
  · cases hlookup
  · exact absurd hmem List.not_mem_nil

/-- The bridge stays solvent exactly if all calls are proper. -/
theorem solvent_iff (env : KeccakEnv) (config : BridgeConfig) (calls : List BridgeCall) :
    Always (BridgeSession.next env) (Sound env) (new config) calls ↔
      Always (BridgeSession.next env) (Proper env) (new config) calls :=
  always_iff (I := Ledger) (ledger_new config) (fun _ _ h hproper => h.next hproper)
    fun _ call h => h.sound_iff env call

/-- The owner of some tokens, who locks the same amount twice in a second. -/
def sampleLock : BridgeCall :=
  .lock 1 [7] (Vector.replicate 32 9) 1000 ⟨100, by decide⟩ ⟨100, by decide⟩

/-- The second lock has the id of the first one. -/
theorem locked_twice :
    ¬ Always (BridgeSession.next (sampleKeccakEnv true)) (Sound (sampleKeccakEnv true))
      (new ⟨100, 1000000⟩) [sampleLock, sampleLock] := by
  rintro ⟨_, hsecond, _⟩
  exact absurd hsecond.solvent.distinct (by decide +kernel)

end BridgeSession

end InterBit.CrossChain
