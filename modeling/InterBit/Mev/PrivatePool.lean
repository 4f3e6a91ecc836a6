import InterBit.Mev.Protection
import Mathlib.Data.List.AList

/-!
# The private pool

`dex/mev_protection/private_pool.rs`. Searchers with enough reputation, or on the whitelist, submit
bundles with a bid and a range of blocks. A bundle waits in a queue until the bundles for a block in
its range are asked for; a bundle whose range is over goes then. The random ids come from outside.
-/

namespace InterBit.Mev

/-- `struct PrivateBundle`. -/
structure PrivateBundle where
  id : H256
  transactions : List ProtectedTransaction
  minBlock : U64
  maxBlock : U64
  searcher : Address
  bidAmount : U256
  revertProtection : Bool
  deriving DecidableEq

/-- `struct SearcherProfile`. The score is at most 100. -/
structure SearcherProfile where
  reputationScore : Nat
  totalBundlesSubmitted : U64
  successfulBundles : U64
  totalBidValue : U256
  isWhitelisted : Bool

/-- `struct PrivatePoolConfig`. -/
structure PrivatePoolConfig where
  minReputationScore : Nat
  maxBundleSize : Nat
  minBidAmount : U256
  whitelistOnly : Bool

/-- `PrivatePoolConfig::default`. -/
def PrivatePoolConfig.default : PrivatePoolConfig where
  minReputationScore := 50
  maxBundleSize := 20
  minBidAmount := 1000000000
  whitelistOnly := false

/-- `struct BundleResult`. -/
structure BundleResult where
  bundleId : H256
  reverted : Bool

/-- `struct PrivateTransactionPool`. -/
structure PrivateTransactionPool where
  config : PrivatePoolConfig
  privateBundles : AList fun _ : H256 => PrivateBundle
  pendingQueue : List PrivateBundle
  searcherProfiles : AList fun _ : Address => SearcherProfile
  whitelist : Finset Address

/-- A bundle that is in the range of a block goes out, and one whose range is still to come stays:
the loop of `get_next_bundles`. -/
def classify (blockNumber : U64) :
    List PrivateBundle → List PrivateBundle × List PrivateBundle
  | [] => ([], [])
  | bundle :: queue =>
    let (selected, tempQueue) := classify blockNumber queue
    if bundle.minBlock ≤ blockNumber ∧ blockNumber ≤ bundle.maxBlock then
      (bundle :: selected, tempQueue)
    else if blockNumber < bundle.minBlock then (selected, bundle :: tempQueue)
    else (selected, tempQueue)

/-- The bundle that `submit_private` makes of a transaction. -/
def privateBundle (tx : ProtectedTransaction) (id : H256) : PrivateBundle where
  id
  transactions := [tx]
  minBlock := 0
  maxBlock := BitVec.allOnes 64
  searcher := tx.sender
  bidAmount := tx.gasPrice
  revertProtection := true

namespace PrivateTransactionPool

/-- `PrivateTransactionPool::with_config`. -/
def withConfig (config : PrivatePoolConfig) : PrivateTransactionPool where
  config
  privateBundles := ∅
  pendingQueue := []
  searcherProfiles := ∅
  whitelist := ∅

/-- `verify_access`. -/
def verifyAccess (pool : PrivateTransactionPool) (searcher : Address) : Bool :=
  if pool.config.whitelistOnly then searcher ∈ pool.whitelist
  else
    match pool.searcherProfiles.lookup searcher with
    | some profile => pool.config.minReputationScore ≤ profile.reputationScore
    | none => !pool.config.whitelistOnly

/-- `add_bundle`. -/
def addBundle (pool : PrivateTransactionPool) (bundle : PrivateBundle) : PrivateTransactionPool :=
  let insertPos := pool.pendingQueue.findIdx fun b => b.bidAmount < bundle.bidAmount
  { pool with
    privateBundles := pool.privateBundles.insert bundle.id bundle
    pendingQueue := pool.pendingQueue.insertIdx insertPos bundle }

/-- Set the profile of a searcher. -/
def setProfile (pool : PrivateTransactionPool) (searcher : Address) (profile : SearcherProfile) :
    PrivateTransactionPool :=
  { pool with searcherProfiles := pool.searcherProfiles.insert searcher profile }

/-- `update_searcher_stats`; a panic comes after what has been written so far. -/
def updateSearcherStats (env : Env) (pool : PrivateTransactionPool) (searcher : Address)
    (bundle : PrivateBundle) : PrivateTransactionPool × Option Unit :=
  let profile := (pool.searcherProfiles.lookup searcher).getD
    { reputationScore := 50
      totalBundlesSubmitted := 0
      successfulBundles := 0
      totalBidValue := 0
      isWhitelisted := false }
  match env.add64 profile.totalBundlesSubmitted 1 with
  | none => (pool.setProfile searcher profile, none)
  | some totalBundlesSubmitted =>
    let profile := { profile with totalBundlesSubmitted }
    match addU256 profile.totalBidValue bundle.bidAmount with
    | none => (pool.setProfile searcher profile, none)
    | some totalBidValue => (pool.setProfile searcher { profile with totalBidValue }, some ())

/-- `submit_private`, with the id that it draws. -/
def submitPrivate (pool : PrivateTransactionPool) (tx : ProtectedTransaction) (id : H256) :
    PrivateTransactionPool × Outcome H256 :=
  if pool.verifyAccess tx.sender then (pool.addBundle (privateBundle tx id), some (.ok id))
  else (pool, some (.error .privatePoolAccessDenied))

/-- `submit_bundle`. -/
def submitBundle (env : Env) (pool : PrivateTransactionPool) (bundle : PrivateBundle) :
    PrivateTransactionPool × Outcome H256 :=
  if pool.verifyAccess bundle.searcher then
    if pool.config.maxBundleSize < bundle.transactions.length then
      (pool, some (.error (.batchAuctionFailed "Bundle exceeds maximum size")))
    else if bundle.bidAmount < pool.config.minBidAmount then
      (pool, some (.error (.batchAuctionFailed "Bid amount below minimum")))
    else
      let (pool, updated) := (pool.addBundle bundle).updateSearcherStats env bundle.searcher bundle
      (pool, updated.map fun _ => .ok bundle.id)
  else (pool, some (.error .privatePoolAccessDenied))

/-- `get_next_bundles`. -/
def getNextBundles (pool : PrivateTransactionPool) (blockNumber : U64) :
    PrivateTransactionPool × List PrivateBundle :=
  let (selected, tempQueue) := classify blockNumber pool.pendingQueue
  ({ pool with pendingQueue := tempQueue },
    selected.mergeSort fun a b => b.bidAmount ≤ a.bidAmount)

/-- `update_searcher_reputation`. -/
def updateSearcherReputation (env : Env) (pool : PrivateTransactionPool) (searcher : Address)
    (result : BundleResult) : PrivateTransactionPool × Option Unit :=
  match pool.searcherProfiles.lookup searcher with
  | none => (pool, some ())
  | some profile =>
    if !result.reverted then
      match env.add64 profile.successfulBundles 1 with
      | none => (pool, none)
      | some successfulBundles =>
        let reputationScore := min 100 (profile.reputationScore + 2)
        (pool.setProfile searcher { profile with successfulBundles, reputationScore }, some ())
    else
      let reputationScore := profile.reputationScore - 5
      (pool.setProfile searcher { profile with reputationScore }, some ())

/-- `report_bundle_result`. -/
def reportBundleResult (env : Env) (pool : PrivateTransactionPool) (result : BundleResult) :
    PrivateTransactionPool × Option Unit :=
  match pool.privateBundles.lookup result.bundleId with
  | none => (pool, some ())
  | some bundle => pool.updateSearcherReputation env bundle.searcher result

/-- `add_to_whitelist`. -/
def addToWhitelist (pool : PrivateTransactionPool) (searcher : Address) : PrivateTransactionPool :=
  let profile := (pool.searcherProfiles.lookup searcher).getD
    { reputationScore := 100
      totalBundlesSubmitted := 0
      successfulBundles := 0
      totalBidValue := 0
      isWhitelisted := true }
  { pool.setProfile searcher { profile with isWhitelisted := true } with
    whitelist := insert searcher pool.whitelist }

/-- `remove_from_whitelist`. -/
def removeFromWhitelist (pool : PrivateTransactionPool) (searcher : Address) :
    PrivateTransactionPool :=
  let removed := { pool with whitelist := pool.whitelist.erase searcher }
  match pool.searcherProfiles.lookup searcher with
  | none => removed
  | some profile => removed.setProfile searcher { profile with isWhitelisted := false }

theorem pendingQueue_updateSearcherStats (env : Env) (pool : PrivateTransactionPool)
    (searcher : Address) (bundle : PrivateBundle) :
    (pool.updateSearcherStats env searcher bundle).1.pendingQueue = pool.pendingQueue := by
  unfold updateSearcherStats
  dsimp only
  split
  next => rfl
  next =>
    split
    next => rfl
    next => rfl

theorem pendingQueue_reportBundleResult (env : Env) (pool : PrivateTransactionPool)
    (result : BundleResult) :
    (pool.reportBundleResult env result).1.pendingQueue = pool.pendingQueue := by
  unfold reportBundleResult updateSearcherReputation
  split
  next => rfl
  next =>
    split
    next => rfl
    next =>
      split
      next =>
        split
        next => rfl
        next => rfl
      next => rfl

theorem pendingQueue_removeFromWhitelist (pool : PrivateTransactionPool) (searcher : Address) :
    (pool.removeFromWhitelist searcher).pendingQueue = pool.pendingQueue := by
  unfold removeFromWhitelist
  dsimp only
  split
  next => rfl
  next => rfl

end PrivateTransactionPool

end InterBit.Mev
