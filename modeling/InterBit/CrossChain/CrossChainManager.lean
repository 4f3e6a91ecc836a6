import InterBit.CrossChain.LightClient
import InterBit.CrossChain.RelayLiveness
import InterBit.CrossChain.Solvency

/-!
# The manager of transfers

`CrossChainManager` of `cross_chain/mod.rs`, over the bridge, the relayer and the light clients. A
transfer is locked, submitted to the relayer and kept in a list. `complete_transfer` mints it only
if it is `Verified`, and nothing makes it so: `Stranded` holds in every run (`stranded_of_run`).
-/

namespace InterBit.CrossChain

open InterBit.Lib

/-- `enum TransferStatus`. -/
inductive TransferStatus where
  | pending
  | locked
  | proving
  | verified
  | minting
  | completed
  | failed (reason : String)
  deriving DecidableEq

/-- `struct PendingTransfer`. -/
structure PendingTransfer where
  id : H256
  sourceChain : U64
  destinationChain : U64
  sender : List UInt8
  recipient : List UInt8
  token : H256
  amount : U256
  status : TransferStatus
  proof : Option MerkleProof

/-- `struct MintedAsset`. -/
structure MintedAsset where
  chainId : U64
  token : H256
  recipient : List UInt8
  amount : U256
  mintTime : U64
  sourceTx : H256

/-- `struct CrossChainManager`; what is minted and the mappings of tokens are fields of the
bridge. -/
structure CrossChainManager where
  config : BridgeConfig
  lightClients : AList fun _ : U64 => LightClient
  bridge : Bridge
  mintedAssets : AList fun _ : H256 => MintedAsset
  tokenMappings : AList fun _ : U64 × H256 => H256
  relayer : Relayer
  pendingTransfers : List PendingTransfer

namespace CrossChainManager

variable (env : LightEnv)

/-- `CrossChainManager::new`. -/
def new (config : BridgeConfig) (relayerConfig : RelayerConfig) : CrossChainManager where
  config
  lightClients := ∅
  bridge := .new config
  mintedAssets := ∅
  tokenMappings := ∅
  relayer := .new relayerConfig
  pendingTransfers := []

/-- `initialize_chain`. -/
def initializeChain (manager : CrossChainManager) (chainInfo : ChainInfo) :
    CrossChainManager × Except CrossChainError Unit :=
  match (LightClient.new chainInfo ∅).initializeClient with
  | .error error => (manager, .error error)
  | .ok client =>
    ({ manager with lightClients := manager.lightClients.insert chainInfo.chainId client }, .ok ())

/-- What `initiate_transfer` is given. -/
structure TransferRequest where
  sourceChain : U64
  destinationChain : U64
  sender : List UInt8
  recipient : List UInt8
  token : H256
  amount : U256

/-- The transfer of a request. -/
def TransferRequest.transfer (request : TransferRequest) (id : H256) : PendingTransfer where
  id
  sourceChain := request.sourceChain
  destinationChain := request.destinationChain
  sender := request.sender
  recipient := request.recipient
  token := request.token
  amount := request.amount
  status := .locked
  proof := none

/-- `initiate_transfer`, with the readings of the clock. -/
def initiateTransfer (manager : CrossChainManager) (request : TransferRequest)
    (idTime lockTime submitTime : Seconds) : CrossChainManager × Outcome H256 :=
  if request.amount < manager.config.minTransferAmount then
    (manager, some (.error .amountTooLow))
  else if manager.config.maxTransferAmount < request.amount then
    (manager, some (.error .amountTooHigh))
  else
    match manager.bridge.lockTokens env.toKeccakEnv request.sourceChain request.sender request.token
        request.amount idTime lockTime with
    | (bridge, none) => ({ manager with bridge }, none)
    | (bridge, some (.error error)) => ({ manager with bridge }, some (.error error))
    | (bridge, some (.ok transferId)) =>
      -- the list is written before the relayer is called
      let pendingTransfers := manager.pendingTransfers ++ [request.transfer transferId]
      match manager.relayer.submitTransfer env.toEnv transferId submitTime with
      | (relayer, none) => ({ manager with bridge, pendingTransfers, relayer }, none)
      | (relayer, some (.error error)) =>
        ({ manager with bridge, pendingTransfers, relayer }, some (.error error))
      | (relayer, some (.ok ())) =>
        ({ manager with bridge, pendingTransfers, relayer }, some (.ok transferId))

/-- The first transfer with the id. -/
def transfer (manager : CrossChainManager) (transferId : H256) : Option PendingTransfer :=
  manager.pendingTransfers.find? fun transfer => transfer.id = transferId

/-- `verify_transfer`. -/
def verifyTransfer (manager : CrossChainManager) (transferId : H256) :
    Except CrossChainError Bool :=
  match manager.transfer transferId with
  | none => .error .transferNotFound
  | some transfer =>
    match manager.lightClients.lookup transfer.sourceChain with
    | none => .error .chainNotSupported
    | some sourceClient =>
      match transfer.proof with
      | some proof => sourceClient.verifyTransaction env.toKeccakEnv proof
      | none => .ok false

/-- `get_wrapped_token`; a token without a mapping gets an address of its own. -/
def getWrappedToken (manager : CrossChainManager) (chainId : U64) (originalToken : H256) : H256 :=
  (manager.tokenMappings.lookup (chainId, originalToken)).getD
    (env.keccak256 ("WRAPPED_TOKEN".toUTF8.toList ++ toLeBytes 8 chainId ++ originalToken.toList))

/-- `mint_tokens`, with the id that is drawn. -/
def mintTokens (manager : CrossChainManager) (chainId : U64) (recipient : List UInt8)
    (token : H256) (amount : U256) (mintId : H256) (now : Seconds) : CrossChainManager :=
  { manager with
    mintedAssets := manager.mintedAssets.insert mintId
      { chainId
        token := manager.getWrappedToken env chainId token
        recipient
        amount
        mintTime := now.val
        sourceTx := mintId } }

/-- The first transfer with the id gets another status. -/
def setStatus (manager : CrossChainManager) (transferId : H256) (status : TransferStatus) :
    CrossChainManager :=
  { manager with
    pendingTransfers := manager.pendingTransfers.modify
      (manager.pendingTransfers.findIdx fun transfer => transfer.id = transferId)
      fun transfer => { transfer with status } }

/-- `complete_transfer`, with the id of the mint that is drawn and the reading of the clock. -/
def completeTransfer (manager : CrossChainManager) (transferId mintId : H256) (now : Seconds) :
    CrossChainManager × Except CrossChainError Unit :=
  match manager.transfer transferId with
  | none => (manager, .error .transferNotFound)
  | some transfer =>
    if transfer.status ≠ .verified then (manager, .error .transferNotVerified)
    else
      let manager := manager.setStatus transferId .minting
      let manager := manager.mintTokens env transfer.destinationChain transfer.recipient
        transfer.token transfer.amount mintId now
      (manager.setStatus transferId .completed, .ok ())

/-- `get_transfer_status`. -/
def getTransferStatus (manager : CrossChainManager) (transferId : H256) : Option TransferStatus :=
  (manager.transfer transferId).map PendingTransfer.status

/-- `update_light_client`. -/
def updateLightClient (manager : CrossChainManager) (chainId : U64) (blockHeader : List UInt8) :
    CrossChainManager × Outcome Unit :=
  match manager.lightClients.lookup chainId with
  | none => (manager, some (.error .chainNotSupported))
  | some client =>
    let (client, outcome) := client.updateHeader env blockHeader
    ({ manager with lightClients := manager.lightClients.insert chainId client }, outcome)

/-! ## What holds in every run -/

/-- What happens to a manager; the relayer goes on by itself. -/
inductive ManagerCall where
  | initializeChain (chainInfo : ChainInfo)
  | initiateTransfer (request : TransferRequest) (idTime lockTime submitTime : Seconds)
  | completeTransfer (transferId mintId : H256) (now : Seconds)
  | updateLightClient (chainId : U64) (blockHeader : List UInt8)
  | relay (call : RelayCall)

/-- One call. -/
def next (manager : CrossChainManager) : ManagerCall → CrossChainManager
  | .initializeChain chainInfo => (manager.initializeChain chainInfo).1
  | .initiateTransfer request idTime lockTime submitTime =>
    (manager.initiateTransfer env request idTime lockTime submitTime).1
  | .completeTransfer transferId mintId now =>
    (manager.completeTransfer env transferId mintId now).1
  | .updateLightClient chainId blockHeader => (manager.updateLightClient env chainId blockHeader).1
  | .relay call => { manager with relayer := manager.relayer.next env.toEnv call }

/-- What the transfers of a token come to. -/
def amountOf (token : H256) (transfers : List PendingTransfer) : Nat :=
  ((transfers.filter fun transfer => transfer.token = token).map (·.amount.toNat)).sum

/-- What has been transferred is locked, and stays so. -/
structure Stranded (manager : CrossChainManager) : Prop where
  settings : manager.bridge.config = manager.config
  locked : ∀ transfer ∈ manager.pendingTransfers,
    transfer.status = .locked ∧ transfer.proof = none
  recorded : ∀ transfer ∈ manager.pendingTransfers, ∃ asset,
    manager.bridge.lockedAssets.lookup transfer.id = some asset ∧ asset.unlockTime = none
  total : ∀ token, (manager.bridge.pool token).totalLiquidity.toNat
    = amountOf token manager.pendingTransfers
  available : ∀ token, (manager.bridge.pool token).availableLiquidity
    = (manager.bridge.pool token).totalLiquidity
  minted : manager.mintedAssets = ∅

variable {env} {manager : CrossChainManager}

theorem amountOf_concat (token : H256) (transfers : List PendingTransfer)
    (transfer : PendingTransfer) : amountOf token (transfers ++ [transfer])
      = amountOf token transfers + if transfer.token = token then transfer.amount.toNat else 0 := by
  rw [amountOf, List.filter_append, List.map_append, List.sum_append, amountOf]
  by_cases htoken : transfer.token = token
  · rw [if_pos htoken, List.filter_singleton, decide_eq_true htoken]
    rfl
  · rw [if_neg htoken, List.filter_singleton, decide_eq_false htoken]
    rfl

/-- A lock that is written over another one is as open as that. -/
theorem recorded_insert {assets : AList fun _ : H256 => LockedAsset} {id lockId : H256}
    {asset : LockedAsset} (hopen : asset.unlockTime = none)
    (h : ∃ old, assets.lookup id = some old ∧ old.unlockTime = none) :
    ∃ old, (assets.insert lockId asset).lookup id = some old ∧ old.unlockTime = none := by
  by_cases heq : id = lockId
  · exact ⟨asset, by rw [heq, AList.lookup_insert], hopen⟩
  · rw [AList.lookup_insert_ne heq]
    exact h

/-- What a lock does: it writes a record that is open, and the amount goes into the pool unless the
total overflows. -/
theorem Stranded.lockTokens (h : manager.Stranded) {amount : U256}
    (hrange : manager.bridge.InRange amount) (chainId : U64) (owner : List UInt8) (token : H256)
    (idTime lockTime : Seconds) :
    ∃ lockId asset pool, asset.unlockTime = none ∧
      ((manager.bridge.lockTokens env.toKeccakEnv chainId owner token amount idTime lockTime
          = ((manager.bridge.setAsset lockId asset).setPool token pool, none) ∧
        pool = manager.bridge.pool token) ∨
      (manager.bridge.lockTokens env.toKeccakEnv chainId owner token amount idTime lockTime
          = ((manager.bridge.setAsset lockId asset).setPool token pool, some (.ok lockId)) ∧
        pool.totalLiquidity.toNat
          = (manager.bridge.pool token).totalLiquidity.toNat + amount.toNat ∧
        pool.availableLiquidity = pool.totalLiquidity)) := by
  have hle : (manager.bridge.pool token).availableLiquidity.toNat
      ≤ (manager.bridge.pool token).totalLiquidity.toNat :=
    Nat.le_of_eq (congrArg BitVec.toNat (h.available token))
  have hlock :=
    Bridge.lockTokens_of_inRange env.toKeccakEnv hrange hle chainId owner idTime lockTime
  by_cases hlt : (manager.bridge.pool token).totalLiquidity.toNat + amount.toNat < 2 ^ 256
  · refine ⟨_, _, _, ?_, .inr ⟨hlock.trans (if_pos hlt), ?_, ?_⟩⟩
    · rfl
    · show ((manager.bridge.pool token).totalLiquidity + amount).toNat = _
      rw [BitVec.toNat_add, Nat.mod_eq_of_lt hlt]
    · show (manager.bridge.pool token).availableLiquidity + amount
        = (manager.bridge.pool token).totalLiquidity + amount
      rw [h.available token]
  · exact ⟨_, _, _, rfl, .inl ⟨hlock.trans (if_neg hlt), rfl⟩⟩

/-- A lock that panics leaves a record, and no more. -/
theorem Stranded.overflowed (h : manager.Stranded) {lockId token : H256} {asset : LockedAsset}
    (hopen : asset.unlockTime = none) :
    Stranded { manager with
      bridge :=
        (manager.bridge.setAsset lockId asset).setPool token (manager.bridge.pool token) } := by
  have hpool : ∀ token', ((manager.bridge.setAsset lockId asset).setPool token
      (manager.bridge.pool token)).pool token' = manager.bridge.pool token' := by
    intro token'
    rw [Bridge.pool_setPool]
    split
    next hsame => rw [hsame]
    next => rfl
  refine ⟨h.settings, h.locked, ?_, ?_, ?_, h.minted⟩
  · exact fun transfer hmem => recorded_insert hopen (h.recorded transfer hmem)
  · intro token'
    rw [hpool]
    exact h.total token'
  · intro token'
    rw [hpool]
    exact h.available token'

/-- A transfer that has been locked is one more of those that are stranded. -/
theorem Stranded.concat (h : manager.Stranded) {transfer : PendingTransfer} {asset : LockedAsset}
    {pool : LiquidityPool} (hlocked : transfer.status = .locked ∧ transfer.proof = none)
    (hopen : asset.unlockTime = none)
    (htotal : pool.totalLiquidity.toNat
      = (manager.bridge.pool transfer.token).totalLiquidity.toNat + transfer.amount.toNat)
    (havailable : pool.availableLiquidity = pool.totalLiquidity) :
    Stranded { manager with
      bridge := (manager.bridge.setAsset transfer.id asset).setPool transfer.token pool
      pendingTransfers := manager.pendingTransfers ++ [transfer] } := by
  refine ⟨h.settings, ?_, ?_, ?_, ?_, h.minted⟩
  · exact List.forall_mem_append.mpr ⟨h.locked, List.forall_mem_singleton.mpr hlocked⟩
  · refine List.forall_mem_append.mpr ⟨?_, List.forall_mem_singleton.mpr ?_⟩
    · exact fun other hmem => recorded_insert hopen (h.recorded other hmem)
    · exact ⟨asset, AList.lookup_insert _, hopen⟩
  · intro token
    show (((manager.bridge.setAsset transfer.id asset).setPool transfer.token pool).pool
      token).totalLiquidity.toNat = amountOf token (manager.pendingTransfers ++ [transfer])
    rw [Bridge.pool_setPool, amountOf_concat]
    by_cases hsame : token = transfer.token
    · rw [if_pos hsame, if_pos hsame.symm, htotal, h.total, hsame]
    · rw [if_neg hsame, if_neg (Ne.symm hsame), Nat.add_zero]
      exact h.total token
  · intro token
    show (((manager.bridge.setAsset transfer.id asset).setPool transfer.token pool).pool
      token).availableLiquidity = (((manager.bridge.setAsset transfer.id asset).setPool
        transfer.token pool).pool token).totalLiquidity
    rw [Bridge.pool_setPool]
    split
    next => exact havailable
    next => exact h.available token

/-- The bridge, the transfers and what is minted decide whether transfers are stranded. -/
theorem Stranded.of_eq {other : CrossChainManager} (h : manager.Stranded)
    (hconfig : other.config = manager.config) (hbridge : other.bridge = manager.bridge)
    (htransfers : other.pendingTransfers = manager.pendingTransfers)
    (hminted : other.mintedAssets = manager.mintedAssets) : other.Stranded := by
  refine ⟨?_, ?_, ?_, ?_, ?_, ?_⟩
  · rw [hbridge, hconfig]
    exact h.settings
  · rw [htransfers]
    exact h.locked
  · rw [htransfers, hbridge]
    exact h.recorded
  · rw [htransfers, hbridge]
    exact h.total
  · rw [hbridge]
    exact h.available
  · rw [hminted]
    exact h.minted

theorem Stranded.initiateTransfer (h : manager.Stranded) (request : TransferRequest)
    (idTime lockTime submitTime : Seconds) :
    (manager.initiateTransfer env request idTime lockTime submitTime).1.Stranded := by
  unfold CrossChainManager.initiateTransfer
  split
  next => exact h
  next hlow =>
    split
    next => exact h
    next hhigh =>
      have hrange : manager.bridge.InRange request.amount := by
        unfold Bridge.InRange
        rw [h.settings]
        exact ⟨BitVec.not_lt.mp hlow, BitVec.not_lt.mp hhigh⟩
      obtain ⟨lockId, asset, pool, hopen, hcases⟩ := @Stranded.lockTokens env manager h
        request.amount hrange request.sourceChain request.sender request.token idTime lockTime
      rcases hcases with ⟨heq, rfl⟩ | ⟨heq, htotal, havailable⟩
      · rw [heq]
        exact h.overflowed hopen
      · rw [heq]
        have hconcat := @Stranded.concat manager h (request.transfer lockId) asset pool ⟨rfl, rfl⟩
          hopen htotal havailable
        dsimp only
        rcases manager.relayer.submitTransfer env.toEnv lockId submitTime with
          ⟨relayer, _ | _ | _⟩
        · exact hconcat.of_eq rfl rfl rfl rfl
        · exact hconcat.of_eq rfl rfl rfl rfl
        · exact hconcat.of_eq rfl rfl rfl rfl

/-- A status that is asked for is that of a transfer. -/
theorem Stranded.status_eq (h : manager.Stranded) {transferId : H256} {status : TransferStatus}
    (hstatus : manager.getTransferStatus transferId = some status) : status = .locked := by
  obtain ⟨transfer, hfind, rfl⟩ := Option.map_eq_some_iff.mp hstatus
  exact (h.locked transfer (List.mem_of_find?_eq_some hfind)).1

/-- No transfer can be completed. -/
theorem Stranded.completeTransfer (h : manager.Stranded) (transferId mintId : H256)
    (now : Seconds) : manager.completeTransfer env transferId mintId now = (manager, .error
      (if (manager.transfer transferId).isSome then .transferNotVerified
        else .transferNotFound)) := by
  unfold CrossChainManager.completeTransfer
  cases hfind : manager.transfer transferId with
  | none => rfl
  | some transfer =>
    have hlocked := (h.locked transfer (List.mem_of_find?_eq_some hfind)).1
    dsimp only
    rw [if_pos (by rw [hlocked]; decide)]
    rfl

theorem Stranded.next (h : manager.Stranded) (call : ManagerCall) :
    (manager.next env call).Stranded := by
  cases call with
  | initializeChain chainInfo =>
    rw [CrossChainManager.next, initializeChain]
    cases (LightClient.new chainInfo ∅).initializeClient with
    | error error => exact h
    | ok client => exact h.of_eq rfl rfl rfl rfl
  | initiateTransfer request idTime lockTime submitTime =>
    exact h.initiateTransfer request idTime lockTime submitTime
  | completeTransfer transferId mintId now =>
    rw [CrossChainManager.next, h.completeTransfer]
    exact h
  | updateLightClient chainId blockHeader =>
    rw [CrossChainManager.next]
    unfold CrossChainManager.updateLightClient
    cases manager.lightClients.lookup chainId with
    | none => exact h
    | some client => exact h.of_eq rfl rfl rfl rfl
  | relay call => exact h.of_eq rfl rfl rfl rfl

theorem stranded_new (config : BridgeConfig) (relayerConfig : RelayerConfig) :
    (new config relayerConfig).Stranded where
  settings := rfl
  locked := List.forall_mem_nil _
  recorded := List.forall_mem_nil _
  total := fun _ => rfl
  available := fun _ => rfl
  minted := rfl

/-- In every run of the manager, with its relayer at work: each transfer stays locked, and has no
other status, `pool` has what the transfers of a token come to, no call verifies or completes a
transfer, and nothing is minted. -/
theorem stranded_of_run (env : LightEnv) (config : BridgeConfig) (relayerConfig : RelayerConfig)
    (calls : List ManagerCall) :
    let manager := calls.foldl (next env) (new config relayerConfig)
    (∀ transfer ∈ manager.pendingTransfers, transfer.status = .locked ∧
      ∃ asset, manager.bridge.lockedAssets.lookup transfer.id = some asset ∧
        asset.unlockTime = none) ∧
    (∀ token, (manager.bridge.pool token).totalLiquidity.toNat
      = amountOf token manager.pendingTransfers) ∧
    (∀ transferId status, manager.getTransferStatus transferId = some status → status = .locked) ∧
    (∀ transferId, manager.verifyTransfer env transferId ≠ .ok true) ∧
    (∀ transferId mintId now, manager.completeTransfer env transferId mintId now
      = (manager, .error (if (manager.transfer transferId).isSome then .transferNotVerified
        else .transferNotFound))) ∧
    manager.mintedAssets = ∅ := by
  intro manager
  have hkeep : ∀ (m : CrossChainManager) (call : ManagerCall), True → m.Stranded →
      (m.next env call).Stranded := fun _ call _ h => h.next call
  have h : manager.Stranded :=
    foldl_keeps hkeep (fun _ _ => trivial) (stranded_new config relayerConfig)
  refine ⟨fun t ht => ⟨(h.locked t ht).1, h.recorded t ht⟩, h.total, fun _ _ => h.status_eq, ?_,
    h.completeTransfer, h.minted⟩
  intro transferId
  unfold verifyTransfer
  cases hfind : manager.transfer transferId with
  | none => exact fun hwrong => (by cases hwrong)
  | some transfer =>
    dsimp only
    cases manager.lightClients.lookup transfer.sourceChain with
    | none => exact fun hwrong => (by cases hwrong)
    | some client =>
      dsimp only
      rw [(h.locked transfer (List.mem_of_find?_eq_some hfind)).2]
      exact fun hwrong => (by cases hwrong)

end CrossChainManager

end InterBit.CrossChain
