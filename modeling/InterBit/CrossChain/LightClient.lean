import InterBit.CrossChain.Types

/-!
# The light client

`cross_chain/light_client.rs`. A light client keeps the last hundred headers of another chain. It
checks a new header in one critical section and appends it in another, and it checks that a
transaction is in a block with a path of hashes up to the `transactions_root` of the header.
Ed25519 and the encoding of headers are parameters.
-/

namespace InterBit.CrossChain

/-- `struct Signature`. -/
structure Signature where
  validator : Address
  signature : List UInt8
  deriving DecidableEq

/-- `struct BlockHeader`. -/
structure BlockHeader where
  chainId : U64
  height : U64
  timestamp : U64
  previousHash : H256
  stateRoot : H256
  transactionsRoot : H256
  receiptsRoot : H256
  validatorSetHash : H256
  signatures : List Signature
  deriving DecidableEq

/-- `struct Validator`. -/
structure Validator where
  address : Address
  publicKey : List UInt8
  votingPower : U64
  deriving DecidableEq

/-- `struct ValidatorSet`, without `total_voting_power`, which is never read. -/
structure ValidatorSet where
  validators : List Validator
  threshold : U64

/-- What a light client takes from outside the repository. -/
structure LightEnv extends KeccakEnv where
  /-- `bincode::deserialize`, with the text of the error. -/
  deserialize : List UInt8 → Except String BlockHeader
  /-- Whether the 32 bytes are a key, with which `verify` accepts the 64 bytes. -/
  ed25519 : List UInt8 → H256 → List UInt8 → Bool

/-- `struct SyncState`, as far as `update_header` writes it. -/
structure SyncState where
  latestHeight : U64
  latestTimestamp : U64

/-- `struct LightClient`. The validator sets are in the order in which the map is gone through. -/
structure LightClient where
  chainInfo : ChainInfo
  trustedHeaders : List BlockHeader
  validatorSets : AList fun _ : U64 => ValidatorSet
  syncState : SyncState

/-- `hash_header`. -/
def hashHeader (env : KeccakEnv) (header : BlockHeader) : H256 :=
  env.keccak256 (toLeBytes 8 header.chainId ++ toLeBytes 8 header.height
    ++ toLeBytes 8 header.timestamp ++ header.previousHash.toList ++ header.stateRoot.toList
    ++ header.transactionsRoot.toList ++ header.receiptsRoot.toList
    ++ header.validatorSetHash.toList)

/-- `verify_signature`. -/
def verifySignature (env : LightEnv) (message : H256) (signature publicKey : List UInt8) : Bool :=
  if signature.length ≠ 64 ∨ publicKey.length ≠ 32 then false
  else env.ed25519 publicKey message signature

/-- `a.saturating_sub(b)` on `u64`. -/
def saturatingSub (a b : U64) : U64 := if a < b then 0 else a - b

/-- `hasher` in `compute_merkle_root`: the smaller of the two hashes comes first. -/
def hashPair (env : KeccakEnv) (current sibling : H256) : H256 :=
  if current.toList < sibling.toList then env.keccak256 (current.toList ++ sibling.toList)
  else env.keccak256 (sibling.toList ++ current.toList)

/-- `compute_merkle_root`. -/
def computeMerkleRoot (env : KeccakEnv) (leaf : H256) (path : List H256) : H256 :=
  path.foldl (hashPair env) leaf

namespace ValidatorSet

/-- The loop of `verify_signatures` over the signatures; `none` is a panic. -/
def countVotingPower (env : LightEnv) (validatorSet : ValidatorSet) (headerHash : H256)
    (signatures : List Signature) (total : U64) : Option U64 :=
  signatures.foldlM (fun total sig =>
    match validatorSet.validators.find? fun validator => validator.address = sig.validator with
    | some validator =>
      if verifySignature env headerHash sig.signature validator.publicKey then
        env.add64 total validator.votingPower
      else some total
    | none => some total) total

end ValidatorSet

namespace LightClient

/-- `LightClient::new`, with the validator sets that it goes on with. -/
def new (chainInfo : ChainInfo) (validatorSets : AList fun _ : U64 => ValidatorSet) :
    LightClient where
  chainInfo
  trustedHeaders := []
  validatorSets
  syncState := ⟨0, 0⟩

/-- The set that `initialize_evm_client` starts with. -/
def genesisSet : ValidatorSet where
  validators := [⟨.replicate 20 1, .replicate 32 0, 1000⟩]
  threshold := 667

/-- `initialize`. -/
def initializeClient (client : LightClient) : Except CrossChainError LightClient :=
  match client.chainInfo.chainType with
  | .evm => .ok { client with validatorSets := client.validatorSets.insert 0 genesisSet }
  | .cosmos | .substrate => .ok client
  | .solana | .bitcoin => .error .chainNotSupported

/-- The validator set for a height, or else the last one. -/
def validatorSet (client : LightClient) (height : U64) : Option ValidatorSet :=
  (client.validatorSets.lookup height).or (client.validatorSets.entries.getLast?.map Sigma.snd)

/-- `verify_signatures`. -/
def verifySignatures (env : LightEnv) (client : LightClient) (header : BlockHeader) :
    Outcome Unit :=
  match client.validatorSet header.height with
  | none => some (.error .invalidProof)
  | some validatorSet =>
    match validatorSet.countVotingPower env (hashHeader env.toKeccakEnv header)
        header.signatures 0 with
    | none => none
    | some total =>
      if total < validatorSet.threshold then some (.error .invalidProof) else some (.ok ())

/-- `verify_proof_of_work`. -/
def verifyProofOfWork (_header : BlockHeader) : Outcome Unit := some (.ok ())

/-- The part of `verify_header` that compares the header with the last one. -/
def verifyLink (env : LightEnv) (client : LightClient) (header : BlockHeader) : Outcome Unit :=
  match client.trustedHeaders.getLast? with
  | none => some (.ok ())
  | some last =>
    match env.add64 last.height 1 with
    | none => none
    | some following =>
      if header.height ≠ following then some (.error .invalidProof)
      else if header.previousHash ≠ hashHeader env.toKeccakEnv last then
        some (.error .invalidProof)
      else
        match env.mul64 client.chainInfo.averageBlockTime 2 with
        | none => none
        | some bound =>
          if bound < saturatingSub header.timestamp last.timestamp then
            some (.error .invalidProof)
          else some (.ok ())

/-- `verify_header`. -/
def verifyHeader (env : LightEnv) (client : LightClient) (header : BlockHeader) : Outcome Unit :=
  match client.verifyLink env header with
  | some (.ok ()) =>
    match client.chainInfo.consensusType with
    | .proofOfStake | .bft => client.verifySignatures env header
    | .proofOfWork => verifyProofOfWork header
    | .delegatedProofOfStake | .proofOfAuthority => some (.ok ())
  | outcome => outcome

/-- `parse_header`. -/
def parseHeader (env : LightEnv) (data : List UInt8) : Except CrossChainError BlockHeader :=
  match env.deserialize data with
  | .ok header => .ok header
  | .error message => .error (.lightClientError message)

/-- The first section of `update_header`, under the read lock. -/
def check (env : LightEnv) (client : LightClient) (headerData : List UInt8) :
    Outcome BlockHeader :=
  match parseHeader env headerData with
  | .error error => some (.error error)
  | .ok header =>
    match client.verifyHeader env header with
    | none => none
    | some (.error error) => some (.error error)
    | some (.ok ()) => some (.ok header)

/-- The second section of `update_header`, under the write lock, which is held until the sync state
has been written. -/
def append (client : LightClient) (header : BlockHeader) : LightClient :=
  let headers := client.trustedHeaders ++ [header]
  { client with
    trustedHeaders := if 100 < headers.length then headers.tail else headers
    syncState := ⟨header.height, header.timestamp⟩ }

/-- `update_header`, if nobody comes between the sections. -/
def updateHeader (env : LightEnv) (client : LightClient) (headerData : List UInt8) :
    LightClient × Outcome Unit :=
  match client.check env headerData with
  | none => (client, none)
  | some (.error error) => (client, some (.error error))
  | some (.ok header) => (client.append header, some (.ok ()))

/-- `get_header`. -/
def getHeader (client : LightClient) (height : U64) : Option BlockHeader :=
  client.trustedHeaders.find? fun header => header.height = height

/-- `verify_transaction`. -/
def verifyTransaction (env : KeccakEnv) (client : LightClient) (proof : MerkleProof) :
    Except CrossChainError Bool :=
  match client.getHeader proof.blockHeight with
  | none => .error .invalidProof
  | some header =>
    if computeMerkleRoot env proof.txHash proof.merklePath ≠ proof.merkleRoot then .ok false
    else if header.transactionsRoot ≠ proof.merkleRoot then .ok false
    else .ok true

/-- What passes the first section: a header that can be parsed and verified. -/
theorem check_eq_ok {env : LightEnv} {client : LightClient} {headerData : List UInt8}
    {header : BlockHeader} : client.check env headerData = some (.ok header) ↔
      env.deserialize headerData = .ok header ∧
        client.verifyHeader env header = some (.ok ()) := by
  unfold check parseHeader
  cases hparsed : env.deserialize headerData with
  | error message => exact iff_of_false (fun h => nomatch h) fun h => nomatch h.1
  | ok parsed =>
    dsimp only
    constructor
    · intro h
      split at h
      next => cases h
      next => cases h
      next hverified =>
        obtain rfl := Except.ok.inj (Option.some.inj h)
        exact ⟨rfl, hverified⟩
    · rintro ⟨hsame, hverified⟩
      obtain rfl := Except.ok.inj hsame
      rw [hverified]

/-- A header that passes against a last header follows it, as far as machine integers tell. -/
theorem verifyLink_some {env : LightEnv} {client : LightClient} {header last : BlockHeader}
    (h : client.verifyLink env header = some (.ok ()))
    (hlast : client.trustedHeaders.getLast? = some last) :
    header.height = last.height + 1 ∧
      header.previousHash = hashHeader env.toKeccakEnv last := by
  unfold verifyLink at h
  rw [hlast] at h
  dsimp only at h
  cases hadd : env.add64 last.height 1 with
  | none =>
    rw [hadd] at h
    cases h
  | some following =>
    rw [hadd] at h
    dsimp only at h
    split at h
    next => cases h
    next hheight =>
      split at h
      next => cases h
      next hhash =>
        exact ⟨(not_not.mp hheight).trans (Build.add64_eq_some hadd).1, not_not.mp hhash⟩

theorem verifyLink_of_verifyHeader {env : LightEnv} {client : LightClient} {header : BlockHeader}
    (h : client.verifyHeader env header = some (.ok ())) :
    client.verifyLink env header = some (.ok ()) := by
  unfold verifyHeader at h
  split at h
  next hlink => exact hlink
  next => exact h

end LightClient

/-- The headers are numbered, and a signature is valid if it begins like the key. -/
def sampleLightEnv (headers : List BlockHeader) : LightEnv where
  toKeccakEnv := sampleKeccakEnv true
  deserialize data :=
    match data.head?.bind fun i => headers[i.toNat]? with
    | some header => .ok header
    | none => .error "unexpected end of file"
  ed25519 publicKey _ signature := publicKey.head? = signature.head?

/-- A header without roots. -/
def sampleHeader (height : U64) (previousHash : H256) (signatures : List Signature) :
    BlockHeader where
  chainId := 1
  height
  timestamp := 1000
  previousHash
  stateRoot := Vector.replicate 32 0
  transactionsRoot := Vector.replicate 32 0
  receiptsRoot := Vector.replicate 32 0
  validatorSetHash := Vector.replicate 32 0
  signatures

end InterBit.CrossChain
