import InterBit.Core.Keccak
import InterBit.Lib.LevelTree

/-!
# The privacy engine

`create_private_transaction` commits to an amount, signs the commitment within a ring, and adds its
hash to the tree of all commitments, together with those of `shield_tokens`. What is drawn at random
for a call and its reading of the clock are arguments. The proofs of knowledge are placeholders in
the code: they are of fixed bytes, and it is only checked that there are some.
-/

namespace InterBit.Privacy

open InterBit.Lib

inductive ProofSystem where
  | groth16
  | plonk
  | bulletproofs
  | starks
  deriving DecidableEq

inductive CommitmentScheme where
  | pedersen
  | hashBased
  | polynomial
  deriving DecidableEq

structure PrivacyConfig where
  anonymitySetSize : U64
  proofSystem : ProofSystem
  commitmentScheme : CommitmentScheme
  enableStealthAddresses : Bool

structure StealthAddress where
  ephemeralPubkey : List UInt8
  stealthPubkey : List UInt8
  viewTag : Vector UInt8 4

structure Commitment where
  value : List UInt8
  commitmentType : CommitmentScheme

structure ZkProof where
  piA : List UInt8
  piB : List UInt8
  piC : List UInt8
  publicInputs : List (List UInt8)

structure RingSignature where
  keyImage : List UInt8
  signatures : List (List UInt8)
  ringMembers : List (List UInt8)

structure MerkleProof where
  leaf : H256
  path : List H256
  indices : List Bool

structure PrivateTransaction where
  id : H256
  stealthAddress : StealthAddress
  commitment : Commitment
  proof : ZkProof
  ringSignature : RingSignature
  merkleProof : MerkleProof
  encryptedMemo : List UInt8
  timestamp : U64

structure ShieldNote where
  commitment : Commitment
  nullifier : H256
  owner : Address
  amount : U256
  secret : Vector UInt8 32
  poolId : H256

structure ShieldedPool where
  id : H256
  totalShielded : U256
  commitmentRoot : H256
  nullifierSet : List H256
  epoch : U64

/-- `Commitment::hash`. -/
def Commitment.hash (env : KeccakEnv) (commitment : Commitment) : H256 :=
  env.keccak256 commitment.value

/-- `hash_pair`. -/
def hashPair (env : KeccakEnv) (left right : H256) : H256 :=
  env.keccak256 (left.toList ++ right.toList)

/-! ## The tree of the commitments -/

structure MerkleTree where
  leaves : List H256

namespace MerkleTree

/-- `MerkleTree::new`. -/
def new : MerkleTree := ⟨[]⟩

/-- `insert`. -/
def insert (env : KeccakEnv) (tree : MerkleTree) (commitment : Commitment) : MerkleTree :=
  ⟨tree.leaves ++ [commitment.hash env]⟩

/-- `compute_root`; `none` is a panic. -/
def computeRoot (env : KeccakEnv) (tree : MerkleTree) : Option H256 :=
  if tree.leaves.length = 1 then tree.leaves[0]?
  else LevelTree.root (hashPair env) tree.leaves

/-- `root`; `none` is a panic. -/
def root (env : KeccakEnv) (tree : MerkleTree) : Option H256 :=
  if tree.leaves = [] then some (.replicate 32 0) else tree.computeRoot env

/-- `compute_proof_path`; `none` is a panic. -/
def computeProofPath (env : KeccakEnv) (tree : MerkleTree) (index : Nat) :
    Option (List H256 × List Bool) :=
  (LevelTree.path (hashPair env) tree.leaves index).map List.unzip

/-- `generate_proof`; `none` is a panic. -/
def generateProof (env : KeccakEnv) (tree : MerkleTree) (leaf : H256) : Option MerkleProof := do
  let index := (tree.leaves.findIdx? (· = leaf)).getD 0
  let (path, indices) ← tree.computeProofPath env index
  some ⟨leaf, path, indices⟩

/-- `compute_root_from_proof`. -/
def computeRootFromProof (env : KeccakEnv) (proof : MerkleProof) : H256 :=
  LevelTree.climb (hashPair env) proof.leaf (proof.path.zip proof.indices)

/-- `verify_proof`; the tree is not read. -/
def verifyProof (env : KeccakEnv) (_tree : MerkleTree) (proof : MerkleProof)
    (expectedRoot : H256) : Bool :=
  computeRootFromProof env proof = expectedRoot

end MerkleTree

/-! ## Commitments, proofs, signatures -/

/-- `compute_pedersen`. -/
def computePedersen (env : KeccakEnv) (amount : U256) (blinding : Vector UInt8 32) : List UInt8 :=
  -- b"PEDERSEN"
  (env.keccak256 ([80, 69, 68, 69, 82, 83, 69, 78] ++ toLeBytes 32 amount
    ++ blinding.toList)).toList

/-- `compute_polynomial`. -/
def computePolynomial (env : KeccakEnv) (amount : U256) (blinding : Vector UInt8 32) :
    List UInt8 :=
  -- b"POLYNOMIAL"
  (env.keccak256 ([80, 79, 76, 89, 78, 79, 77, 73, 65, 76] ++ toLeBytes 32 amount
    ++ blinding.toList)).toList

/-- `create_commitment`; the blinding factor is the secret that it returns, too. -/
def createCommitment (env : KeccakEnv) (scheme : CommitmentScheme) (amount : U256)
    (blindingFactor : Vector UInt8 32) : Commitment :=
  match scheme with
  | .pedersen => ⟨computePedersen env amount blindingFactor, .pedersen⟩
  | .hashBased =>
    ⟨(env.keccak256 (toLeBytes 32 amount ++ blindingFactor.toList)).toList, .hashBased⟩
  | .polynomial => ⟨computePolynomial env amount blindingFactor, .polynomial⟩

namespace ZkProver

/-- A proof that does not depend on what it proves. -/
def placeholder (a b c input : UInt8) : ZkProof :=
  ⟨.replicate 32 a, .replicate 64 b, .replicate 32 c, [.replicate 32 input]⟩

/-- `generate_bulletproof`. -/
def generateBulletproof (amount : U256) : ZkProof :=
  ⟨toLeBytes 32 amount, .replicate 64 0, .replicate 32 0, []⟩

/-- `generate_proof`; only a bulletproof reads one of its arguments, the amount. -/
def generateProof (proofSystem : ProofSystem) (amount : U256) : ZkProof :=
  match proofSystem with
  | .groth16 => placeholder 1 2 3 4
  | .plonk => placeholder 5 6 7 8
  | .bulletproofs => generateBulletproof amount
  | .starks => placeholder 9 10 11 12

/-- `verify_proof`; the commitment is not read. -/
def verifyProof (proof : ZkProof) : Bool :=
  !proof.piA.isEmpty && !proof.piB.isEmpty && !proof.piC.isEmpty

end ZkProver

namespace RingSigner

/-- `generate_ring_members`. -/
def generateRingMembers (signer : Address) (size : U64) : List (List UInt8) :=
  signer.toList :: (List.range' 1 (size.toNat - 1)).map fun i => .replicate 20 (UInt8.ofNat i)

/-- `generate_key_image`. -/
def generateKeyImage (env : KeccakEnv) (signer : Address) (message : H256) : List UInt8 :=
  (env.keccak256 (signer.toList ++ message.toList)).toList

/-- `generate_ring_signatures`. -/
def generateRingSignatures (env : KeccakEnv) (members : List (List UInt8)) (keyImage : List UInt8)
    (message : H256) : List (List UInt8) :=
  members.map fun _ => (env.keccak256 (keyImage ++ message.toList)).toList

/-- `sign`. -/
def sign (env : KeccakEnv) (signer : Address) (message : H256) (anonymitySetSize : U64) :
    RingSignature :=
  let ringMembers := generateRingMembers signer anonymitySetSize
  let keyImage := generateKeyImage env signer message
  ⟨keyImage, generateRingSignatures env ringMembers keyImage message, ringMembers⟩

/-- `verify`; the message is not read. -/
def verify (signature : RingSignature) : Bool :=
  signature.signatures.length = signature.ringMembers.length

end RingSigner

/-- `generate_stealth_address`. -/
def generateStealthAddress (env : KeccakEnv) (recipient : Address)
    (ephemeralKey : Vector UInt8 32) : StealthAddress :=
  let sharedSecret := env.keccak256 (ephemeralKey.toList ++ recipient.toList)
  { ephemeralPubkey := ephemeralKey.toList
    stealthPubkey := (env.keccak256 (recipient.toList ++ sharedSecret.toList)).toList.take 20
    viewTag := Vector.ofFn fun i => sharedSecret.toList.getD i 0 }

/-- `encrypt_memo`. -/
def encryptMemo (env : KeccakEnv) (memo : Option (List UInt8)) (recipient : Address) :
    List UInt8 :=
  match memo with
  | some data =>
    let key := env.keccak256 recipient.toList
    data.zipIdx.map fun (byte, i) => byte ^^^ key.toList.getD (i % 32) 0
  | none => []

/-- `generate_nullifier`. -/
def generateNullifier (env : KeccakEnv) (user : Address) (commitment : H256) : H256 :=
  env.keccak256 (user.toList ++ commitment.toList)

/-! ## The engine -/

/-- What is drawn at random for a call, and its reading of the clock. -/
structure Draw where
  ephemeralKey : Vector UInt8 32
  blindingFactor : Vector UInt8 32
  id : H256
  now : Seconds

/-- Who pays how much to whom. -/
structure Payment where
  sender : Address
  recipient : Address
  amount : U256
  memo : Option (List UInt8)

structure PrivacyEngine where
  config : PrivacyConfig
  commitmentTree : MerkleTree

namespace PrivacyEngine

variable (env : KeccakEnv)

/-- `PrivacyEngine::new`. -/
def new (config : PrivacyConfig) : PrivacyEngine := ⟨config, .new⟩

/-- `create_private_transaction`; `none` is a panic. -/
def createPrivateTransaction (engine : PrivacyEngine) (payment : Payment) (draw : Draw) :
    Option (PrivateTransaction × PrivacyEngine) := do
  let stealthAddress : StealthAddress :=
    if engine.config.enableStealthAddresses then
      generateStealthAddress env payment.recipient draw.ephemeralKey
    else ⟨.replicate 32 0, payment.recipient.toList, .replicate 4 0⟩
  let commitment :=
    createCommitment env engine.config.commitmentScheme payment.amount draw.blindingFactor
  let proof := ZkProver.generateProof engine.config.proofSystem payment.amount
  let ringSignature :=
    RingSigner.sign env payment.sender (commitment.hash env) engine.config.anonymitySetSize
  let tree := engine.commitmentTree.insert env commitment
  let merkleProof ← tree.generateProof env (commitment.hash env)
  some (
    { id := draw.id
      stealthAddress
      commitment
      proof
      ringSignature
      merkleProof
      encryptedMemo := encryptMemo env payment.memo payment.recipient
      timestamp := draw.now.val },
    { engine with commitmentTree := tree })

/-- `verify_private_transaction`. -/
def verifyPrivateTransaction (engine : PrivacyEngine) (tx : PrivateTransaction) : Bool :=
  if !ZkProver.verifyProof tx.proof then false
  else if !RingSigner.verify tx.ringSignature then false
  -- the expected root is the hash of the commitment, not the root of the tree
  else if !engine.commitmentTree.verifyProof env tx.merkleProof (tx.commitment.hash env) then false
  else true

/-- `create_shielded_pool`; `none` is a panic. -/
def createShieldedPool (engine : PrivacyEngine) (initialDeposit : U256) (poolId : H256) :
    Option ShieldedPool := do
  let commitmentRoot ← engine.commitmentTree.root env
  some ⟨poolId, initialDeposit, commitmentRoot, [], 0⟩

/-- `shield_tokens`. -/
def shieldTokens (engine : PrivacyEngine) (user : Address) (amount : U256) (poolId : H256)
    (draw : Draw) : ShieldNote × PrivacyEngine :=
  let commitment :=
    createCommitment env engine.config.commitmentScheme amount draw.blindingFactor
  let note : ShieldNote :=
    { commitment
      nullifier := generateNullifier env user (commitment.hash env)
      owner := user
      amount
      secret := draw.blindingFactor
      poolId }
  (note, { engine with commitmentTree := engine.commitmentTree.insert env note.commitment })

end PrivacyEngine

end InterBit.Privacy
