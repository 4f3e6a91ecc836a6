import InterBit.Privacy.PrivacyEngine

/-!
# Whether a private transaction verifies

The three parts of a new transaction fit together: its proof is not empty, its ring has a signature
for each member, and the path of its commitment climbs to the root of the tree, whatever the tree is
(`generateProof_inserted`). But the engine compares what the path climbs to with the hash of the
commitment. `verify_private_transaction_iff`: in a state that any run of calls leads to, the next
transaction verifies exactly if its commitment is the first one, or is the root of its own tree.
-/

namespace InterBit.Privacy

open InterBit.Lib

variable {env : KeccakEnv}

theorem ZkProver.verifyProof_generateProof (proofSystem : ProofSystem) (amount : U256) :
    verifyProof (generateProof proofSystem amount) = true := by
  cases proofSystem with
  | groth16 => rfl
  | plonk => rfl
  | bulletproofs => rfl
  | starks => rfl

theorem RingSigner.verify_sign (signer : Address) (message : H256) (size : U64) :
    verify (sign env signer message size) = true :=
  decide_eq_true (List.length_map ..)

namespace MerkleTree

theorem computeRoot_eq (tree : MerkleTree) :
    tree.computeRoot env = LevelTree.root (hashPair env) tree.leaves := by
  rw [computeRoot]
  split
  next hone => rw [LevelTree.root, if_neg (by omega)]
  next => rfl

/-- The proof of a leaf climbs to the root. -/
theorem generateProof_of_mem (env : KeccakEnv) {tree : MerkleTree} {leaf : H256}
    (h : leaf ∈ tree.leaves) :
    ∃ proof, tree.generateProof env leaf = some proof ∧
      tree.computeRoot env = some (computeRootFromProof env proof) := by
  -- the first position of the leaf
  obtain ⟨index, hindex⟩ : ∃ index, tree.leaves.findIdx? (· = leaf) = some index :=
    Option.isSome_iff_exists.mp (by
      rw [List.findIdx?_isSome, List.any_eq_true]
      exact ⟨leaf, h, decide_eq_true rfl⟩)
  have hleaf : tree.leaves[index]? = some leaf := by
    obtain ⟨hlt, hsame, _⟩ := List.findIdx?_eq_some_iff_getElem.mp hindex
    rw [List.getElem?_eq_getElem hlt, of_decide_eq_true hsame]
  obtain ⟨steps, hsteps, hroot⟩ := LevelTree.climb_path (hashPair env) hleaf
  refine ⟨⟨leaf, steps.unzip.1, steps.unzip.2⟩, ?_, ?_⟩
  · rw [generateProof, hindex, Option.getD_some, computeProofPath, hsteps]
    rfl
  · rw [computeRootFromProof, List.zip_unzip, ← hroot, computeRoot_eq]

theorem generateProof_inserted (env : KeccakEnv) (tree : MerkleTree) (commitment : Commitment) :
    ∃ proof, (tree.insert env commitment).generateProof env (commitment.hash env) = some proof ∧
      (tree.insert env commitment).computeRoot env = some (computeRootFromProof env proof) :=
  generateProof_of_mem env (List.mem_append_right _ (List.mem_singleton_self _))

/-- What is compared with the root verifies. -/
theorem verifyProof_root {tree : MerkleTree} {leaf root : H256} (h : leaf ∈ tree.leaves)
    (hroot : tree.root env = some root) :
    ∃ proof, tree.generateProof env leaf = some proof ∧
      tree.verifyProof env proof root = true := by
  obtain ⟨proof, hproof, hcomputed⟩ := generateProof_of_mem env h
  have hsome : tree.leaves ≠ [] := List.ne_nil_of_mem h
  rw [MerkleTree.root, if_neg hsome, hcomputed] at hroot
  exact ⟨proof, hproof, decide_eq_true (Option.some.inj hroot)⟩

/-- The tree that a sequence of insertions builds. -/
def insertAll (env : KeccakEnv) (commitments : List Commitment) : MerkleTree :=
  commitments.foldl (insert env) new

theorem leaves_foldl_insert (env : KeccakEnv) (commitments : List Commitment) (tree : MerkleTree) :
    (commitments.foldl (insert env) tree).leaves
      = tree.leaves ++ commitments.map (Commitment.hash env) := by
  induction commitments generalizing tree with
  | nil => exact (List.append_nil _).symm
  | cons commitment commitments ih =>
    rw [List.foldl_cons, ih, List.map_cons, insert, List.append_assoc]
    rfl

theorem leaves_insertAll (env : KeccakEnv) (commitments : List Commitment) :
    (insertAll env commitments).leaves = commitments.map (Commitment.hash env) :=
  leaves_foldl_insert env commitments new

/-- Every inserted commitment has a proof, and the proof climbs to the root. -/
theorem generateProof_complete (env : KeccakEnv) (commitments : List Commitment)
    (commitment : Commitment) (h : commitment ∈ commitments) :
    ∃ proof, (insertAll env commitments).generateProof env (commitment.hash env) = some proof ∧
      (insertAll env commitments).root env = some (computeRootFromProof env proof) := by
  have hleaf : commitment.hash env ∈ (insertAll env commitments).leaves := by
    rw [leaves_insertAll]
    exact List.mem_map_of_mem h
  obtain ⟨proof, hproof, hroot⟩ := generateProof_of_mem env hleaf
  refine ⟨proof, hproof, ?_⟩
  rw [root, if_neg (List.ne_nil_of_mem hleaf), hroot]

/-- Three commitments, two of them equal. -/
def sampleCommitments : List Commitment := [⟨[1], .pedersen⟩, ⟨[2], .pedersen⟩, ⟨[1], .pedersen⟩]

theorem generateProof_complete_three :
    ∃ proof, (insertAll (sampleKeccakEnv true) sampleCommitments).generateProof
        (sampleKeccakEnv true) (Commitment.hash (sampleKeccakEnv true) ⟨[1], .pedersen⟩)
          = some proof ∧
      (insertAll (sampleKeccakEnv true) sampleCommitments).root (sampleKeccakEnv true)
        = some (computeRootFromProof (sampleKeccakEnv true) proof) :=
  generateProof_complete (sampleKeccakEnv true) sampleCommitments ⟨[1], .pedersen⟩
    (List.mem_cons_self ..)

end MerkleTree

/-- A call that adds a commitment to the tree. -/
inductive PrivacyCall where
  | create (payment : Payment) (draw : Draw)
  | shield (user : Address) (amount : U256) (poolId : H256) (draw : Draw)

namespace PrivacyCall

/-- What is drawn for the call. -/
def draw : PrivacyCall → Draw
  | create _ draw => draw
  | shield _ _ _ draw => draw

/-- The commitment that the call adds. -/
def commitment (env : KeccakEnv) (config : PrivacyConfig) : PrivacyCall → Commitment
  | create payment draw =>
    createCommitment env config.commitmentScheme payment.amount draw.blindingFactor
  | shield _ amount _ draw =>
    createCommitment env config.commitmentScheme amount draw.blindingFactor

/-- The leaf that the call adds. -/
def leaf (env : KeccakEnv) (config : PrivacyConfig) (call : PrivacyCall) : H256 :=
  (call.commitment env config).hash env

end PrivacyCall

namespace PrivacyEngine

variable (env) in
/-- The engine after a call; `none` is a panic. -/
def perform (engine : PrivacyEngine) : PrivacyCall → Option PrivacyEngine
  | .create payment draw => (engine.createPrivateTransaction env payment draw).map Prod.snd
  | .shield user amount poolId draw => some (engine.shieldTokens env user amount poolId draw).2

variable (env) in
/-- The engine with the leaf that a call adds. -/
def adding (engine : PrivacyEngine) (call : PrivacyCall) : PrivacyEngine :=
  ⟨engine.config, ⟨engine.commitmentTree.leaves ++ [call.leaf env engine.config]⟩⟩

/-- If the other two parts verify, what the path climbs to decides. -/
theorem verifyPrivateTransaction_eq (engine : PrivacyEngine) {tx : PrivateTransaction}
    (hproof : ZkProver.verifyProof tx.proof = true)
    (hring : RingSigner.verify tx.ringSignature = true) :
    engine.verifyPrivateTransaction env tx = true ↔
      MerkleTree.computeRootFromProof env tx.merkleProof = tx.commitment.hash env := by
  unfold verifyPrivateTransaction
  rw [hproof, hring, MerkleTree.verifyProof]
  simp

/-- What `create_private_transaction` returns verifies exactly if the root is its leaf. -/
theorem createPrivateTransaction_spec (env : KeccakEnv) (engine : PrivacyEngine)
    (payment : Payment) (draw : Draw) :
    ∃ tx after, engine.createPrivateTransaction env payment draw = some (tx, after) ∧
      after = engine.adding env (.create payment draw) ∧
      (after.verifyPrivateTransaction env tx = true ↔
        after.commitmentTree.computeRoot env
          = some ((PrivacyCall.create payment draw).leaf env engine.config)) := by
  obtain ⟨proof, hproof, hroot⟩ := MerkleTree.generateProof_inserted env
    engine.commitmentTree ((PrivacyCall.create payment draw).commitment env engine.config)
  have hroot' : (engine.adding env (.create payment draw)).commitmentTree.computeRoot env
      = some (MerkleTree.computeRootFromProof env proof) := hroot
  simp only [PrivacyCall.commitment] at hproof
  simp only [createPrivateTransaction, hproof]
  refine ⟨_, _, rfl, rfl, (verifyPrivateTransaction_eq _
    (ZkProver.verifyProof_generateProof ..) (RingSigner.verify_sign ..)).trans ?_⟩
  exact Option.some_inj.symm.trans (hroot' ▸ Iff.rfl)

/-- A call adds its leaf. -/
theorem perform_eq (engine : PrivacyEngine) (call : PrivacyCall) :
    engine.perform env call = some (engine.adding env call) := by
  cases call with
  | create payment draw =>
    obtain ⟨tx, after, hcreate, rfl, _⟩ :=
      createPrivateTransaction_spec env engine payment draw
    rw [perform, hcreate]
    rfl
  | shield user amount poolId draw => rfl

variable (env) in
/-- A run of calls. -/
def run (engine : PrivacyEngine) (calls : List PrivacyCall) : Option PrivacyEngine :=
  calls.foldlM (perform env) engine

/-- The leaves are those of the calls, in their order. -/
theorem run_eq (engine : PrivacyEngine) (calls : List PrivacyCall) :
    engine.run env calls = some ⟨engine.config,
      ⟨engine.commitmentTree.leaves ++ calls.map (PrivacyCall.leaf env engine.config)⟩⟩ := by
  induction calls generalizing engine with
  | nil =>
    rw [List.map_nil, List.append_nil]
    rfl
  | cons call calls ih =>
    rw [run, List.foldlM_cons, perform_eq]
    refine (ih _).trans ?_
    simp only [adding, List.append_assoc, List.map_cons, List.singleton_append]

/-- After every run a shielded pool can be created, and every commitment that was made before has a
proof for the root that the pool keeps. -/
theorem createShieldedPool_of_run (env : KeccakEnv) (config : PrivacyConfig)
    (calls : List PrivacyCall) (initialDeposit : U256) (poolId : H256) :
    ∃ engine pool, (new config).run env calls = some engine ∧
      engine.createShieldedPool env initialDeposit poolId = some pool ∧
      ∀ call ∈ calls, ∃ proof,
        engine.commitmentTree.generateProof env (call.leaf env config) = some proof ∧
          engine.commitmentTree.verifyProof env proof pool.commitmentRoot = true := by
  let tree : MerkleTree := ⟨calls.map (PrivacyCall.leaf env config)⟩
  have hleaf : ∀ call ∈ calls, call.leaf env config ∈ tree.leaves := fun _ hcall =>
    List.mem_map_of_mem hcall
  have hroot : ∃ root, tree.root env = some root := by
    cases calls with
    | nil => exact ⟨_, rfl⟩
    | cons call calls =>
      have hmem := hleaf call List.mem_cons_self
      obtain ⟨proof, -, hroot⟩ := MerkleTree.generateProof_of_mem env hmem
      exact ⟨_, (if_neg (List.ne_nil_of_mem hmem)).trans hroot⟩
  obtain ⟨root, hroot⟩ := hroot
  refine ⟨⟨config, tree⟩, ⟨poolId, initialDeposit, root, [], 0⟩, run_eq _ calls, ?_, ?_⟩
  · rw [createShieldedPool, hroot]
    rfl
  · exact fun call hcall => MerkleTree.verifyProof_root (hleaf call hcall) hroot

/-- The leaf is the root of the tree that it becomes the last leaf of. -/
def IsRoot (env : KeccakEnv) (leaves : List H256) (leaf : H256) : Prop :=
  LevelTree.root (hashPair env) (leaves ++ [leaf]) = some leaf

/-- The next transaction verifies exactly if it is the first one, or its leaf is the root. -/
theorem verify_private_transaction_iff (env : KeccakEnv) (config : PrivacyConfig)
    (calls : List PrivacyCall) (payment : Payment) (draw : Draw) :
    (∃ engine tx after, (new config).run env calls = some engine ∧
        engine.createPrivateTransaction env payment draw = some (tx, after) ∧
        after.verifyPrivateTransaction env tx = true) ↔
      calls = [] ∨ IsRoot env (calls.map (PrivacyCall.leaf env config))
        ((PrivacyCall.create payment draw).leaf env config) := by
  obtain ⟨tx, after, hcreate, rfl, hverify⟩ := createPrivateTransaction_spec env
    ⟨config, ⟨calls.map (PrivacyCall.leaf env config)⟩⟩ payment draw
  have hrun : (new config).run env calls
      = some ⟨config, ⟨calls.map (PrivacyCall.leaf env config)⟩⟩ := run_eq _ calls
  rw [MerkleTree.computeRoot_eq] at hverify
  rw [hrun]
  constructor
  · rintro ⟨_, _, _, ⟨rfl⟩, hcreated, haccepted⟩
    obtain ⟨rfl, rfl⟩ := Prod.mk.inj (Option.some.inj (hcreate.symm.trans hcreated))
    exact .inr (hverify.mp haccepted)
  · intro h
    refine ⟨_, tx, _, rfl, hcreate, hverify.mpr ?_⟩
    rcases h with rfl | hroot
    · exact LevelTree.root_singleton ..
    · exact hroot

/-- One pays 1, then another pays 2. -/
def samplePayment (amount : U256) : Payment where
  sender := .replicate 20 7
  recipient := .replicate 20 9
  amount
  memo := none

def sampleDraw (secret : UInt8) : Draw where
  ephemeralKey := .replicate 32 secret
  blindingFactor := .replicate 32 secret
  id := .replicate 32 secret
  now := .ofNat 0

def sampleConfig : PrivacyConfig := ⟨11, .groth16, .pedersen, true⟩

/-- The second private transaction does not verify. -/
theorem secondTransaction_rejected : ¬ ∀ (env : KeccakEnv) (config : PrivacyConfig)
    (calls : List PrivacyCall) (payment : Payment) (draw : Draw),
    1 ≤ config.anonymitySetSize.toNat →
    (∀ earlier ∈ calls, earlier.draw.blindingFactor ≠ draw.blindingFactor) →
    ∃ engine tx after, (new config).run env calls = some engine ∧
      engine.createPrivateTransaction env payment draw = some (tx, after) ∧
      after.verifyPrivateTransaction env tx = true := by
  intro hgeneral
  obtain ⟨engine, tx, after, hrun, hcreate, hverify⟩ := hgeneral (sampleKeccakEnv true) sampleConfig
    [.create (samplePayment 1) (sampleDraw 3)] (samplePayment 2) (sampleDraw 4) (by decide)
    (by decide)
  obtain ⟨tx', after', hcreate', rfl, hiff⟩ := createPrivateTransaction_spec
    (sampleKeccakEnv true) engine (samplePayment 2) (sampleDraw 4)
  obtain ⟨rfl, rfl⟩ := Prod.mk.inj (Option.some.inj (hcreate'.symm.trans hcreate))
  have hroot := hiff.mp hverify
  rw [MerkleTree.computeRoot_eq, ← Option.some.inj ((run_eq _ _).symm.trans hrun)] at hroot
  have hpair := (LevelTree.root_pair _ _ _).symm.trans hroot
  exact absurd (Option.some.inj hpair) (by decide)

end PrivacyEngine

end InterBit.Privacy
