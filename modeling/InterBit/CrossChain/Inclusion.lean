import InterBit.CrossChain.LightClient
import InterBit.Lib.HashTree

/-!
# What a path proves

`verify_transaction` accepts a transaction if its hash climbs to the `transactions_root` of a
trusted header. A hash that is no transaction climbs there, too, if it is a node inside the tree of
the transactions: the root itself does so with an empty path. `included_iff`: what is accepted is a
transaction exactly if the path does not begin at an interior node, or below a transaction.
-/

namespace InterBit.CrossChain

open InterBit.Lib

/-- What is hashed for two nodes. -/
def pairBytes (current sibling : H256) : List UInt8 :=
  if current.toList < sibling.toList then current.toList ++ sibling.toList
  else sibling.toList ++ current.toList

theorem hashPair_eq (env : KeccakEnv) (current sibling : H256) :
    hashPair env current sibling = env.keccak256 (pairBytes current sibling) := by
  unfold hashPair pairBytes
  split
  next => rfl
  next => rfl

theorem pairBytes_symm (a b : H256) : pairBytes a b = pairBytes b a := by
  unfold pairBytes
  by_cases hlt : a.toList < b.toList
  · rw [if_pos hlt, if_neg (List.lt_asymm hlt)]
  · rw [if_neg hlt]
    by_cases hgt : b.toList < a.toList
    · rw [if_pos hgt]
    · rw [if_neg hgt, List.le_antisymm (List.not_lt.mp hgt) (List.not_lt.mp hlt)]

theorem hashPair_symm (env : KeccakEnv) (a b : H256) : hashPair env a b = hashPair env b a := by
  rw [hashPair_eq, hashPair_eq, pairBytes_symm]

/-- The order of the two nodes is all that is lost. -/
theorem pairBytes_inj {a b c d : H256} (h : pairBytes a b = pairBytes c d) :
    (c = a ∧ d = b) ∨ (c = b ∧ d = a) := by
  unfold pairBytes at h
  split at h
  next =>
    split at h
    next =>
      obtain ⟨hac, hbd⟩ := toList_append_inj h
      exact .inl ⟨hac.symm, hbd.symm⟩
    next =>
      obtain ⟨had, hbc⟩ := toList_append_inj h
      exact .inr ⟨hbc.symm, had.symm⟩
  next =>
    split at h
    next =>
      obtain ⟨hbc, had⟩ := toList_append_inj h
      exact .inr ⟨hbc.symm, had.symm⟩
    next =>
      obtain ⟨hbd, hac⟩ := toList_append_inj h
      exact .inl ⟨hac.symm, hbd.symm⟩

/-- The tree over the hashes of transactions, of which there is at least one. -/
def transactionTree (odd : HashTree.OddNode) (first : H256) (rest : List H256) : HashTree H256 :=
  HashTree.ofDigests odd first rest

/-- What is hashed on the way does not collide with what is hashed for the tree. -/
def CollisionFree (env : KeccakEnv) (tree : HashTree H256) (proof : MerkleProof) : Prop :=
  ∀ pair ∈ tree.pairs (hashPair env),
    ∀ pair' ∈ HashTree.climbPairs (hashPair env) proof.txHash proof.merklePath,
      env.keccak256 (pairBytes pair.1 pair.2) = env.keccak256 (pairBytes pair'.1 pair'.2) →
      pairBytes pair.1 pair.2 = pairBytes pair'.1 pair'.2

/-- The proof has the root of the tree, and its path begins at an interior node, or below a leaf
with a hash that is no leaf. -/
def BeginsElsewhere (env : KeccakEnv) (tree : HashTree H256) (proof : MerkleProof) : Prop :=
  proof.merkleRoot = tree.root (hashPair env) ∧
    ∃ part below above, proof.merklePath = below ++ above ∧
      HashTree.At (hashPair env) tree above part ∧
      HashTree.climb (hashPair env) proof.txHash below = part.root (hashPair env) ∧
      ((below = [] ∧ part.Interior) ∨
        (below ≠ [] ∧ ¬ part.Interior ∧ proof.txHash ∉ tree.leaves))

namespace LightClient

theorem verifyTransaction_eq_true {env : KeccakEnv} {client : LightClient} {proof : MerkleProof}
    {header : BlockHeader} (hheader : client.getHeader proof.blockHeight = some header) :
    client.verifyTransaction env proof = .ok true ↔
      computeMerkleRoot env proof.txHash proof.merklePath = proof.merkleRoot ∧
        header.transactionsRoot = proof.merkleRoot := by
  unfold verifyTransaction
  rw [hheader]
  dsimp only
  split
  next hno => exact iff_of_false (fun h => nomatch h) fun h => hno h.1
  next hcomputed =>
    split
    next hno => exact iff_of_false (fun h => nomatch h) fun h => hno h.2
    next hroot => exact iff_of_true rfl ⟨not_not.mp hcomputed, not_not.mp hroot⟩

/-- A proof is accepted exactly if it comes from the tree. -/
theorem verifyTransaction_iff {env : KeccakEnv} {client : LightClient} {proof : MerkleProof}
    {header : BlockHeader} {tree : HashTree H256}
    (hheader : client.getHeader proof.blockHeight = some header)
    (hroot : header.transactionsRoot = tree.root (hashPair env))
    (hcollision : CollisionFree env tree proof) :
    client.verifyTransaction env proof = .ok true ↔
      proof.merkleRoot = tree.root (hashPair env) ∧
        HashTree.ComesFrom (hashPair env) tree proof.txHash proof.merklePath := by
  rw [verifyTransaction_eq_true hheader, hroot]
  have hpairs : ∀ pair ∈ tree.pairs (hashPair env),
      ∀ pair' ∈ HashTree.climbPairs (hashPair env) proof.txHash proof.merklePath,
        hashPair env pair.1 pair.2 = hashPair env pair'.1 pair'.2 →
        pair' = pair ∨ pair' = pair.swap := by
    intro pair hpair pair' hpair' hsame
    rw [hashPair_eq, hashPair_eq] at hsame
    rcases pairBytes_inj (hcollision pair hpair pair' hpair' hsame) with h | h
    · exact .inl (Prod.ext h.1 h.2)
    · exact .inr (Prod.ext h.1 h.2)
  rw [← HashTree.climb_eq_root_iff (hashPair_symm env) hpairs]
  constructor
  · rintro ⟨hcomputed, hsame⟩
    exact ⟨hsame.symm, hcomputed.trans hsame.symm⟩
  · rintro ⟨hsame, hclimb⟩
    exact ⟨hclimb.trans hsame.symm, hsame.symm⟩

/-- What is accepted is a transaction exactly if the path does not begin elsewhere. -/
theorem included_iff (env : KeccakEnv) (client : LightClient) (proof : MerkleProof)
    (header : BlockHeader) (odd : HashTree.OddNode) (first : H256) (rest : List H256)
    (hheader : client.getHeader proof.blockHeight = some header)
    (hroot : header.transactionsRoot = (transactionTree odd first rest).root (hashPair env))
    (hcollision : CollisionFree env (transactionTree odd first rest) proof)
    (hleaves : ∀ pair ∈ (transactionTree odd first rest).pairs (hashPair env),
      hashPair env pair.1 pair.2 ∉ first :: rest) :
    (client.verifyTransaction env proof = .ok true → proof.txHash ∈ first :: rest) ↔
      ¬ BeginsElsewhere env (transactionTree odd first rest) proof := by
  rw [verifyTransaction_iff hheader hroot hcollision]
  constructor
  · rintro hsound ⟨hmerkle, part, below, above, hpath, hat, hclimb, hkind⟩
    have hmem := hsound ⟨hmerkle, part, below, above, hpath, hat, hclimb, ?_⟩
    · rcases hkind with ⟨rfl, hinterior⟩ | ⟨_, _, hno⟩
      · obtain ⟨pair, hpair, hhash⟩ := hat.interior_root hinterior
        have htx : proof.txHash = part.root (hashPair env) := hclimb
        exact hleaves pair hpair (hhash.trans htx.symm ▸ hmem)
      · exact hno (HashTree.mem_leaves_ofDigests.mpr hmem)
    · rcases hkind with ⟨hempty, _⟩ | ⟨_, hbottom, _⟩
      · exact .inl hempty
      · exact .inr hbottom
  · rintro helse ⟨hmerkle, part, below, above, hpath, hat, hclimb, hkind⟩
    by_contra habsent
    have hno : proof.txHash ∉ (transactionTree odd first rest).leaves :=
      fun hmem => habsent (HashTree.mem_leaves_ofDigests.mp hmem)
    refine helse ⟨hmerkle, part, below, above, hpath, hat, hclimb, ?_⟩
    by_cases hempty : below = []
    · refine .inl ⟨hempty, ?_⟩
      subst hempty
      cases part with
      | leaf digest =>
        have htx : proof.txHash = digest := hclimb
        exact absurd (hat.leaves_subset (htx ▸ List.mem_singleton_self _)) hno
      | node left right => trivial
    · exact .inr ⟨hempty, hkind.resolve_left hempty, hno⟩

/-! ## Three transactions -/

/-- A digest in which both halves can be seen. -/
def mixingEnv : KeccakEnv where
  sha256 bytes := Vector.ofFn fun i => bytes.getD i 0
  overflowChecks := true
  keccak256 bytes := Vector.ofFn fun i => bytes.getD i 0 + 16 * bytes.getD (i + 32) 0

/-- A hash in which all bytes are the same. -/
def uniformHash (byte : UInt8) : H256 := Vector.replicate 32 byte

/-- A client with the header of a block of three transactions, of which the last is promoted. -/
def inclusionClient : LightClient :=
  (new ⟨1, .evm, .proofOfWork, 12⟩ ∅).append
    { sampleHeader 1 (uniformHash 0) [] with transactionsRoot := uniformHash 19 }

theorem transactionTree_sample :
    transactionTree .promoted (uniformHash 1) [uniformHash 2, uniformHash 3]
      = .node (.node (.leaf (uniformHash 1)) (.leaf (uniformHash 2))) (.leaf (uniformHash 3)) := by
  unfold transactionTree HashTree.ofDigests
  rw [List.map_cons, List.map_cons, List.map_nil, HashTree.build, HashTree.level, HashTree.build,
    HashTree.level, HashTree.build]

theorem included_first :
    (inclusionClient.verifyTransaction mixingEnv
        ⟨1, uniformHash 1, [uniformHash 2, uniformHash 3], uniformHash 19⟩ = .ok true →
      uniformHash 1 ∈ [uniformHash 1, uniformHash 2, uniformHash 3]) ↔
      ¬ BeginsElsewhere mixingEnv
        (transactionTree .promoted (uniformHash 1) [uniformHash 2, uniformHash 3])
        ⟨1, uniformHash 1, [uniformHash 2, uniformHash 3], uniformHash 19⟩ := by
  refine included_iff mixingEnv inclusionClient _ _ .promoted _ _ rfl ?_ ?_ ?_
  · rw [transactionTree_sample]
    decide +kernel
  · unfold CollisionFree
    rw [transactionTree_sample]
    decide +kernel
  · rw [transactionTree_sample]
    decide +kernel

/-- The root is accepted as a transaction, with an empty path. -/
theorem root_included :
    inclusionClient.verifyTransaction mixingEnv ⟨1, uniformHash 19, [], uniformHash 19⟩ = .ok true ∧
      uniformHash 19 ∉ [uniformHash 1, uniformHash 2, uniformHash 3] ∧
      (inclusionClient.getHeader 1).map BlockHeader.transactionsRoot
        = some ((transactionTree .promoted (uniformHash 1) [uniformHash 2, uniformHash 3]).root
          (hashPair mixingEnv)) ∧
      CollisionFree mixingEnv
        (transactionTree .promoted (uniformHash 1) [uniformHash 2, uniformHash 3])
        ⟨1, uniformHash 19, [], uniformHash 19⟩ ∧
      ∀ pair ∈ (transactionTree .promoted (uniformHash 1) [uniformHash 2, uniformHash 3]).pairs
        (hashPair mixingEnv), hashPair mixingEnv pair.1 pair.2
          ∉ [uniformHash 1, uniformHash 2, uniformHash 3] := by
  rw [transactionTree_sample]
  refine ⟨by decide +kernel, by decide +kernel, by decide +kernel, ?_, by decide +kernel⟩
  exact fun _ _ pair' hpair' => absurd hpair' List.not_mem_nil

end LightClient

end InterBit.CrossChain
