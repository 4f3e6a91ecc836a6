import InterBit.CrossChain.LightClient
import Mathlib.Algebra.Order.BigOperators.Group.Finset

/-!
# The quorum behind a header

`verify_signatures` adds up the voting power of one validator for each signature, so a validator
counts as often as its signature is repeated; and in a build without overflow checks the sum wraps
around. `quorum_iff` says when an accepted header has a quorum: exactly if no header comes to the
threshold by repeats alone, or after its sum has wrapped around.
-/

namespace InterBit.CrossChain

namespace ValidatorSet

variable (env : LightEnv) (validatorSet : ValidatorSet) (headerHash : H256)

/-- The validator that a signature counts for, if it is valid. -/
def signer (sig : Signature) : Option Validator :=
  (validatorSet.validators.find? fun validator => validator.address = sig.validator).filter
    fun validator => verifySignature env headerHash sig.signature validator.publicKey

/-- The power of the validators of all valid signatures, one after the other. -/
def countedPower (signatures : List Signature) : Nat :=
  ((signatures.filterMap (validatorSet.signer env headerHash)).map
    fun validator => validator.votingPower.toNat).sum

/-- The validators that have a valid signature. -/
def signers (signatures : List Signature) : Finset Validator :=
  validatorSet.validators.toFinset.filter fun validator => ∃ sig ∈ signatures,
    sig.validator = validator.address ∧
      verifySignature env headerHash sig.signature validator.publicKey = true

/-- Their power. -/
def signedPower (signatures : List Signature) : Nat :=
  ∑ validator ∈ validatorSet.signers env headerHash signatures, validator.votingPower.toNat

theorem countVotingPower_cons (sig : Signature) (signatures : List Signature) (total : U64) :
    validatorSet.countVotingPower env headerHash (sig :: signatures) total =
      match validatorSet.signer env headerHash sig with
      | none => validatorSet.countVotingPower env headerHash signatures total
      | some validator => (env.add64 total validator.votingPower).bind
          (validatorSet.countVotingPower env headerHash signatures) := by
  unfold countVotingPower signer
  rw [List.foldlM_cons]
  cases validatorSet.validators.find? fun validator => validator.address = sig.validator with
  | none => rfl
  | some validator =>
    rw [Option.filter_some]
    dsimp only
    split
    next => rfl
    next => rfl

theorem countedPower_cons (sig : Signature) (signatures : List Signature) :
    validatorSet.countedPower env headerHash (sig :: signatures) =
      ((validatorSet.signer env headerHash sig).elim 0 fun v => v.votingPower.toNat)
        + validatorSet.countedPower env headerHash signatures := by
  unfold countedPower
  rw [List.filterMap_cons]
  cases validatorSet.signer env headerHash sig with
  | none => exact (Nat.zero_add _).symm
  | some validator => rfl

/-- The loop over the signatures computes the sum, with the overflow at any place. -/
theorem countVotingPower_eq (signatures : List Signature) (total : U64) :
    validatorSet.countVotingPower env headerHash signatures total =
      if env.overflowChecks ∧
          2 ^ 64 ≤ total.toNat + validatorSet.countedPower env headerHash signatures then none
      else
        some (total + BitVec.ofNat 64 (validatorSet.countedPower env headerHash signatures)) := by
  induction signatures generalizing total with
  | nil =>
    have hlt := total.isLt
    rw [if_neg fun h => absurd h.2 (Nat.not_le.mpr hlt)]
    exact congrArg some (BitVec.add_zero total).symm
  | cons sig signatures ih =>
    rw [countVotingPower_cons, countedPower_cons]
    cases validatorSet.signer env headerHash sig with
    | none =>
      rw [Option.elim_none, Nat.zero_add]
      exact ih total
    | some validator =>
      dsimp only
      rw [Option.elim_some]
      cases hadd : env.add64 total validator.votingPower with
      | none =>
        unfold Build.add64 at hadd
        split at hadd
        next hover =>
          rw [if_pos ⟨hover.1, by omega⟩]
          rfl
        next => cases hadd
      | some following =>
        obtain ⟨rfl, hchecked⟩ := Build.add64_eq_some hadd
        rw [Option.bind_some, ih, BitVec.ofNat_add, BitVec.ofNat_toNat, BitVec.setWidth_eq,
          BitVec.add_assoc]
        refine if_congr (and_congr_right fun hchecks => ?_) rfl rfl
        rw [BitVec.toNat_add, Nat.mod_eq_of_lt (hchecked hchecks), Nat.add_assoc]

/-- A valid signature is one of a signer. -/
theorem mem_signers_of_signer {signatures : List Signature} {validator : Validator}
    (h : validator ∈ signatures.filterMap (validatorSet.signer env headerHash)) :
    validator ∈ validatorSet.signers env headerHash signatures := by
  obtain ⟨sig, hsig, hsigner⟩ := List.mem_filterMap.mp h
  obtain ⟨hfind, hvalid⟩ := Option.filter_eq_some_iff.mp hsigner
  have haddress := List.find?_some hfind
  rw [decide_eq_true_iff] at haddress
  exact Finset.mem_filter.mpr ⟨List.mem_toFinset.mpr (List.mem_of_find?_eq_some hfind), sig, hsig,
    haddress.symm, hvalid⟩

/-- If no validator is counted twice, what is counted is there. -/
theorem countedPower_le_signedPower {signatures : List Signature}
    (h : (signatures.filterMap (validatorSet.signer env headerHash)).Nodup) :
    validatorSet.countedPower env headerHash signatures
      ≤ validatorSet.signedPower env headerHash signatures := by
  unfold countedPower signedPower
  rw [← List.sum_toFinset _ h]
  refine Finset.sum_le_sum_of_subset fun validator hmem => ?_
  exact validatorSet.mem_signers_of_signer env headerHash (List.mem_toFinset.mp hmem)

end ValidatorSet

namespace LightClient

variable (env : LightEnv)

/-- Whether headers need signatures. -/
def Signed (client : LightClient) : Prop :=
  client.chainInfo.consensusType = .proofOfStake ∨ client.chainInfo.consensusType = .bft

/-- If the header is accepted, and needs signatures, the validators that have signed it have the
power that the validator set demands, and the sum has not overflowed. -/
def QuorumMet (client : LightClient) (headerData : List UInt8) : Prop :=
  ∀ header, env.deserialize headerData = .ok header →
    (client.updateHeader env headerData).2 = some (.ok ()) → client.Signed →
    ∃ validatorSet, client.validatorSet header.height = some validatorSet ∧
      validatorSet.threshold.toNat ≤ validatorSet.signedPower env
        (hashHeader env.toKeccakEnv header) header.signatures ∧
      validatorSet.countedPower env (hashHeader env.toKeccakEnv header) header.signatures < 2 ^ 64

/-- If the validators that have signed a header have too little power, it does not become enough by
the repeats; and the sum does not wrap around, unless it is too little then. -/
def Unlifted (client : LightClient) (headerData : List UInt8) : Prop :=
  ∀ header validatorSet, env.deserialize headerData = .ok header →
    client.verifyLink env header = some (.ok ()) → client.Signed →
    client.validatorSet header.height = some validatorSet →
    let signed := validatorSet.signedPower env (hashHeader env.toKeccakEnv header) header.signatures
    let counted :=
      validatorSet.countedPower env (hashHeader env.toKeccakEnv header) header.signatures
    if counted < 2 ^ 64 then
      signed < validatorSet.threshold.toNat → counted < validatorSet.threshold.toNat
    else env.overflowChecks ∨ counted % 2 ^ 64 < validatorSet.threshold.toNat

/-- No validator has signed twice. -/
def SignedOnce (client : LightClient) (headerData : List UInt8) : Prop :=
  ∀ header validatorSet, env.deserialize headerData = .ok header →
    client.validatorSet header.height = some validatorSet →
    (header.signatures.filterMap
      (validatorSet.signer env (hashHeader env.toKeccakEnv header))).Nodup

variable {env}

/-- What signatures have to come to, as the code counts them. -/
theorem verifySignatures_eq_ok {client : LightClient} {header : BlockHeader} :
    client.verifySignatures env header = some (.ok ()) ↔
      ∃ validatorSet, client.validatorSet header.height = some validatorSet ∧
        (env.overflowChecks = true → validatorSet.countedPower env
          (hashHeader env.toKeccakEnv header) header.signatures < 2 ^ 64) ∧
        validatorSet.threshold.toNat ≤ validatorSet.countedPower env
          (hashHeader env.toKeccakEnv header) header.signatures % 2 ^ 64 := by
  unfold verifySignatures
  cases client.validatorSet header.height with
  | none => exact iff_of_false (fun h => nomatch h) fun ⟨_, h, _⟩ => nomatch h
  | some validatorSet =>
    dsimp only
    rw [ValidatorSet.countVotingPower_eq]
    have hzero : (0 : U64) = 0#64 := rfl
    rw [hzero, BitVec.zero_add, BitVec.toNat_zero, Nat.zero_add]
    -- the sum panics if it overflows and is checked
    by_cases hover : env.overflowChecks = true ∧ 2 ^ 64 ≤ validatorSet.countedPower env
        (hashHeader env.toKeccakEnv header) header.signatures
    · rw [if_pos hover]
      refine iff_of_false (fun h => nomatch h) ?_
      rintro ⟨_, hsame, hchecked, _⟩
      obtain rfl := Option.some.inj hsame
      exact absurd hover.2 (Nat.not_le.mpr (hchecked hover.1))
    · rw [if_neg hover]
      dsimp only
      have hchecked : env.overflowChecks = true → validatorSet.countedPower env
          (hashHeader env.toKeccakEnv header) header.signatures < 2 ^ 64 :=
        fun hchecks => Nat.lt_of_not_le fun hle => hover ⟨hchecks, hle⟩
      split
      next hlow =>
        refine iff_of_false (fun h => nomatch h) ?_
        rintro ⟨_, hsame, _, hle⟩
        obtain rfl := Option.some.inj hsame
        rw [BitVec.lt_def, BitVec.toNat_ofNat] at hlow
        exact absurd hle (Nat.not_le.mpr hlow)
      next henough =>
        refine iff_of_true rfl ⟨validatorSet, rfl, hchecked, ?_⟩
        rw [BitVec.lt_def, BitVec.toNat_ofNat] at henough
        exact Nat.le_of_not_lt henough

/-- When a header is accepted that needs signatures. -/
theorem updateHeader_eq_ok {client : LightClient} {headerData : List UInt8} {header : BlockHeader}
    (hparsed : env.deserialize headerData = .ok header) (hsigned : client.Signed) :
    (client.updateHeader env headerData).2 = some (.ok ()) ↔
      client.verifyLink env header = some (.ok ()) ∧
        client.verifySignatures env header = some (.ok ()) := by
  have hverify : client.verifyHeader env header = some (.ok ()) ↔
      client.verifyLink env header = some (.ok ()) ∧
        client.verifySignatures env header = some (.ok ()) := by
    unfold verifyHeader
    split
    next hlink =>
      rw [and_iff_right hlink]
      rcases hsigned with hconsensus | hconsensus
      · rw [hconsensus]
      · rw [hconsensus]
    next hno => exact iff_of_false hno fun h => hno h.1
  rw [← hverify]
  have hcheck : client.check env headerData = some (.ok header) ↔ _ := check_eq_ok
  rw [and_iff_right hparsed] at hcheck
  rw [← hcheck]
  unfold updateHeader
  constructor
  · intro h
    split at h
    next => cases h
    next => cases h
    next accepted haccepted =>
      have hsame := (check_eq_ok.mp haccepted).1
      rw [haccepted, Except.ok.inj (hparsed.symm.trans hsame)]
  · intro h
    rw [h]

/-- When an accepted header has a quorum. -/
theorem quorum_iff (client : LightClient) (headerData : List UInt8) :
    (client.QuorumMet env headerData ↔ client.Unlifted env headerData) ∧
      (env.overflowChecks = true → client.SignedOnce env headerData →
        client.QuorumMet env headerData) := by
  have hiff : client.QuorumMet env headerData ↔ client.Unlifted env headerData := by
    constructor
    · intro h header validatorSet hparsed hlink hsigned hset
      dsimp only
      -- what the header comes to if it is accepted
      have hquorum : (env.overflowChecks = true → validatorSet.countedPower env
          (hashHeader env.toKeccakEnv header) header.signatures < 2 ^ 64) →
          validatorSet.threshold.toNat ≤ validatorSet.countedPower env
            (hashHeader env.toKeccakEnv header) header.signatures % 2 ^ 64 → _ :=
        fun hchecked henough => h header hparsed ((updateHeader_eq_ok hparsed hsigned).mpr
          ⟨hlink, verifySignatures_eq_ok.mpr ⟨validatorSet, hset, hchecked, henough⟩⟩) hsigned
      split
      next hlt =>
        intro hlow
        by_contra henough
        rw [← Nat.mod_eq_of_lt hlt] at henough
        obtain ⟨_, hsame, hsum, _⟩ := hquorum (fun _ => hlt) (Nat.le_of_not_lt henough)
        obtain rfl := Option.some.inj (hset.symm.trans hsame)
        exact absurd hsum (Nat.not_le.mpr hlow)
      next hge =>
        by_contra hwraps
        rw [not_or, Nat.not_lt] at hwraps
        obtain ⟨_, hsame, _, hlt⟩ := hquorum (fun hchecks => absurd hchecks hwraps.1) hwraps.2
        obtain rfl := Option.some.inj (hset.symm.trans hsame)
        exact hge hlt
    · intro h header hparsed haccepted hsigned
      obtain ⟨hlink, hverified⟩ := (updateHeader_eq_ok hparsed hsigned).mp haccepted
      obtain ⟨validatorSet, hset, hchecked, henough⟩ := verifySignatures_eq_ok.mp hverified
      have hunlifted := h header validatorSet hparsed hlink hsigned hset
      dsimp only at hunlifted
      split at hunlifted
      next hlt =>
        rw [Nat.mod_eq_of_lt hlt] at henough
        exact ⟨validatorSet, hset,
          Nat.le_of_not_lt fun hlow => absurd henough (Nat.not_le.mpr (hunlifted hlow)), hlt⟩
      next hge =>
        rcases hunlifted with hchecks | hlow
        · exact absurd (hchecked hchecks) hge
        · exact absurd henough (Nat.not_le.mpr hlow)
  refine ⟨hiff, fun hchecks honce => hiff.mpr fun header validatorSet hparsed _ _ hset => ?_⟩
  have hle := validatorSet.countedPower_le_signedPower env _
    (honce header validatorSet hparsed hset)
  dsimp only
  split
  next => exact fun hlow => Nat.lt_of_le_of_lt hle hlow
  next => exact .inl hchecks

/-- Two validators of equal power. -/
def sampleValidatorSet : ValidatorSet where
  validators := [⟨Vector.replicate 20 1, List.replicate 32 1, 400⟩,
    ⟨Vector.replicate 20 2, List.replicate 32 2, 400⟩]
  threshold := 534

/-- A header that one of them has signed twice. -/
def repeatedHeader : BlockHeader :=
  sampleHeader 1 (Vector.replicate 32 0)
    (List.replicate 2 ⟨Vector.replicate 20 1, List.replicate 64 1⟩)

/-- One validator is enough if its signature is repeated. -/
theorem accepted_without_quorum :
    ¬ (new ⟨1, .evm, .proofOfStake, 12⟩ (AList.insert 0 sampleValidatorSet ∅)).QuorumMet
      (sampleLightEnv [repeatedHeader]) [0] := by
  intro h
  obtain ⟨validatorSet, hset, hsum, _⟩ := h repeatedHeader rfl (by decide +kernel) (.inl rfl)
  obtain rfl := Option.some.inj hset
  exact absurd hsum (by decide +kernel)

end LightClient

end InterBit.CrossChain
