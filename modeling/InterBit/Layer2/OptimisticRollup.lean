import InterBit.Layer2.DataAvailability

/-!
# The optimistic rollup

`layer2/optimistic_rollup.rs`, without the locks: `create_batch`, `challenge_state_root` and
`finalize_batch` as they are when nothing comes between their sections, and the sections of a
challenge one by one. A panic or an error leaves what has been done before it. The witness data of a
fraud proof is not used, so a challenge recomputes the root that the batch has been created with.
`submit_to_l1`, `rollback_invalid_batch`, slashing, rewards and withdrawals do nothing.
-/

namespace InterBit.Layer2

/-- `struct Batch`. -/
structure Batch where
  id : H256
  transactions : List Transaction
  stateRoot : H256
  prevStateRoot : H256
  timestamp : U64
  blockNumber : U64
  proposer : Address
  status : BatchState
  challengeDeadline : U64
  deriving DecidableEq

/-- `enum ChallengeStatus`. -/
inductive ChallengeStatus where
  | pending
  | verified
  | rejected
  | expired
  deriving DecidableEq

/-- `struct Challenge`. -/
structure Challenge where
  batchId : H256
  challenger : Address
  bond : U256
  fraudProof : FraudProof
  status : ChallengeStatus
  resolutionTime : Option U64

/-- `struct Sequencer`. -/
structure Sequencer where
  address : Address
  nextBatchId : U64
  currentStateRoot : H256

/-- With gzip, and with what `bincode` makes of a batch (nothing if it fails). -/
structure RollupEnv extends KeccakEnv where
  gzip : Gzip
  serializeBatch : Batch → List UInt8

/-- The readings of the clock that `create_batch` makes, for the timestamp, for the deadline and for
the metadata of what is stored. -/
structure BatchClock where
  timestamp : Seconds
  deadline : Seconds
  stored : Seconds

/-- `struct OptimisticRollup`, without the fraud prover. -/
structure OptimisticRollup where
  config : Layer2Config
  pendingTransactions : List Transaction
  batches : AList fun _ : H256 => Batch
  stateRoots : AList fun _ : U64 => H256
  challenges : AList fun _ : H256 => Challenge
  sequencer : Sequencer
  daLayer : DataAvailabilityLayer

/-- `H256::from_low_u64_be`. -/
def fromLowU64BE (n : U64) : H256 :=
  ⟨(List.replicate 24 0 ++ toBeBytes 8 n).toArray, by simp [toBeBytes]⟩

/-- `validate_transaction`. -/
def validateTransaction (tx : Transaction) : Bool := !(tx.gasLimit = 0 || tx.gasPrice = 0)

/-- `hash_transaction`. -/
def hashTransaction (env : KeccakEnv) (tx : Transaction) : H256 :=
  env.keccak256 (tx.sender.toList ++ tx.recipient.toList ++ toLeBytes 32 tx.value
    ++ toLeBytes 8 tx.nonce ++ tx.data)

/-- `compute_state_root`. -/
def computeStateRoot (env : KeccakEnv) (transactions : List Transaction) (prevRoot : H256) : H256 :=
  env.keccak256 (prevRoot.toList ++ transactions.flatMap fun tx =>
    tx.id.toList ++ tx.sender.toList ++ tx.recipient.toList ++ toLeBytes 32 tx.value ++ tx.data)

/-- `recompute_state_root_with_witness`. -/
def recomputeStateRootWithWitness (env : KeccakEnv) (transactions : List Transaction)
    (prevRoot : H256) (_witnessData : List UInt8) : H256 :=
  computeStateRoot env transactions prevRoot

/-- `verify_execution_trace`. -/
def verifyExecutionTrace (env : KeccakEnv) (trace : List ExecutionStep) : H256 :=
  env.keccak256 (trace.flatMap fun step =>
    toLeBytes 8 step.pc ++ [step.opcode] ++ step.stack.flatMap (toLeBytes 32) ++ step.memory)

/-- `verify_fraud_proof`. -/
def verifyFraudProof (env : KeccakEnv) (proof : FraudProof) (batch : Batch) : Bool :=
  if proof.batchId ≠ batch.id then false
  else if proof.invalidStateRoot ≠ batch.stateRoot then false
  else verifyExecutionTrace env proof.executionTrace = proof.correctStateRoot

/-- `submit_to_l1`. -/
def submitToL1 (_batchId _stateRoot : H256) : Except Layer2Error Unit := .ok ()

/-- The sequencer makes a batch; `none` is a panic. -/
def Sequencer.newBatch (env : RollupEnv) (config : Layer2Config) (sequencer : Sequencer)
    (transactions : List Transaction) (clock : BatchClock) : Sequencer × Option Batch :=
  match env.add64 sequencer.nextBatchId 1 with
  | none => (sequencer, none)
  | some nextBatchId =>
    let stateRoot := computeStateRoot env.toKeccakEnv transactions sequencer.currentStateRoot
    -- the sequencer has gone on, also if one of these panics
    ({ sequencer with nextBatchId, currentStateRoot := stateRoot }, do
      let blockNumber ← env.sub64 nextBatchId 1
      let period ← env.mul64 config.challengePeriodBlocks 12
      let challengeDeadline ← env.add64 clock.deadline.val period
      return {
        id := fromLowU64BE sequencer.nextBatchId
        transactions
        stateRoot
        prevStateRoot := sequencer.currentStateRoot
        timestamp := clock.timestamp.val
        blockNumber
        proposer := sequencer.address
        status := .submitted
        challengeDeadline })

namespace OptimisticRollup

/-- `OptimisticRollup::new`. -/
def new (config : Layer2Config) (daLayer : DataAvailabilityLayer) : OptimisticRollup where
  config
  pendingTransactions := []
  batches := ∅
  stateRoots := ∅
  challenges := ∅
  sequencer := ⟨Vector.replicate 20 0, 1, Vector.replicate 32 0⟩
  daLayer

/-! ## Batches -/

/-- How many transactions go into the next batch. -/
def batchSize (rollup : OptimisticRollup) : Nat :=
  min rollup.pendingTransactions.length rollup.config.batchSize

/-- The sequencer and the next batch. -/
def nextBatch (env : RollupEnv) (rollup : OptimisticRollup) (clock : BatchClock) :
    Sequencer × Option Batch :=
  rollup.sequencer.newBatch env rollup.config (rollup.pendingTransactions.take rollup.batchSize)
    clock

/-- The transactions of the next batch are taken out, and the sequencer goes on. -/
def advance (env : RollupEnv) (rollup : OptimisticRollup) (clock : BatchClock) :
    OptimisticRollup :=
  { rollup with
    pendingTransactions := rollup.pendingTransactions.drop rollup.batchSize
    sequencer := (rollup.nextBatch env clock).1 }

/-- A batch is inserted. -/
def insertBatch (rollup : OptimisticRollup) (batch : Batch) : OptimisticRollup :=
  { rollup with
    batches := rollup.batches.insert batch.id batch
    stateRoots := rollup.stateRoots.insert batch.blockNumber batch.stateRoot }

/-- `create_batch`. -/
def createBatch (env : RollupEnv) (rollup : OptimisticRollup) (clock : BatchClock) :
    OptimisticRollup × Outcome H256 :=
  if rollup.pendingTransactions = [] then (rollup, some (.error .invalidTransaction))
  else
    -- from here on the transactions are out of the queue
    match (rollup.nextBatch env clock).2 with
    | none => (rollup.advance env clock, none)
    | some batch =>
      match rollup.daLayer.storeData env.gzip batch.id (env.serializeBatch batch) clock.stored with
      | (daLayer, none) => ({ rollup.advance env clock with daLayer }, none)
      | (daLayer, some (.error error)) =>
        ({ rollup.advance env clock with daLayer }, some (.error error))
      | (daLayer, some (.ok ())) =>
        (insertBatch { rollup.advance env clock with daLayer } batch,
          some ((submitToL1 batch.id batch.stateRoot).map fun _ => batch.id))

/-- A transaction is pushed to the queue. -/
def push (rollup : OptimisticRollup) (tx : Transaction) : OptimisticRollup :=
  { rollup with pendingTransactions := rollup.pendingTransactions ++ [tx] }

/-- `submit_transaction`. -/
def submitTransaction (env : RollupEnv) (rollup : OptimisticRollup) (tx : Transaction)
    (clock : BatchClock) : OptimisticRollup × Outcome H256 :=
  if validateTransaction tx then
    let rollup := rollup.push tx
    if rollup.config.batchSize ≤ rollup.pendingTransactions.length then
      match rollup.createBatch env clock with
      | (rollup, none) => (rollup, none)
      -- the transaction is in the queue all the same
      | (rollup, some (.error error)) => (rollup, some (.error error))
      | (rollup, some (.ok _)) => (rollup, some (.ok (hashTransaction env.toKeccakEnv tx)))
    else (rollup, some (.ok (hashTransaction env.toKeccakEnv tx)))
  else (rollup, some (.error .invalidTransaction))

/-! ## Challenges -/

/-- What `challenge_state_root` checks while it reads the batches. -/
def checkChallenge (env : RollupEnv) (rollup : OptimisticRollup) (batchId : H256)
    (proof : FraudProof) (now : Seconds) : Except Layer2Error Unit :=
  match rollup.batches.lookup batchId with
  | none => .error .batchNotFound
  | some batch =>
    if batch.status ≠ .submitted then .error .invalidProof
    -- at the deadline itself a challenge is still allowed, and so is `finalize_batch`
    else if batch.challengeDeadline < now.val then .error .challengePeriodNotExpired
    else if !verifyFraudProof env.toKeccakEnv proof batch then .error .invalidProof
    else .ok ()

/-- The challenge is inserted, still while the batches are read. -/
def insertChallenge (rollup : OptimisticRollup) (batchId : H256) (challenger : Address)
    (proof : FraudProof) : OptimisticRollup :=
  { rollup with
    challenges := rollup.challenges.insert batchId
      { batchId
        challenger
        bond := rollup.config.minBondAmount
        fraudProof := proof
        status := .pending
        resolutionTime := none } }

/-- A batch that is there gets a status. -/
def setStatus (rollup : OptimisticRollup) (batchId : H256) (status : BatchState) :
    OptimisticRollup :=
  match rollup.batches.lookup batchId with
  | some batch => { rollup with batches := rollup.batches.insert batchId { batch with status } }
  | none => rollup

/-- A challenge that is there is resolved. -/
def setResolution (rollup : OptimisticRollup) (batchId : H256) (status : ChallengeStatus)
    (now : Seconds) : OptimisticRollup :=
  match rollup.challenges.lookup batchId with
  | some challenge =>
    { rollup with
      challenges := rollup.challenges.insert batchId
        { challenge with status, resolutionTime := some now.val } }
  | none => rollup

/-- What `execute_challenge_resolution` reads: the root that the batch should have. -/
def correctStateRoot (env : RollupEnv) (rollup : OptimisticRollup) (batchId : H256) :
    Except Layer2Error H256 :=
  match rollup.challenges.lookup batchId with
  | none => .error .invalidProof
  | some challenge =>
    match rollup.batches.lookup batchId with
    | none => .error .batchNotFound
    | some batch =>
      .ok (recomputeStateRootWithWitness env.toKeccakEnv batch.transactions batch.prevStateRoot
        challenge.fraudProof.witnessData)

/-- `rollback_invalid_batch`. -/
def rollbackInvalidBatch (rollup : OptimisticRollup) (_batchId : H256) : OptimisticRollup := rollup

/-- What `execute_challenge_resolution` writes. -/
def resolve (rollup : OptimisticRollup) (batchId correct : H256) (now : Seconds) :
    OptimisticRollup :=
  match rollup.batches.lookup batchId with
  | none => rollup
  | some batch =>
    if correct ≠ batch.stateRoot then
      ((rollup.setStatus batchId .invalid).setResolution batchId .verified now).rollbackInvalidBatch
        batchId
    else (rollup.setStatus batchId .submitted).setResolution batchId .rejected now

/-- `execute_challenge_resolution`. -/
def executeChallengeResolution (env : RollupEnv) (rollup : OptimisticRollup) (batchId : H256)
    (now : Seconds) : OptimisticRollup × Except Layer2Error Unit :=
  match rollup.correctStateRoot env batchId with
  | .error error => (rollup, .error error)
  | .ok correct => (rollup.resolve batchId correct now, .ok ())

/-- `challenge_state_root`. The clock is read for the check and for the resolution. -/
def challengeStateRoot (env : RollupEnv) (rollup : OptimisticRollup) (batchId : H256)
    (challenger : Address) (proof : FraudProof) (now resolved : Seconds) :
    OptimisticRollup × Except Layer2Error Unit :=
  match rollup.checkChallenge env batchId proof now with
  | .error error => (rollup, .error error)
  | .ok () =>
    ((rollup.insertChallenge batchId challenger proof).setStatus batchId
      .challenged).executeChallengeResolution env batchId resolved

/-! ## Finalization -/

/-- `finalize_batch`. -/
def finalizeBatch (rollup : OptimisticRollup) (batchId : H256) (now : Seconds) :
    OptimisticRollup × Except Layer2Error Unit :=
  match rollup.batches.lookup batchId with
  | none => (rollup, .error .batchNotFound)
  | some batch =>
    if batch.status ≠ .submitted then (rollup, .error .invalidProof)
    else if now.val < batch.challengeDeadline then (rollup, .error .challengePeriodNotExpired)
    else
      ({ rollup with batches := rollup.batches.insert batchId { batch with status := .finalized } },
        .ok ())

/-- The status of a batch. -/
def status (rollup : OptimisticRollup) (id : H256) : Option BatchState :=
  (rollup.batches.lookup id).map (·.status)

/-! ## What the calls do -/

/-- How `create_batch` ends. -/
inductive Created (env : RollupEnv) (rollup : OptimisticRollup) (clock : BatchClock) :
    OptimisticRollup × Outcome H256 → Prop
  /-- There is no transaction. -/
  | empty : rollup.pendingTransactions = [] →
      Created env rollup clock (rollup, some (.error .invalidTransaction))
  /-- A number overflows. -/
  | overflow : rollup.pendingTransactions ≠ [] → (rollup.nextBatch env clock).2 = none →
      Created env rollup clock (rollup.advance env clock, none)
  /-- The data availability layer panics. -/
  | panicked {batch : Batch} {daLayer : DataAvailabilityLayer} :
      rollup.pendingTransactions ≠ [] → (rollup.nextBatch env clock).2 = some batch →
      rollup.daLayer.storeData env.gzip batch.id (env.serializeBatch batch) clock.stored
        = (daLayer, none) →
      Created env rollup clock ({ rollup.advance env clock with daLayer }, none)
  /-- The data availability layer fails. -/
  | failed {batch : Batch} {daLayer : DataAvailabilityLayer} {error : Layer2Error} :
      rollup.pendingTransactions ≠ [] → (rollup.nextBatch env clock).2 = some batch →
      rollup.daLayer.storeData env.gzip batch.id (env.serializeBatch batch) clock.stored
        = (daLayer, some (.error error)) →
      Created env rollup clock ({ rollup.advance env clock with daLayer }, some (.error error))
  /-- A batch is created. -/
  | created {batch : Batch} {daLayer : DataAvailabilityLayer} :
      rollup.pendingTransactions ≠ [] → (rollup.nextBatch env clock).2 = some batch →
      rollup.daLayer.storeData env.gzip batch.id (env.serializeBatch batch) clock.stored
        = (daLayer, some (.ok ())) →
      Created env rollup clock
        (insertBatch { rollup.advance env clock with daLayer } batch, some (.ok batch.id))

theorem createBatch_spec (env : RollupEnv) (rollup : OptimisticRollup) (clock : BatchClock) :
    Created env rollup clock (rollup.createBatch env clock) := by
  unfold createBatch
  split
  next hempty => exact .empty hempty
  next hpending =>
    split
    next hnone => exact .overflow hpending hnone
    next batch hsome =>
      split
      next hstore => exact .panicked hpending hsome hstore
      next hstore => exact .failed hpending hsome hstore
      next hstore => exact .created hpending hsome hstore

/-- What a submission leaves behind, the answer aside. -/
theorem submitTransaction_fst (env : RollupEnv) (rollup : OptimisticRollup) (tx : Transaction)
    (clock : BatchClock) : (rollup.submitTransaction env tx clock).1 =
      if validateTransaction tx then
        if rollup.config.batchSize ≤ rollup.pendingTransactions.length + 1 then
          ((rollup.push tx).createBatch env clock).1
        else rollup.push tx
      else rollup := by
  have hlength : (rollup.push tx).pendingTransactions.length
      = rollup.pendingTransactions.length + 1 := List.length_append
  unfold submitTransaction
  dsimp only
  rw [hlength]
  split
  next =>
    have hconfig : (rollup.push tx).config = rollup.config := rfl
    rw [hconfig]
    split
    next => split <;> next heq => rw [heq]
    next => rfl
  next => rfl

variable {rollup : OptimisticRollup} {env : RollupEnv}

/-- The checks a challenge passes, read as one condition. -/
theorem checkChallenge_eq_ok {batchId : H256} {proof : FraudProof} {now : Seconds} :
    rollup.checkChallenge env batchId proof now = .ok () ↔
      ∃ batch, rollup.batches.lookup batchId = some batch ∧ batch.status = .submitted ∧
        now.val ≤ batch.challengeDeadline ∧
        verifyFraudProof env.toKeccakEnv proof batch = true := by
  unfold checkChallenge
  cases hlookup : rollup.batches.lookup batchId with
  | none => exact iff_of_false nofun fun ⟨_, h, _⟩ => nomatch h
  | some batch =>
    simp only [Option.some_inj, exists_eq_left']
    by_cases hstatus : batch.status = .submitted
    · rw [if_neg (not_not_intro hstatus), and_iff_right hstatus, ← BitVec.not_lt]
      by_cases hlate : batch.challengeDeadline < now.val
      · rw [if_pos hlate]
        exact iff_of_false nofun fun h => h.1 hlate
      · rw [if_neg hlate, and_iff_right hlate]
        cases verifyFraudProof env.toKeccakEnv proof batch with
        | false => exact iff_of_false nofun nofun
        | true => exact iff_of_true rfl rfl
    · rw [if_pos hstatus]
      exact iff_of_false nofun fun h => hstatus h.1

/-- Only the batch itself gets the status. -/
theorem lookup_setStatus (rollup : OptimisticRollup) (batchId : H256) (status : BatchState)
    (id : H256) : (rollup.setStatus batchId status).batches.lookup id =
      if id = batchId then (rollup.batches.lookup batchId).map fun batch => { batch with status }
      else rollup.batches.lookup id := by
  unfold setStatus
  split
  next batch hlookup =>
    split
    next hid =>
      rw [hid, hlookup]
      exact AList.lookup_insert _
    next hid => exact AList.lookup_insert_ne hid
  next hlookup =>
    split
    next hid =>
      rw [hid, hlookup]
      rfl
    next => rfl

theorem challenges_setStatus (rollup : OptimisticRollup) (batchId : H256) (status : BatchState) :
    (rollup.setStatus batchId status).challenges = rollup.challenges := by
  unfold setStatus
  split <;> rfl

theorem correctStateRoot_eq_ok {batchId root : H256} :
    rollup.correctStateRoot env batchId = .ok root ↔
      (rollup.challenges.lookup batchId).isSome ∧ ∃ batch,
        rollup.batches.lookup batchId = some batch ∧
          computeStateRoot env.toKeccakEnv batch.transactions batch.prevStateRoot = root := by
  unfold correctStateRoot recomputeStateRootWithWitness
  cases rollup.challenges.lookup batchId with
  | none => exact iff_of_false nofun fun h => nomatch h.1
  | some challenge =>
    cases rollup.batches.lookup batchId with
    | none => exact iff_of_false nofun fun ⟨_, _, h, _⟩ => nomatch h
    | some batch => simp

theorem batches_setResolution (rollup : OptimisticRollup) (batchId : H256)
    (status : ChallengeStatus) (now : Seconds) :
    (rollup.setResolution batchId status now).batches = rollup.batches := by
  unfold setResolution
  split <;> rfl

/-- A resolution makes the batch invalid if the root is another one, and submitted if not. -/
theorem lookup_resolve (rollup : OptimisticRollup) (batchId correct : H256) (now : Seconds)
    (id : H256) : (rollup.resolve batchId correct now).batches.lookup id =
      if id = batchId then
        (rollup.batches.lookup batchId).map fun batch =>
          { batch with status := if correct ≠ batch.stateRoot then .invalid else .submitted }
      else rollup.batches.lookup id := by
  unfold resolve rollbackInvalidBatch
  cases hlookup : rollup.batches.lookup batchId with
  | none =>
    dsimp only
    split
    next hid =>
      rw [hid, hlookup]
      rfl
    next => rfl
  | some batch =>
    dsimp only
    by_cases hroot : correct ≠ batch.stateRoot
    · rw [if_pos hroot, batches_setResolution, lookup_setStatus, hlookup, Option.map_some,
        Option.map_some, if_pos hroot]
    · rw [if_neg hroot, batches_setResolution, lookup_setStatus, hlookup, Option.map_some,
        Option.map_some, if_neg hroot]

theorem status_setStatus (rollup : OptimisticRollup) (batchId : H256) (status : BatchState)
    (id : H256) : (rollup.setStatus batchId status).status id =
      if id = batchId then (rollup.status batchId).map fun _ => status else rollup.status id := by
  unfold OptimisticRollup.status
  rw [lookup_setStatus]
  split
  next => rw [Option.map_map, Option.map_map]; rfl
  next => rfl

theorem status_resolve (rollup : OptimisticRollup) (batchId correct : H256) (now : Seconds)
    (id : H256) : (rollup.resolve batchId correct now).status id =
      if id = batchId then
        (rollup.batches.lookup batchId).map fun batch =>
          if correct ≠ batch.stateRoot then .invalid else .submitted
      else rollup.status id := by
  unfold OptimisticRollup.status
  rw [lookup_resolve]
  split
  next => rw [Option.map_map]; rfl
  next => rfl

theorem finalizeBatch_cases (rollup : OptimisticRollup) (batchId : H256) (now : Seconds) :
    (∃ error, rollup.finalizeBatch batchId now = (rollup, .error error)) ∨
      ∃ batch, rollup.batches.lookup batchId = some batch ∧ batch.status = .submitted ∧
        batch.challengeDeadline ≤ now.val ∧
        rollup.finalizeBatch batchId now = (rollup.setStatus batchId .finalized, .ok ()) := by
  unfold finalizeBatch setStatus
  split
  next => exact Or.inl ⟨_, rfl⟩
  next batch hlookup =>
    split
    next => exact Or.inl ⟨_, rfl⟩
    next hstatus =>
      split
      next => exact Or.inl ⟨_, rfl⟩
      next hdeadline =>
        refine Or.inr ⟨batch, hlookup, not_not.mp hstatus, BitVec.not_lt.mp hdeadline, ?_⟩
        rw [hlookup]

theorem finalizeBatch_of_submitted {batchId : H256} {now : Seconds} {batch : Batch}
    (hlookup : rollup.batches.lookup batchId = some batch) (hstatus : batch.status = .submitted)
    (hdeadline : batch.challengeDeadline ≤ now.val) :
    rollup.finalizeBatch batchId now = (rollup.setStatus batchId .finalized, .ok ()) := by
  unfold finalizeBatch setStatus
  rw [hlookup]
  dsimp only
  rw [if_neg (not_not_intro hstatus), if_neg (BitVec.not_lt.mpr hdeadline)]

/-- The batch that a sequencer makes, and what the sequencer becomes. -/
structure Follows (env : RollupEnv) (sequencer : Sequencer) (transactions : List Transaction)
    (batch : Batch) (sequencer' : Sequencer) : Prop where
  id_eq : batch.id = fromLowU64BE sequencer.nextBatchId
  blockNumber_eq : batch.blockNumber = sequencer.nextBatchId
  transactions_eq : batch.transactions = transactions
  prevStateRoot_eq : batch.prevStateRoot = sequencer.currentStateRoot
  stateRoot_eq : batch.stateRoot = computeStateRoot env.toKeccakEnv batch.transactions
    batch.prevStateRoot
  status_eq : batch.status = .submitted
  nextBatchId_eq : sequencer'.nextBatchId = sequencer.nextBatchId + 1
  currentStateRoot_eq : sequencer'.currentStateRoot = batch.stateRoot

theorem sub64_add_one {env : Env} {a b c : U64} (hadd : env.add64 a 1 = some b)
    (hsub : env.sub64 b 1 = some c) : c = a := by
  unfold Build.sub64 at hsub
  split at hsub
  next => cases hsub
  next =>
    rw [← Option.some.inj hsub, (Build.add64_eq_some hadd).1]
    exact BitVec.add_sub_cancel a 1

theorem follows_of_newBatch {config : Layer2Config} {sequencer : Sequencer}
    {transactions : List Transaction} {clock : BatchClock} {batch : Batch}
    (h : (sequencer.newBatch env config transactions clock).2 = some batch) :
    Follows env sequencer transactions batch
      (sequencer.newBatch env config transactions clock).1 := by
  unfold Sequencer.newBatch at h ⊢
  cases hadd : env.add64 sequencer.nextBatchId 1 with
  | none =>
    rw [hadd] at h
    cases h
  | some nextBatchId =>
    rw [hadd] at h
    dsimp only at h ⊢
    obtain ⟨blockNumber, hsub, h⟩ := Option.bind_eq_some_iff.mp h
    obtain ⟨period, hmul, h⟩ := Option.bind_eq_some_iff.mp h
    obtain ⟨challengeDeadline, hdeadline, h⟩ := Option.bind_eq_some_iff.mp h
    cases h
    exact ⟨rfl, sub64_add_one hadd hsub, rfl, rfl, rfl, rfl, (Build.add64_eq_some hadd).1, rfl⟩

/-- No number overflows when a batch is made, in a build that checks for it. -/
def Fits (env : RollupEnv) (config : Layer2Config) (sequencer : Sequencer) (clock : BatchClock) :
    Prop :=
  env.overflowChecks = true → sequencer.nextBatchId.toNat + 1 < 2 ^ 64 ∧
    clock.deadline.val.toNat + config.challengePeriodBlocks.toNat * 12 < 2 ^ 64

/-- The sequencer makes a batch exactly if none of its sums overflows. -/
theorem newBatch_isSome_iff {config : Layer2Config} {sequencer : Sequencer}
    {transactions : List Transaction} {clock : BatchClock} :
    (sequencer.newBatch env config transactions clock).2.isSome ↔
      Fits env config sequencer clock := by
  have htwelve : BitVec.toNat (12 : U64) = 12 := rfl
  have hone : BitVec.toNat (1 : U64) = 1 := rfl
  unfold Sequencer.newBatch Fits Build.add64 Build.sub64 Build.mul64
  rw [htwelve, hone]
  cases env.overflowChecks with
  | false => simp
  | true =>
    simp only [true_and, forall_const]
    by_cases hnext : sequencer.nextBatchId.toNat + 1 < 2 ^ 64
    · rw [if_neg (Nat.not_le_of_lt hnext)]
      -- the subtraction takes back the addition, so that it does not overflow
      have hsub : ¬ (sequencer.nextBatchId + 1).toNat < 1 := by
        rw [BitVec.toNat_add, hone, Nat.mod_eq_of_lt hnext]
        omega
      dsimp only
      rw [if_neg hsub, Option.bind_eq_bind, Option.bind_some, and_iff_right hnext]
      by_cases hmul : 2 ^ 64 ≤ config.challengePeriodBlocks.toNat * 12
      · rw [if_pos hmul]
        exact iff_of_false Bool.false_ne_true (by omega)
      · rw [if_neg hmul, Option.bind_some, BitVec.toNat_mul, htwelve,
          Nat.mod_eq_of_lt (Nat.lt_of_not_le hmul)]
        split
        next hlarge => exact iff_of_false Bool.false_ne_true (Nat.not_lt_of_le hlarge)
        next hsmall => exact iff_of_true rfl (Nat.lt_of_not_le hsmall)
    · rw [if_pos (Nat.le_of_not_lt hnext)]
      exact iff_of_false Bool.false_ne_true fun h => hnext h.1

/-- An environment in which a batch is serialized as its id. -/
def sampleRollupEnv : RollupEnv where
  toKeccakEnv := sampleKeccakEnv true
  gzip := DataAvailabilityLayer.sampleGzip
  serializeBatch batch := batch.id.toList

/-- A valid transaction. -/
def sampleTx : Transaction where
  id := Vector.replicate 32 1
  sender := Vector.replicate 20 1
  recipient := Vector.replicate 20 2
  value := 100
  data := []
  nonce := 0
  gasPrice := 20
  gasLimit := 21000
  signature := []
  requiresInstantFinality := false

/-- A clock that stands still. -/
def sampleClock : BatchClock := ⟨⟨0, by decide⟩, ⟨0, by decide⟩, ⟨0, by decide⟩⟩

/-- A layer that neither compresses nor codes. -/
def samplePlainLayer : DataAvailabilityLayer := .new ⟨.onChain, false, false⟩

end OptimisticRollup

end InterBit.Layer2
