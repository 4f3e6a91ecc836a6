import InterBit.Layer2.OptimisticRollup
import InterBit.Lib.Locks

/-!
# The locks of the rollups

The calls of the two rollups, with the locks they take. A guard that `let` binds is held to the end
of its block, unless it is dropped. As if the locks were re-entrant, the calls of the optimistic
rollup do what the model without locks does.

They are not re-entrant. `submit_transaction` holds the queue when `create_batch` asks for it, and
`challenge_state_root` holds the challenges when `execute_challenge_resolution` reads them. So they
wait for ever as soon as a batch is full, and as soon as a challenge passes its check:
`never_awaits_own_lock_iff`.
-/

namespace InterBit.Layer2

open InterBit.Lib

/-- The locks of `OptimisticRollup`, and the one of its data availability layer. -/
inductive RollupLock where
  | pendingTransactions
  | batches
  | stateRoots
  | challenges
  | sequencer
  | storage
  deriving DecidableEq

namespace RollupLocks

open OptimisticRollup

variable (env : RollupEnv)

/-- The first part of `create_batch`, at whose end the queue is dropped. -/
def takeTransactions : Routine RollupLock OptimisticRollup (Option (List Transaction)) :=
  .guarded ⟨.pendingTransactions, .write⟩ do
    let rollup ← .state
    if rollup.pendingTransactions = [] then return none
    .modify fun rollup =>
      { rollup with pendingTransactions := rollup.pendingTransactions.drop rollup.batchSize }
    return some (rollup.pendingTransactions.take rollup.batchSize)

/-- `store_data`. -/
def storeData (batch : Batch) (now : Seconds) :
    Routine RollupLock OptimisticRollup (Except Layer2Error Unit) := do
  match ← .get fun rollup =>
    rollup.daLayer.storeData env.gzip batch.id (env.serializeBatch batch) now with
  | (_, none) => .panic
  | (_, some (.error error)) => return .error error
  | (daLayer, some (.ok ())) =>
    .guarded ⟨.storage, .write⟩ (.modify fun rollup => { rollup with daLayer })
    return .ok ()

/-- `create_batch`. -/
def createBatch (clock : BatchClock) :
    Routine RollupLock OptimisticRollup (Except Layer2Error H256) := do
  match ← takeTransactions with
  | none => return .error .invalidTransaction
  | some transactions =>
    .guarded ⟨.sequencer, .write⟩ do
      let made ← .get fun rollup =>
        rollup.sequencer.newBatch env rollup.config transactions clock
      .modify fun rollup => { rollup with sequencer := made.1 }
      let batch ← .orPanic made.2
      match ← storeData env batch clock.stored with
      | .error error => return .error error
      | .ok () =>
        .guarded ⟨.batches, .write⟩ do
          .modify fun rollup => { rollup with batches := rollup.batches.insert batch.id batch }
          .guarded ⟨.stateRoots, .write⟩ do
            .modify fun rollup =>
              { rollup with
                stateRoots := rollup.stateRoots.insert batch.blockNumber batch.stateRoot }
            return (submitToL1 batch.id batch.stateRoot).map fun _ => batch.id

/-- `submit_transaction`. -/
def submitTransaction (tx : Transaction) (clock : BatchClock) :
    Routine RollupLock OptimisticRollup (Except Layer2Error H256) :=
  if validateTransaction tx then
    .guarded ⟨.pendingTransactions, .write⟩ do
      .modify (·.push tx)
      let rollup ← .state
      if rollup.config.batchSize ≤ rollup.pendingTransactions.length then
        match ← createBatch env clock with
        | .error error => return .error error
        | .ok _ => return .ok (hashTransaction env.toKeccakEnv tx)
      else return .ok (hashTransaction env.toKeccakEnv tx)
  else return .error .invalidTransaction

/-- `execute_challenge_resolution`. -/
def executeChallengeResolution (batchId : H256) (now : Seconds) :
    Routine RollupLock OptimisticRollup (Except Layer2Error Unit) := do
  let correct ← .guarded ⟨.challenges, .read⟩ do
    match ← .get (·.challenges.lookup batchId) with
    | none => return .error .invalidProof
    | some _ => .guarded ⟨.batches, .read⟩ (.get (·.correctStateRoot env batchId))
  match correct with
  | .error error => return .error error
  | .ok correct =>
    .guarded ⟨.batches, .write⟩ do
      .guarded ⟨.challenges, .write⟩ do
        .modify (·.resolve batchId correct now)
        return .ok ()

/-- `challenge_state_root`. The batches that are read are dropped once the challenge is inserted. -/
def challengeStateRoot (batchId : H256) (challenger : Address) (proof : FraudProof)
    (now resolved : Seconds) : Routine RollupLock OptimisticRollup (Except Layer2Error Unit) :=
  .acquire ⟨.batches, .read⟩ do
    match ← .get (·.checkChallenge env batchId proof now) with
    | .error error => .release ⟨.batches, .read⟩ (return .error error)
    | .ok () =>
      .guarded ⟨.challenges, .write⟩ do
        .modify (·.insertChallenge batchId challenger proof)
        .release ⟨.batches, .read⟩ (return ())
        .guarded ⟨.batches, .write⟩ do
          .modify (·.setStatus batchId .challenged)
          executeChallengeResolution env batchId resolved

/-! ## Without the locks -/

/-- How a call ends that the model without locks describes. -/
def asEnding {α : Type} : OptimisticRollup × Outcome α →
    Ending RollupLock (Except Layer2Error α) × OptimisticRollup
  | (rollup, none) => (.panicked, rollup)
  | (rollup, some result) => (.returned result, rollup)

variable {env}

theorem takeTransactions_reentrant (rollup : OptimisticRollup) :
    takeTransactions.reentrant rollup =
      if rollup.pendingTransactions = [] then (.returned none, rollup)
      else (.returned (some (rollup.pendingTransactions.take rollup.batchSize)),
        { rollup with
          pendingTransactions := rollup.pendingTransactions.drop rollup.batchSize }) := by
  rw [takeTransactions, Routine.reentrant_guarded]
  by_cases hempty : rollup.pendingTransactions = []
  · rw [if_pos hempty]
    simp [Routine.state, Routine.reentrant, Routine.run, hempty]
  · rw [if_neg hempty]
    simp [Routine.state, Routine.reentrant, Routine.run, Routine.modify, hempty]

/-- The data is stored, or the layer is left as it is. -/
theorem storeData_reentrant (batch : Batch) (now : Seconds) (rollup : OptimisticRollup) :
    (storeData env batch now).reentrant rollup =
      asEnding ({ rollup with daLayer := (rollup.daLayer.storeData env.gzip batch.id
          (env.serializeBatch batch) now).1 },
        (rollup.daLayer.storeData env.gzip batch.id (env.serializeBatch batch) now).2) := by
  have hsame := @DataAvailabilityLayer.storeData_unchanged env.gzip rollup.daLayer batch.id
    (env.serializeBatch batch) now
  rw [storeData, Routine.reentrant_bind, Routine.reentrant_get]
  dsimp only [Routine.andThen]
  revert hsame
  rcases rollup.daLayer.storeData env.gzip batch.id (env.serializeBatch batch) now with
    ⟨daLayer, _ | error | ⟨⟩⟩
  · intro hsame
    rw [show daLayer = rollup.daLayer from hsame nofun]
    rfl
  · intro hsame
    rw [show daLayer = rollup.daLayer from hsame nofun]
    rfl
  · intro _
    dsimp only
    rw [Routine.reentrant_bind, Routine.reentrant_guarded, Routine.reentrant_modify]
    rfl

theorem createBatch_reentrant (clock : BatchClock) (rollup : OptimisticRollup) :
    (createBatch env clock).reentrant rollup = asEnding (rollup.createBatch env clock) := by
  rw [createBatch, Routine.reentrant_bind, takeTransactions_reentrant,
    OptimisticRollup.createBatch]
  by_cases hempty : rollup.pendingTransactions = []
  · rw [if_pos hempty, if_pos hempty]
    rfl
  · rw [if_neg hempty, if_neg hempty]
    dsimp only [Routine.andThen]
    rw [Routine.reentrant_guarded, Routine.reentrant_bind, Routine.reentrant_get]
    dsimp only [Routine.andThen]
    rw [Routine.reentrant_bind, Routine.reentrant_modify]
    show (Routine.orPanic (rollup.nextBatch env clock).2 >>= _).reentrant
      (rollup.advance env clock) = _
    cases (rollup.nextBatch env clock).2 with
    | none => rfl
    | some batch =>
      show (storeData env batch clock.stored >>= _).reentrant (rollup.advance env clock) = _
      rw [Routine.reentrant_bind, storeData_reentrant]
      have hlayer : (rollup.advance env clock).daLayer = rollup.daLayer := rfl
      rw [hlayer]
      dsimp only
      rcases rollup.daLayer.storeData env.gzip batch.id (env.serializeBatch batch) clock.stored with
        ⟨daLayer, _ | error | ⟨⟩⟩
      · rfl
      · rfl
      · dsimp only [asEnding, Routine.andThen]
        rw [Routine.reentrant_guarded, Routine.reentrant_bind, Routine.reentrant_modify]
        dsimp only [Routine.andThen]
        rw [Routine.reentrant_guarded]
        rfl

theorem submitTransaction_reentrant (tx : Transaction) (clock : BatchClock)
    (rollup : OptimisticRollup) : (submitTransaction env tx clock).reentrant rollup
      = asEnding (rollup.submitTransaction env tx clock) := by
  unfold submitTransaction OptimisticRollup.submitTransaction
  split
  next =>
    rw [Routine.reentrant_guarded, Routine.reentrant_bind, Routine.reentrant_modify]
    show Routine.reentrant (if rollup.config.batchSize ≤ (rollup.push tx).pendingTransactions.length
      then _ else _) (rollup.push tx) = _
    have hconfig : (rollup.push tx).config = rollup.config := rfl
    dsimp only
    rw [hconfig]
    split
    next =>
      rw [Routine.reentrant_bind, createBatch_reentrant]
      rcases (rollup.push tx).createBatch env clock with ⟨rollup', _ | error | hash⟩ <;> rfl
    next => rfl
  next => rfl

theorem executeChallengeResolution_reentrant (batchId : H256) (now : Seconds)
    (rollup : OptimisticRollup) : (executeChallengeResolution env batchId now).reentrant rollup
      = asEnding ((rollup.executeChallengeResolution env batchId now).1,
        some (rollup.executeChallengeResolution env batchId now).2) := by
  have hcorrect : (Routine.guarded ⟨.challenges, .read⟩ do
        match ← Routine.get (·.challenges.lookup batchId) with
        | none => return .error .invalidProof
        | some _ => .guarded ⟨.batches, .read⟩ (.get (·.correctStateRoot env batchId))
      : Routine RollupLock OptimisticRollup (Except Layer2Error H256)).reentrant rollup
        = (.returned (rollup.correctStateRoot env batchId), rollup) := by
    rw [Routine.reentrant_guarded, Routine.reentrant_bind, Routine.reentrant_get]
    dsimp only [Routine.andThen]
    cases hchallenge : rollup.challenges.lookup batchId with
    | none =>
      rw [correctStateRoot, hchallenge]
      rfl
    | some challenge => exact Routine.reentrant_guarded ..
  rw [executeChallengeResolution, Routine.reentrant_bind, hcorrect,
    OptimisticRollup.executeChallengeResolution]
  dsimp only [Routine.andThen]
  cases rollup.correctStateRoot env batchId with
  | error error => rfl
  | ok correct =>
    dsimp only
    rw [Routine.reentrant_guarded, Routine.reentrant_guarded]
    rfl

theorem challengeStateRoot_reentrant (batchId : H256) (challenger : Address) (proof : FraudProof)
    (now resolved : Seconds) (rollup : OptimisticRollup) :
    (challengeStateRoot env batchId challenger proof now resolved).reentrant rollup
      = asEnding ((rollup.challengeStateRoot env batchId challenger proof now resolved).1,
        some (rollup.challengeStateRoot env batchId challenger proof now resolved).2) := by
  rw [challengeStateRoot, Routine.reentrant_acquire, Routine.reentrant_bind, Routine.reentrant_get,
    OptimisticRollup.challengeStateRoot]
  dsimp only [Routine.andThen]
  cases rollup.checkChallenge env batchId proof now with
  | error error => rfl
  | ok =>
    dsimp only
    rw [Routine.reentrant_guarded, Routine.reentrant_bind, Routine.reentrant_modify]
    dsimp only [Routine.andThen]
    rw [Routine.bind_release, Routine.reentrant_release, Routine.pure_eq, Routine.bind_ret,
      Routine.reentrant_guarded, Routine.reentrant_bind, Routine.reentrant_modify]
    exact executeChallengeResolution_reentrant ..

/-! ## When a call waits for itself -/

/-- A submission is blocked exactly if the transaction is valid and fills a batch. -/
theorem submitTransaction_blocked (tx : Transaction) (clock : BatchClock)
    (rollup : OptimisticRollup) :
    ((submitTransaction env tx clock).alone rollup).1.isBlocked = true ↔
      validateTransaction tx = true ∧
        rollup.config.batchSize ≤ rollup.pendingTransactions.length + 1 := by
  have hlength : (rollup.push tx).pendingTransactions.length
      = rollup.pendingTransactions.length + 1 := List.length_append
  unfold submitTransaction
  by_cases hvalid : validateTransaction tx = true
  · rw [if_pos hvalid, and_iff_right hvalid, Routine.alone, Routine.run_guarded,
      if_pos (Or.inr nofun), ← hlength]
    show (Routine.run false
      (if rollup.config.batchSize ≤ (rollup.push tx).pendingTransactions.length then _ else _) _
      (rollup.push tx)).1.isBlocked = true ↔ _
    split
    -- the queue is held when `create_batch` asks for it
    next hfull => exact iff_of_true rfl hfull
    next hroom => exact iff_of_false Bool.false_ne_true hroom
  · rw [if_neg hvalid]
    exact iff_of_false Bool.false_ne_true fun h => hvalid h.1

/-- A challenge is blocked exactly if it passes its check. -/
theorem challengeStateRoot_blocked (batchId : H256) (challenger : Address) (proof : FraudProof)
    (now resolved : Seconds) (rollup : OptimisticRollup) :
    ((challengeStateRoot env batchId challenger proof now resolved).alone rollup).1.isBlocked
      = true ↔ rollup.checkChallenge env batchId proof now = .ok () := by
  unfold challengeStateRoot
  rw [Routine.alone, Routine.run, if_pos (Or.inr harmless_nil), Routine.get, Routine.bind_look,
    Routine.run]
  dsimp only [Routine.bind_ret]
  cases rollup.checkChallenge env batchId proof now with
  | error error => exact iff_of_false Bool.false_ne_true fun h => by cases h
  -- the challenges are held when they are read again
  | ok => exact iff_of_true rfl rfl

end RollupLocks

/-! ## The other rollup -/

/-- `struct ZkProof`. -/
structure ZkProof where
  piA : List UInt8
  piB : List UInt8
  piC : List UInt8
  publicInputs : List U256

/-- `struct ZkBatch`. -/
structure ZkBatch where
  id : H256
  transactions : List Transaction
  stateRoot : H256
  proof : Option ZkProof
  status : BatchState
  timestamp : U64

/-- The locks of `ZkRollup` that `submit_transaction` takes. -/
inductive ZkLock where
  | pendingTransactions
  | batches
  deriving DecidableEq

/-- `struct ZkRollup`, without the keys and the data availability layer. -/
structure ZkRollup where
  config : Layer2Config
  pendingTransactions : List Transaction
  batches : AList fun _ : H256 => ZkBatch

namespace ZkRollup

/-- `ZkRollup::new`. -/
def new (config : Layer2Config) : ZkRollup := ⟨config, [], ∅⟩

/-- `compute_state_root`. -/
def computeStateRoot (env : KeccakEnv) (transactions : List Transaction) : H256 :=
  env.keccak256 (transactions.flatMap (·.id.toList))

/-- `generate_proof`. -/
def generateProof (_transactions : List Transaction) (_stateRoot : H256) :
    Except Layer2Error ZkProof :=
  .ok ⟨List.replicate 32 0, List.replicate 64 0, List.replicate 32 0, [0]⟩

variable (env : KeccakEnv)

/-- `create_batch`, with the id that is drawn. -/
def createBatch (batchId : H256) (now : Seconds) :
    Routine ZkLock ZkRollup (Except Layer2Error H256) := do
  let transactions ← .guarded ⟨.pendingTransactions, .write⟩ do
    let transactions ← .get (·.pendingTransactions)
    .modify fun rollup => { rollup with pendingTransactions := [] }
    return transactions
  let stateRoot := computeStateRoot env transactions
  match generateProof transactions stateRoot with
  | .error error => return .error error
  | .ok proof =>
    let batch : ZkBatch :=
      { id := batchId, transactions, stateRoot, proof := some proof, status := .submitted
        timestamp := now.val }
    .guarded ⟨.batches, .write⟩ do
      .modify fun rollup => { rollup with batches := rollup.batches.insert batchId batch }
      return .ok batchId

/-- `submit_transaction`. -/
def submitTransaction (tx : Transaction) (batchId : H256) (now : Seconds) :
    Routine ZkLock ZkRollup (Except Layer2Error H256) :=
  .guarded ⟨.pendingTransactions, .write⟩ do
    .modify fun rollup => { rollup with pendingTransactions := rollup.pendingTransactions ++ [tx] }
    let rollup ← .state
    if rollup.config.batchSize ≤ rollup.pendingTransactions.length then
      match ← createBatch env batchId now with
      | .error error => return .error error
      | .ok _ => return .ok tx.id
    else return .ok tx.id

variable {env}

/-- A submission is blocked exactly if the transaction fills a batch. -/
theorem submitTransaction_blocked (tx : Transaction) (batchId : H256) (now : Seconds)
    (rollup : ZkRollup) :
    ((submitTransaction env tx batchId now).alone rollup).1.isBlocked = true ↔
      rollup.config.batchSize ≤ rollup.pendingTransactions.length + 1 := by
  have hlength : (rollup.pendingTransactions ++ [tx]).length
      = rollup.pendingTransactions.length + 1 := List.length_append
  unfold submitTransaction
  rw [Routine.alone, Routine.run_guarded, if_pos (Or.inr nofun), ← hlength]
  show (Routine.run false (if rollup.config.batchSize ≤ (rollup.pendingTransactions ++ [tx]).length
    then _ else _) _ { rollup with
      pendingTransactions := rollup.pendingTransactions ++ [tx] }).1.isBlocked = true ↔ _
  split
  next hfull => exact iff_of_true rfl hfull
  next hroom => exact iff_of_false Bool.false_ne_true hroom

end ZkRollup

namespace RollupLocks

open OptimisticRollup

/-- A call never awaits a lock that it holds exactly if the transaction does not come to a batch, or
the challenge fails its check. -/
theorem never_awaits_own_lock_iff (env : RollupEnv) :
    (∀ rollup tx clock, ((submitTransaction env tx clock).alone rollup).1.isBlocked = false ↔
      validateTransaction tx = false ∨
        rollup.pendingTransactions.length + 1 < rollup.config.batchSize) ∧
    (∀ rollup batchId challenger proof now resolved,
      ((challengeStateRoot env batchId challenger proof now resolved).alone rollup).1.isBlocked
          = false ↔
        ∀ batch, rollup.batches.lookup batchId = some batch → batch.status ≠ .submitted ∨
          batch.challengeDeadline < now.val ∨
          verifyFraudProof env.toKeccakEnv proof batch = false) ∧
    (∀ rollup tx batchId now,
      ((ZkRollup.submitTransaction env.toKeccakEnv tx batchId now).alone rollup).1.isBlocked
          = false ↔
        rollup.pendingTransactions.length + 1 < rollup.config.batchSize) := by
  refine ⟨?_, ?_, ?_⟩
  · intro rollup tx clock
    rw [← Bool.not_eq_true, submitTransaction_blocked, not_and_or, Bool.not_eq_true, Nat.not_le]
  · intro rollup batchId challenger proof now resolved
    rw [← Bool.not_eq_true, challengeStateRoot_blocked, checkChallenge_eq_ok, not_exists]
    refine forall_congr' fun batch => ?_
    rw [not_and, not_and_or, not_and_or, BitVec.not_le, Bool.not_eq_true]
  · intro rollup tx batchId now
    rw [← Bool.not_eq_true, ZkRollup.submitTransaction_blocked, Nat.not_le]

/-- A transaction that fills a batch waits for ever. -/
theorem full_batch_waits :
    ((submitTransaction sampleRollupEnv sampleTx sampleClock).alone
      (.new ⟨1, 100, 1000⟩ samplePlainLayer)).1 = .blocked ⟨.pendingTransactions, .write⟩ := by
  decide +kernel

end RollupLocks

end InterBit.Layer2
