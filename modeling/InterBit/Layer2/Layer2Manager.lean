import InterBit.Layer2.RollupLocks
import InterBit.Lib.FillingQueue

/-!
# The layer 2 manager

`Layer2Manager` of `layer2/mod.rs`: its calls go to one of two rollups, with the locks that they
take there. Nothing but a submission fills a batch, and a submission that fills one waits for
itself.

So there is never a batch, whatever the calls are and however they interleave: nothing is found to
ask for, to challenge or to finalize (`no_batch_of_run`).
-/

namespace InterBit.Layer2

open InterBit.Lib

/-- `enum RollupType`. -/
inductive RollupType where
  | optimistic
  | zkRollup
  | hybrid
  deriving DecidableEq

/-- `struct ChannelState`. -/
structure ChannelState where
  balances : List U256
  nonce : U64
  merkleRoot : H256

/-- `struct StateChannel`. -/
structure StateChannel where
  id : H256
  participants : List Address
  state : ChannelState
  nonce : U64
  signatures : List (List UInt8)

/-- `StateChannel::new`, with the id that is drawn. -/
def StateChannel.new (id : H256) (participants : List Address) (initialState : ChannelState) :
    StateChannel :=
  ⟨id, participants, initialState, 0, []⟩

/-- `struct BatchStatus`. -/
structure BatchStatus where
  batchId : H256
  state : BatchState
  numTransactions : Nat
  stateRoot : H256
  timestamp : U64
  proposer : Address
  finalized : Bool

/-! ## What the rollups do beside the batches -/

namespace OptimisticRollup

/-- `get_batch_status`. -/
def getBatchStatus (rollup : OptimisticRollup) (batchId : H256) : Option BatchStatus :=
  (rollup.batches.lookup batchId).map fun batch =>
    { batchId := batch.id
      state := batch.status
      numTransactions := batch.transactions.length
      stateRoot := batch.stateRoot
      timestamp := batch.timestamp
      proposer := batch.proposer
      finalized := batch.status = .finalized }

/-- `has_batch`. -/
def hasBatch (rollup : OptimisticRollup) (batchId : H256) : Bool := batchId ∈ rollup.batches

end OptimisticRollup

/-- `verify_proof` of `ProofVerifier`. -/
def verifyProof (_proof : ZkProof) (_expectedRoot : H256) : Bool := true

namespace ZkRollup

/-- `finalize_batch`. -/
def finalizeBatch (rollup : ZkRollup) (batchId : H256) : ZkRollup × Except Layer2Error Unit :=
  match rollup.batches.lookup batchId with
  | none => (rollup, .error .batchNotFound)
  | some batch =>
    if batch.proof.all (verifyProof · batch.stateRoot) then
      ({ rollup with batches := rollup.batches.insert batchId { batch with status := .finalized } },
        .ok ())
    else (rollup, .error .invalidProof)

/-- `get_batch_status`. -/
def getBatchStatus (rollup : ZkRollup) (batchId : H256) : Option BatchStatus :=
  (rollup.batches.lookup batchId).map fun batch =>
    { batchId := batch.id
      state := batch.status
      numTransactions := batch.transactions.length
      stateRoot := batch.stateRoot
      timestamp := batch.timestamp
      proposer := Vector.replicate 20 0
      finalized := batch.status = .finalized }

end ZkRollup

/-! ## The manager -/

/-- The locks behind a manager. -/
inductive Layer2Lock where
  | optimistic (lock : RollupLock)
  | zk (lock : ZkLock)
  | stateChannels
  deriving DecidableEq

/-- What the pointers of a manager lead to. -/
structure Layer2State where
  optimisticRollup : OptimisticRollup
  zkRollup : ZkRollup
  stateChannels : List StateChannel

/-- `struct Layer2Manager`, where a rollup is a flag that says whether there is a pointer to it. -/
structure Layer2Manager where
  rollupType : RollupType
  optimisticRollup : Bool
  zkRollup : Bool

/-- A call of a manager, with what it reads from the clock and draws. -/
inductive Layer2Call where
  | submitTransaction (tx : Transaction) (clock : BatchClock) (batchId : H256) (now : Seconds)
  | createStateChannel (participants : List Address) (initialState : ChannelState) (id : H256)
  | getBatchStatus (batchId : H256)
  | challengeStateRoot (batchId : H256) (challenger : Address) (proof : FraudProof)
      (now resolved : Seconds)
  | finalizeBatch (batchId : H256) (now : Seconds)

/-- What a call returns. -/
inductive Layer2Answer where
  | hash (result : Except Layer2Error H256)
  | status (result : Option BatchStatus)
  | done (result : Except Layer2Error Unit)

/-- What the pointers lead to at first. -/
def Layer2State.new (config : Layer2Config) (daLayer : DataAvailabilityLayer) : Layer2State :=
  ⟨.new config daLayer, .new config, []⟩

/-- A routine of the optimistic rollup. -/
def optimistic {α : Type} (t : Routine RollupLock OptimisticRollup α) :
    Routine Layer2Lock Layer2State α :=
  t.onPart .optimistic (·.optimisticRollup) fun rollup s => { s with optimisticRollup := rollup }

/-- A routine of the other rollup. -/
def zk {α : Type} (t : Routine ZkLock ZkRollup α) : Routine Layer2Lock Layer2State α :=
  t.onPart .zk (·.zkRollup) fun rollup s => { s with zkRollup := rollup }

/-- `finalize_batch` of the optimistic rollup. -/
def RollupLocks.finalizeBatch (batchId : H256) (now : Seconds) :
    Routine RollupLock OptimisticRollup (Except Layer2Error Unit) :=
  .guarded ⟨.batches, .write⟩ <| .perform fun rollup =>
    ((rollup.finalizeBatch batchId now).1, some (rollup.finalizeBatch batchId now).2)

/-- `finalize_batch` of the other rollup. -/
def ZkRollup.finalizing (batchId : H256) : Routine ZkLock ZkRollup (Except Layer2Error Unit) :=
  .guarded ⟨.batches, .write⟩ <| .perform fun rollup =>
    ((rollup.finalizeBatch batchId).1, some (rollup.finalizeBatch batchId).2)

namespace Layer2Manager

/-- `Layer2Manager::new`. -/
def new (rollupType : RollupType) : Layer2Manager where
  rollupType
  optimisticRollup := rollupType = .optimistic || rollupType = .hybrid
  zkRollup := rollupType = .zkRollup || rollupType = .hybrid

variable (env : RollupEnv) (manager : Layer2Manager)

/-- `submit_transaction`. -/
def submitTransaction (tx : Transaction) (clock : BatchClock) (batchId : H256) (now : Seconds) :
    Routine Layer2Lock Layer2State (Except Layer2Error H256) :=
  match manager.rollupType with
  | .optimistic =>
    if manager.optimisticRollup then optimistic (RollupLocks.submitTransaction env tx clock)
    else return .error .rollupNotInitialized
  | .zkRollup =>
    if manager.zkRollup then zk (ZkRollup.submitTransaction env.toKeccakEnv tx batchId now)
    else return .error .rollupNotInitialized
  | .hybrid =>
    if tx.requiresInstantFinality then
      if manager.zkRollup then zk (ZkRollup.submitTransaction env.toKeccakEnv tx batchId now)
      else return .error .rollupNotInitialized
    else
      if manager.optimisticRollup then optimistic (RollupLocks.submitTransaction env tx clock)
      else return .error .rollupNotInitialized

/-- `create_state_channel`. -/
def createStateChannel (participants : List Address) (initialState : ChannelState) (id : H256) :
    Routine Layer2Lock Layer2State (Except Layer2Error H256) :=
  let channel := StateChannel.new id participants initialState
  .guarded ⟨.stateChannels, .write⟩ do
    .modify fun s => { s with stateChannels := s.stateChannels ++ [channel] }
    return .ok channel.id

/-- `get_batch_status`. -/
def getBatchStatus (batchId : H256) : Routine Layer2Lock Layer2State (Option BatchStatus) :=
  if manager.optimisticRollup then
    optimistic (.guarded ⟨.batches, .read⟩ (.get (·.getBatchStatus batchId)))
  else if manager.zkRollup then
    zk (.guarded ⟨.batches, .read⟩ (.get (·.getBatchStatus batchId)))
  else return none

/-- `challenge_state_root`. -/
def challengeStateRoot (batchId : H256) (challenger : Address) (proof : FraudProof)
    (now resolved : Seconds) : Routine Layer2Lock Layer2State (Except Layer2Error Unit) :=
  if manager.optimisticRollup then
    optimistic (RollupLocks.challengeStateRoot env batchId challenger proof now resolved)
  else return .error .rollupNotInitialized

/-- `finalize_batch`. -/
def finalizeBatch (batchId : H256) (now : Seconds) :
    Routine Layer2Lock Layer2State (Except Layer2Error Unit) :=
  match manager.rollupType with
  | .optimistic =>
    if manager.optimisticRollup then optimistic (RollupLocks.finalizeBatch batchId now)
    else return .error .rollupNotInitialized
  | .zkRollup =>
    if manager.zkRollup then zk (ZkRollup.finalizing batchId)
    else return .error .rollupNotInitialized
  | .hybrid => do
    let found ←
      if manager.optimisticRollup then
        optimistic (.guarded ⟨.batches, .read⟩ (.get (·.hasBatch batchId)))
      else pure false
    if found then optimistic (RollupLocks.finalizeBatch batchId now)
    else if manager.zkRollup then zk (ZkRollup.finalizing batchId)
    else return .ok ()

/-- One call. -/
def routine : Layer2Call → Routine Layer2Lock Layer2State Layer2Answer
  | .submitTransaction tx clock batchId now =>
    Layer2Answer.hash <$> manager.submitTransaction env tx clock batchId now
  | .createStateChannel participants initialState id =>
    Layer2Answer.hash <$> createStateChannel participants initialState id
  | .getBatchStatus batchId => Layer2Answer.status <$> manager.getBatchStatus batchId
  | .challengeStateRoot batchId challenger proof now resolved =>
    Layer2Answer.done <$> manager.challengeStateRoot env batchId challenger proof now resolved
  | .finalizeBatch batchId now => Layer2Answer.done <$> manager.finalizeBatch batchId now

end Layer2Manager

/-! ## Nothing but the queues changes -/

namespace OptimisticRollup

/-- The rollup is new but for its queue. -/
def Idle (config : Layer2Config) (daLayer : DataAvailabilityLayer) (rollup : OptimisticRollup) :
    Prop :=
  rollup = { new config daLayer with pendingTransactions := rollup.pendingTransactions }

variable {config : Layer2Config} {daLayer : DataAvailabilityLayer} {rollup : OptimisticRollup}

theorem Idle.lookup (h : Idle config daLayer rollup) (batchId : H256) :
    rollup.batches.lookup batchId = none := by
  rw [h]
  rfl

theorem Idle.push (h : Idle config daLayer rollup) (tx : Transaction) :
    Idle config daLayer (rollup.push tx) := by
  rw [h]
  rfl

theorem Idle.checkChallenge (h : Idle config daLayer rollup) (env : RollupEnv) (batchId : H256)
    (proof : FraudProof) (now : Seconds) :
    rollup.checkChallenge env batchId proof now = .error .batchNotFound := by
  rw [OptimisticRollup.checkChallenge, h.lookup]

theorem Idle.finalizeBatch (h : Idle config daLayer rollup) (batchId : H256) (now : Seconds) :
    rollup.finalizeBatch batchId now = (rollup, .error .batchNotFound) := by
  rw [OptimisticRollup.finalizeBatch, h.lookup]

theorem Idle.getBatchStatus (h : Idle config daLayer rollup) (batchId : H256) :
    rollup.getBatchStatus batchId = none := by
  rw [OptimisticRollup.getBatchStatus, h.lookup]
  rfl

theorem Idle.hasBatch (h : Idle config daLayer rollup) (batchId : H256) :
    rollup.hasBatch batchId = false := by
  rw [OptimisticRollup.hasBatch, decide_eq_false_iff_not, ← AList.lookup_eq_none]
  exact h.lookup batchId

end OptimisticRollup

namespace ZkRollup

/-- The rollup is new but for its queue. -/
def Idle (config : Layer2Config) (rollup : ZkRollup) : Prop :=
  rollup = { new config with pendingTransactions := rollup.pendingTransactions }

variable {config : Layer2Config} {rollup : ZkRollup}

theorem Idle.lookup (h : Idle config rollup) (batchId : H256) :
    rollup.batches.lookup batchId = none := by
  rw [h]
  rfl

theorem Idle.finalizeBatch (h : Idle config rollup) (batchId : H256) :
    rollup.finalizeBatch batchId = (rollup, .error .batchNotFound) := by
  rw [ZkRollup.finalizeBatch, h.lookup]

theorem Idle.getBatchStatus (h : Idle config rollup) (batchId : H256) :
    rollup.getBatchStatus batchId = none := by
  rw [ZkRollup.getBatchStatus, h.lookup]
  rfl

end ZkRollup

/-- Both rollups are new but for their queues. -/
structure Layer2State.Idle (config : Layer2Config) (daLayer : DataAvailabilityLayer)
    (s : Layer2State) : Prop where
  optimisticRollup : s.optimisticRollup.Idle config daLayer
  zkRollup : s.zkRollup.Idle config

/-- One of the two rollups. -/
inductive RollupSide where
  | optimistic
  | zk
  deriving DecidableEq

/-- The rollup that a transaction goes to. -/
def RollupType.side (rollupType : RollupType) (tx : Transaction) : RollupSide :=
  match rollupType with
  | .optimistic => .optimistic
  | .zkRollup => .zk
  | .hybrid => if tx.requiresInstantFinality then .zk else .optimistic

namespace RollupSide

/-- The rollup takes the transaction. -/
def accepts (side : RollupSide) (tx : Transaction) : Bool :=
  match side with
  | .optimistic => validateTransaction tx
  | .zk => true

/-- The hash that a submission returns. -/
def hash (env : RollupEnv) (side : RollupSide) (tx : Transaction) : H256 :=
  match side with
  | .optimistic => hashTransaction env.toKeccakEnv tx
  | .zk => tx.id

/-- The queue of the rollup. -/
def pending (side : RollupSide) (s : Layer2State) : List Transaction :=
  match side with
  | .optimistic => s.optimisticRollup.pendingTransactions
  | .zk => s.zkRollup.pendingTransactions

end RollupSide

/-- The transaction that a call appends to the queue of a rollup. -/
def Layer2Call.queued (rollupType : RollupType) (side : RollupSide) :
    Layer2Call → Option Transaction
  | .submitTransaction tx _ _ _ =>
    if rollupType.side tx = side ∧ side.accepts tx = true then some tx else none
  | _ => none

/-- What a call returns if there is no batch. -/
def Layer2Call.Answered (env : RollupEnv) (rollupType : RollupType) (answer : Layer2Answer) :
    Layer2Call → Prop
  | .submitTransaction tx _ _ _ =>
    answer = .hash (if (rollupType.side tx).accepts tx
      then .ok ((rollupType.side tx).hash env tx) else .error .invalidTransaction)
  | .createStateChannel _ _ id => answer = .hash (.ok id)
  | .getBatchStatus _ => answer = .status none
  | .challengeStateRoot .. =>
    answer = .done (.error
      (if rollupType = .zkRollup then .rollupNotInitialized else .batchNotFound))
  | .finalizeBatch .. => answer = .done (.error .batchNotFound)

/-- A call may append to a queue; it changes nothing else of the rollups. -/
structure Layer2Call.Changes (config : Layer2Config) (daLayer : DataAvailabilityLayer)
    (rollupType : RollupType) (call : Layer2Call) (s s' : Layer2State) : Prop where
  idle : s'.Idle config daLayer
  pending : ∀ side, call.queued rollupType side = none → side.pending s' = side.pending s

/-- The queue of the optimistic rollup. -/
def OptimisticRollup.queue : SharedQueue RollupLock OptimisticRollup Transaction where
  lock := .pendingTransactions
  queue := (·.pendingTransactions)
  push tx rollup := rollup.push tx
  isFull rollup := rollup.config.batchSize ≤ rollup.pendingTransactions.length
  decidable _ := inferInstance

/-- The queue of the other rollup. -/
def ZkRollup.queue : SharedQueue ZkLock ZkRollup Transaction where
  lock := .pendingTransactions
  queue := (·.pendingTransactions)
  push tx rollup := { rollup with pendingTransactions := rollup.pendingTransactions ++ [tx] }
  isFull rollup := rollup.config.batchSize ≤ rollup.pendingTransactions.length
  decidable _ := inferInstance

/-- The queue of a rollup, as a part of the whole. -/
def RollupSide.queue : RollupSide → SharedQueue Layer2Lock Layer2State Transaction
  | .optimistic => OptimisticRollup.queue.onPart .optimistic (·.optimisticRollup)
      fun rollup s => { s with optimisticRollup := rollup }
  | .zk => ZkRollup.queue.onPart .zk (·.zkRollup) fun rollup s => { s with zkRollup := rollup }

section Submissions

variable (env : RollupEnv) (tx : Transaction)

theorem fill_optimistic (clock : BatchClock) (hvalid : validateTransaction tx = true) :
    ∃ flush, RollupLocks.submitTransaction env tx clock
      = OptimisticRollup.queue.fill tx flush (.ok (hashTransaction env.toKeccakEnv tx)) := by
  unfold RollupLocks.submitTransaction
  rw [if_pos hvalid]
  exact ⟨_, OptimisticRollup.queue.guarded_eq_fill rfl⟩

theorem fill_zk (batchId : H256) (now : Seconds) :
    ∃ flush, ZkRollup.submitTransaction env.toKeccakEnv tx batchId now
      = ZkRollup.queue.fill tx flush (.ok tx.id) :=
  ⟨_, ZkRollup.queue.guarded_eq_fill rfl⟩

/-- A submission goes to the rollup of its side. -/
theorem submitTransaction_side (rollupType : RollupType) (clock : BatchClock) (batchId : H256)
    (now : Seconds) :
    (Layer2Manager.new rollupType).submitTransaction env tx clock batchId now
      = match rollupType.side tx with
        | .optimistic => optimistic (RollupLocks.submitTransaction env tx clock)
        | .zk => zk (ZkRollup.submitTransaction env.toKeccakEnv tx batchId now) := by
  cases rollupType with
  | optimistic | zkRollup => rfl
  | hybrid =>
    unfold Layer2Manager.submitTransaction RollupType.side
    dsimp only [Layer2Manager.new]
    split
    next => rfl
    next => rfl

/-- A submission that is accepted fills the queue of the rollup that it goes to, and the others are
refused at once. -/
theorem routine_submitTransaction (rollupType : RollupType) (clock : BatchClock) (batchId : H256)
    (now : Seconds) :
    ((rollupType.side tx).accepts tx = true ∧ ∃ flush,
      (Layer2Manager.new rollupType).routine env (.submitTransaction tx clock batchId now)
        = (rollupType.side tx).queue.fill tx flush
          (.hash (.ok ((rollupType.side tx).hash env tx)))) ∨
    ((rollupType.side tx).accepts tx = false ∧
      (Layer2Manager.new rollupType).routine env (.submitTransaction tx clock batchId now)
        = .ret (.hash (.error .invalidTransaction))) := by
  rw [Layer2Manager.routine, submitTransaction_side]
  cases rollupType.side tx with
  | optimistic =>
    cases hvalid : validateTransaction tx with
    | true =>
      obtain ⟨flush, hfill⟩ := fill_optimistic env tx clock hvalid
      dsimp only
      rw [hfill, optimistic, SharedQueue.onPart_fill, SharedQueue.map_fill]
      exact .inl ⟨hvalid, _, rfl⟩
    | false =>
      have hrefused : RollupLocks.submitTransaction env tx clock
          = .ret (.error .invalidTransaction) := if_neg (by rw [hvalid]; decide)
      dsimp only
      rw [hrefused]
      exact .inr ⟨hvalid, rfl⟩
  | zk =>
    obtain ⟨flush, hfill⟩ := fill_zk env tx batchId now
    dsimp only
    rw [hfill, zk, SharedQueue.onPart_fill, SharedQueue.map_fill]
    exact .inl ⟨rfl, _, rfl⟩

end Submissions

/-! ## Every call keeps the rollups idle -/

section Calls

variable {config : Layer2Config} {daLayer : DataAvailabilityLayer} {α : Type} {Q : α → Prop}
  {R : Layer2State → Layer2State → Prop}

/-- A routine that only reads the optimistic rollup. -/
theorem within_optimistic {t : Routine RollupLock OptimisticRollup α}
    (h : t.Within (OptimisticRollup.Idle config daLayer) (fun r r' => r' = r) Q [])
    (hR : ∀ s, s.Idle config daLayer → R s s) :
    (optimistic t).Within (Layer2State.Idle config daLayer) R Q [] := by
  refine h.onPart (fun _ _ heq => Layer2Lock.optimistic.inj heq)
    (fun _ hs => hs.optimisticRollup) ?_
  rintro s rollup hs rfl
  exact hR s hs

/-- A routine that only reads the other rollup. -/
theorem within_zk {t : Routine ZkLock ZkRollup α}
    (h : t.Within (ZkRollup.Idle config) (fun r r' => r' = r) Q [])
    (hR : ∀ s, s.Idle config daLayer → R s s) :
    (zk t).Within (Layer2State.Idle config daLayer) R Q [] := by
  refine h.onPart (fun _ _ heq => Layer2Lock.zk.inj heq) (fun _ hs => hs.zkRollup) ?_
  rintro s rollup hs rfl
  exact hR s hs

theorem within_challengeStateRoot (env : RollupEnv) (batchId : H256) (challenger : Address)
    (proof : FraudProof) (now resolved : Seconds) :
    (RollupLocks.challengeStateRoot env batchId challenger proof now resolved).Within
      (OptimisticRollup.Idle config daLayer) (fun r r' => r' = r)
      (fun result => result = .error .batchNotFound) [] := by
  refine fun _ => Routine.Within.bind (P := fun checked => checked = .error .batchNotFound)
    (Routine.within_get fun _ hidle => hidle.checkChallenge ..) ?_
  rintro _ held rfl
  rfl

theorem within_finalizeBatch (batchId : H256) (now : Seconds) :
    (RollupLocks.finalizeBatch batchId now).Within (OptimisticRollup.Idle config daLayer)
      (fun r r' => r' = r) (fun result => result = .error .batchNotFound) [] := by
  refine Routine.within_guarded (Routine.within_perform ?_ ?_)
  · intro rollup hidle
    rw [hidle.finalizeBatch]
  · intro rollup hidle result hresult
    rw [hidle.finalizeBatch] at hresult
    exact (Option.some.inj hresult).symm

theorem within_finalizing (batchId : H256) :
    (ZkRollup.finalizing batchId).Within (ZkRollup.Idle config) (fun r r' => r' = r)
      (fun result => result = .error .batchNotFound) [] := by
  refine Routine.within_guarded (Routine.within_perform ?_ ?_)
  · intro rollup hidle
    rw [hidle.finalizeBatch]
  · intro rollup hidle result hresult
    rw [hidle.finalizeBatch] at hresult
    exact (Option.some.inj hresult).symm

/-- A call changes nothing that it does not queue. -/
theorem changes_refl {rollupType : RollupType} {call : Layer2Call} {s : Layer2State}
    (hs : s.Idle config daLayer) : call.Changes config daLayer rollupType s s :=
  ⟨hs, fun _ _ => rfl⟩

/-- Filling either queue leaves both rollups idle. -/
theorem idle_push {s : Layer2State} (hs : s.Idle config daLayer) (side : RollupSide)
    (tx : Transaction) : (side.queue.push tx s).Idle config daLayer := by
  cases side with
  | optimistic => exact ⟨hs.optimisticRollup.push tx, hs.zkRollup⟩
  | zk =>
    refine ⟨hs.optimisticRollup, ?_⟩
    have hzk := hs.zkRollup
    unfold ZkRollup.Idle at hzk ⊢
    change { s.zkRollup with
      pendingTransactions := s.zkRollup.pendingTransactions ++ [tx] } = _
    rw [hzk]
    rfl

theorem pending_push_of_ne (s : Layer2State) {side side' : RollupSide} (h : side' ≠ side)
    (tx : Transaction) : side'.pending (side.queue.push tx s) = side'.pending s := by
  cases side with
  | optimistic =>
    cases side' with
    | optimistic => exact absurd rfl h
    | zk => rfl
  | zk =>
    cases side' with
    | optimistic => rfl
    | zk => exact absurd rfl h

/-- Whatever the call, it answers as if there were no batch, and there is none after it. -/
theorem within_routine (env : RollupEnv) (rollupType : RollupType) (call : Layer2Call) :
    ((Layer2Manager.new rollupType).routine env call).Within (Layer2State.Idle config daLayer)
      (call.Changes config daLayer rollupType)
      (fun answer => call.Answered env rollupType answer) [] := by
  cases call with
  | submitTransaction tx clock batchId now =>
    -- what is refused is refused before any guard is asked for
    rcases routine_submitTransaction env tx rollupType clock batchId now with
      ⟨haccepts, flush, hfill⟩ | ⟨hrefuses, hret⟩
    · rw [hfill]
      refine SharedQueue.within_fill (fun s hs => ⟨idle_push hs _ tx, fun side hside => ?_⟩) ?_
      · refine pending_push_of_ne s (fun heq => ?_) tx
        rw [Layer2Call.queued, heq, if_pos ⟨rfl, haccepts⟩] at hside
        cases hside
      · rw [Layer2Call.Answered, if_pos haccepts]
    · rw [hret]
      change Layer2Answer.hash _ = .hash (if _ then _ else _)
      rw [if_neg (by rw [hrefuses]; decide)]
  | createStateChannel participants initialState id =>
    refine Routine.Within.bind (P := fun result => result = .ok id) (Routine.within_guarded ?_) ?_
    · refine ⟨fun s hs => ⟨⟨hs.optimisticRollup, hs.zkRollup⟩, fun side _ => ?_⟩, rfl⟩
      cases side <;> rfl
    · rintro _ held rfl
      rfl
  | getBatchStatus batchId =>
    refine Routine.Within.bind (P := fun result => result = none) ?_ ?_
    · unfold Layer2Manager.getBatchStatus
      split
      next =>
        exact within_optimistic (Routine.within_guarded (Routine.within_get fun _ hidle =>
          hidle.getBatchStatus batchId)) fun _ => changes_refl
      next =>
        split
        next =>
          exact within_zk (Routine.within_guarded (Routine.within_get fun _ hidle =>
            hidle.getBatchStatus batchId)) fun _ => changes_refl
        next => rfl
    · rintro _ held rfl
      rfl
  | challengeStateRoot batchId challenger proof now resolved =>
    refine Routine.Within.bind (P := fun result => result = .error
      (if rollupType = .zkRollup then .rollupNotInitialized else .batchNotFound)) ?_ ?_
    · cases rollupType with
      | zkRollup => rfl
      -- the hybrid manager looks in the optimistic rollup first, and finds nothing
      | optimistic | hybrid =>
        exact within_optimistic (within_challengeStateRoot env batchId challenger proof now
          resolved) fun _ => changes_refl
    · rintro _ held rfl
      rfl
  | finalizeBatch batchId now =>
    refine Routine.Within.bind (P := fun result => result = .error .batchNotFound) ?_ ?_
    · cases rollupType with
      | optimistic =>
        exact within_optimistic (within_finalizeBatch batchId now) fun _ => changes_refl
      | zkRollup => exact within_zk (within_finalizing batchId) fun _ => changes_refl
      | hybrid =>
        refine Routine.Within.bind (P := fun found => found = false) ?_ ?_
        · exact within_optimistic (Routine.within_guarded (Routine.within_get fun _ hidle =>
            hidle.hasBatch batchId)) fun _ => changes_refl
        · rintro _ held rfl
          refine Routine.Within.of_nil ?_ held
          exact within_zk (within_finalizing batchId) fun _ => changes_refl
    · rintro _ held rfl
      rfl

end Calls

/-! ## Runs -/

namespace Layer2Manager

variable {ι : Type} [DecidableEq ι]

/-- A manager whose calls have not started. -/
def begin (env : RollupEnv) (config : Layer2Config) (daLayer : DataAvailabilityLayer)
    (rollupType : RollupType) (calls : ι → Layer2Call) :
    Config ι Layer2Lock Layer2State Layer2Answer :=
  Config.start (.new config daLayer) fun i => (new rollupType).routine env (calls i)

variable (env : RollupEnv) (config : Layer2Config) (daLayer : DataAvailabilityLayer)
  (rollupType : RollupType) (calls : ι → Layer2Call)
  {c : Config ι Layer2Lock Layer2State Layer2Answer} {is : List ι}

theorem withinAll_begin : (begin env config daLayer rollupType calls).WithinAll
    (Layer2State.Idle config daLayer) (fun i => (calls i).Changes config daLayer rollupType)
    (fun i answer => (calls i).Answered env rollupType answer) where
  state := ⟨rfl, rfl⟩
  rest i := within_routine env rollupType (calls i)

/-- Whatever calls are made and however they interleave, there is never a batch, a challenge or a
state root, and the sequencer does not move. So no batch has a status, none is challenged and none
is finalized. -/
theorem no_batch_of_run
    (hrun : Run Config.step (fun _ _ => True) (begin env config daLayer rollupType calls) is c) :
    c.state.Idle config daLayer ∧
      ∀ i answer, c.rest i = .ret answer → (calls i).Answered env rollupType answer := by
  have hwithin := (withinAll_begin env config daLayer rollupType calls).run
    (fun _ _ _ hchanges => hchanges.idle) hrun
  exact ⟨hwithin.state, fun i answer hret => hwithin.returned hret⟩

instance : Inhabited Transaction :=
  ⟨{ id := default, sender := default, recipient := default, value := 0, data := [], nonce := 0
     gasPrice := 0, gasLimit := 0, signature := [], requiresInstantFinality := false }⟩

theorem lawful_queue (side : RollupSide) :
    side.queue.Lawful (Layer2State.Idle config daLayer) config.batchSize where
  push tx s := by cases side <;> rfl
  full s hs := by
    cases side with
    | optimistic =>
      change s.optimisticRollup.config.batchSize ≤ _ ↔ _
      rw [hs.optimisticRollup]
      rfl
    | zk =>
      change s.zkRollup.config.batchSize ≤ _ ↔ _
      rw [hs.zkRollup]
      rfl

/-- The calls that queue something fill the queue. -/
theorem exists_fill (side : RollupSide) (call : Layer2Call) :
    ∃ flush answer, (call.queued rollupType side).isSome →
      (new rollupType).routine env call
        = side.queue.fill ((call.queued rollupType side).getD default) flush answer := by
  cases hqueued : call.queued rollupType side with
  | none => exact ⟨.panic, .status none, fun h => by cases h⟩
  | some tx =>
    cases call with
    | submitTransaction tx' clock batchId now =>
      change (if rollupType.side tx' = side ∧ side.accepts tx' = true then some tx' else none)
        = some tx at hqueued
      split at hqueued
      next hside =>
        obtain rfl := Option.some.inj hqueued
        rcases routine_submitTransaction env tx' rollupType clock batchId now with
          ⟨-, flush, hfill⟩ | ⟨hrefuses, -⟩
        · rw [hside.1] at hfill
          exact ⟨flush, _, fun _ => hfill⟩
        · rw [hside.1, hside.2] at hrefuses
          cases hrefuses
      next => cases hqueued
    | createStateChannel | getBatchStatus | challengeStateRoot | finalizeBatch => cases hqueued

/-- The queue of each rollup holds transactions of calls in an order, each call once. A submission
that has returned is among these calls, but not the one that has filled the batch: fewer than a
batch have returned. Once there are enough for a batch, the queue stays as it is for ever, and no
submission to this rollup returns any more. -/
theorem submissions_of_run (side : RollupSide)
    (hrun : Run Config.step (fun _ _ => True) (begin env config daLayer rollupType calls) is c) :
    (∃ past : List ι, past.Nodup ∧
      (side.pending c.state).map some = past.map (fun i => (calls i).queued rollupType side) ∧
      ∀ i answer, ((calls i).queued rollupType side).isSome → c.rest i = .ret answer →
        i ∈ past ∧ (config.batchSize ≤ past.length → past.getLast? ≠ some i)) ∧
    (∀ done : Finset ι, (∀ i ∈ done, ((calls i).queued rollupType side).isSome ∧
      ∃ answer, c.rest i = .ret answer) → done.card < max 1 config.batchSize) ∧
    (max 1 config.batchSize ≤ (side.pending c.state).length → ∀ is' c',
      Run Config.step (fun _ _ => True) c is' c' →
        side.pending c'.state = side.pending c.state ∧
        ∀ i answer, ((calls i).queued rollupType side).isSome → c'.rest i = .ret answer →
          ∃ before, c.rest i = .ret before) := by
  -- each submission is a call that fills the queue of its side
  choose flush answer hfill using fun i => exists_fill env rollupType side (calls i)
  have hstart : (begin env config daLayer rollupType calls).Fills side.queue
      (fun i => ((calls i).queued rollupType side).isSome)
      (fun i => ((calls i).queued rollupType side).getD default) flush answer config.batchSize
      (Layer2State.Idle config daLayer) (fun i => (calls i).Changes config daLayer rollupType)
      (fun i answer => (calls i).Answered env rollupType answer) :=
    { lawful := lawful_queue config daLayer side
      exclusive := Config.exclusive_start _ _
      within := withinAll_begin env config daLayer rollupType calls
      queued := ⟨_, [], Config.queued_start hfill (by cases side <;> rfl)⟩ }
  have hR : ∀ i s s', (calls i).Changes config daLayer rollupType s s' → s'.Idle config daLayer :=
    fun _ _ _ hchanges => hchanges.idle
  -- the other calls leave the queue of this side
  have hothers : ∀ i, ¬ ((calls i).queued rollupType side).isSome = true → ∀ s s',
      (calls i).Changes config daLayer rollupType s s' →
        side.queue.queue s' = side.queue.queue s := by
    intro i hi s s' hchanges
    have hpending := hchanges.pending side (Option.not_isSome_iff_eq_none.mp hi)
    cases side with
    | optimistic | zk => exact hpending
  have hqueue : ∀ s, side.queue.queue s = side.pending s := fun s => by cases side <;> rfl
  have hend := hstart.run hR hothers hrun
  refine ⟨?_, hend.card_lt, fun hfull is' c' hrun' => ?_⟩
  · obtain ⟨past, hnodup, hfills, hpast, -, hreturned⟩ := hend.returned
    refine ⟨past, hnodup, ?_, hreturned⟩
    rw [← hqueue, hpast, List.map_map]
    refine List.map_congr_left fun i hi => ?_
    obtain ⟨tx, htx⟩ := Option.isSome_iff_exists.mp (hfills i hi)
    rw [Function.comp_apply, htx]
    rfl
  · rw [← hqueue] at hfull
    have hfrozen := hend.frozen hR hothers hfull hrun'
    rw [hqueue, hqueue] at hfrozen
    exact hfrozen

local instance threeTasks : NeZero 3 := ⟨by decide⟩

/-- Two submissions, and a question. -/
def sampleSubmissions (i : Fin 3) : Layer2Call :=
  if i = 2 then .getBatchStatus (fromLowU64BE 1)
  else .submitTransaction OptimisticRollup.sampleTx OptimisticRollup.sampleClock (fromLowU64BE 1)
    (.ofNat 0)

/-- There is room for two transactions in a batch. -/
def sampleBegin : Config (Fin 3) Layer2Lock Layer2State Layer2Answer :=
  begin OptimisticRollup.sampleRollupEnv ⟨2, 100, 1000⟩ OptimisticRollup.samplePlainLayer
    .optimistic sampleSubmissions

/-- The first submission returns, the question is answered, and the second submission fills the
batch. -/
def sampleSchedule : List (Fin 3) := [0, 0, 0, 0, 2, 2, 2, 1, 1, 1]

theorem replays_sampleBegin : (replay Config.step sampleBegin sampleSchedule).isSome := by
  decide +kernel

/-- What the schedule comes to. -/
def sampleEnd : Config (Fin 3) Layer2Lock Layer2State Layer2Answer :=
  (replay Config.step sampleBegin sampleSchedule).get replays_sampleBegin

theorem run_sampleEnd : Run Config.step (fun _ _ => True) sampleBegin sampleSchedule sampleEnd :=
  run_of_replay (Option.some_get replays_sampleBegin).symm

theorem no_batch_of_run_sample :
    sampleEnd.state.Idle ⟨2, 100, 1000⟩ OptimisticRollup.samplePlainLayer ∧
      ∀ answer, sampleEnd.rest 2 = .ret answer → answer = .status none :=
  ⟨(no_batch_of_run _ _ _ _ _ run_sampleEnd).1, (no_batch_of_run _ _ _ _ _ run_sampleEnd).2 2⟩

/-- The second submission asks for the lock that it holds. -/
theorem submissions_of_run_sample :
    sampleEnd.asks 1 = some ⟨.optimistic .pendingTransactions, .write⟩ ∧
      ∀ is c, Run Config.step (fun _ _ => True) sampleEnd is c →
        ∀ answer, c.rest 1 ≠ .ret answer := by
  have hasks : sampleEnd.asks 1 = some ⟨.optimistic .pendingTransactions, .write⟩ := by
    decide +kernel
  refine ⟨hasks, fun is c hrun answer hret => ?_⟩
  obtain ⟨-, -, hfrozen⟩ := submissions_of_run _ _ _ _ _ .optimistic run_sampleEnd
  obtain ⟨before, hbefore⟩ := (hfrozen (by decide +kernel) is c hrun).2 1 answer
    (by decide +kernel) hret
  rw [Config.asks, hbefore] at hasks
  cases hasks

end Layer2Manager

end InterBit.Layer2
