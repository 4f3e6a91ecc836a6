import InterBit.CrossChain.Types
import InterBit.StateMachine.Executor

/-!
# The relayer

`cross_chain/relayer.rs`. A message that is submitted is pushed to the queue and inserted into the
pending messages. The copy in the queue stays pending for ever and goes round; the one in the map is
confirmed, and a copy of it is pushed to the queue once it is ready. Whether `relay_message`
succeeds is an argument. The history is not in the code.
-/

namespace InterBit.CrossChain

open InterBit.StateMachine (IterOrder)

/-- `enum RelayStatus`. -/
inductive RelayStatus where
  | pending
  | confirming
  | ready
  | relayed
  | failed
  deriving DecidableEq

/-- `struct RelayMessage`. -/
structure RelayMessage where
  id : H256
  sourceChain : U64
  destinationChain : U64
  nonce : U64
  payload : List UInt8
  timestamp : U64
  confirmations : U64
  status : RelayStatus
  retryCount : BitVec 32

/-- `struct RelayerConfig`, without the interval between two ticks. -/
structure RelayerConfig where
  minConfirmations : U64
  batchSize : Nat
  maxRetryAttempts : BitVec 32

/-- What a relayer has done. -/
inductive RelayEvent where
  /-- A message has been submitted. -/
  | submitted (id : H256)
  /-- `process_pending_messages` has gone through the pending messages. -/
  | confirmed
  /-- `relay_message` has been called. -/
  | called (id : H256) (succeeded : Bool)
  /-- A message has been moved to the relayed messages. -/
  | moved (id : H256)
  deriving DecidableEq

/-- `struct Relayer`, and its history. -/
structure Relayer where
  config : RelayerConfig
  messageQueue : List RelayMessage
  pendingMessages : AList fun _ : H256 => RelayMessage
  relayedMessages : AList fun _ : H256 => RelayMessage
  chainNonces : AList fun _ : U64 => U64
  history : List RelayEvent

/-- `struct RelayerStats`. -/
structure RelayerStats where
  pendingCount : Nat
  relayedCount : Nat
  queueSize : Nat
  failedCount : Nat
  deriving DecidableEq

namespace Relayer

variable (env : Env)

/-- `Relayer::new`. -/
def new (config : RelayerConfig) : Relayer := ⟨config, [], ∅, ∅, ∅, []⟩

/-- Something has happened. -/
def record (relayer : Relayer) (event : RelayEvent) : Relayer :=
  { relayer with history := relayer.history ++ [event] }

/-! ## Submission -/

/-- `get_next_nonce`; a panic leaves the entry that `or_insert` has made. -/
def getNextNonce (relayer : Relayer) (chainId : U64) : Relayer × Option U64 :=
  let nonce := (relayer.chainNonces.lookup chainId).getD 0
  match env.add64 nonce 1 with
  | none => ({ relayer with chainNonces := relayer.chainNonces.insert chainId nonce }, none)
  | some nonce =>
    ({ relayer with chainNonces := relayer.chainNonces.insert chainId nonce }, some nonce)

/-- The message of a transfer. -/
def message (transferId : H256) (nonce : U64) (now : Seconds) : RelayMessage where
  id := transferId
  sourceChain := 1
  destinationChain := 2
  nonce
  payload := []
  timestamp := now.val
  confirmations := 0
  status := .pending
  retryCount := 0

/-- Put a message into the queue and among the pending messages. -/
def push (relayer : Relayer) (transferId : H256) (message : RelayMessage) : Relayer :=
  { relayer with
    messageQueue := relayer.messageQueue ++ [message]
    pendingMessages := relayer.pendingMessages.insert transferId message }

/-- `submit_transfer`. -/
def submitTransfer (relayer : Relayer) (transferId : H256) (now : Seconds) :
    Relayer × Outcome Unit :=
  match relayer.getNextNonce env 1 with
  | (relayer, none) => (relayer, none)
  | (relayer, some nonce) =>
    ((relayer.push transferId (message transferId nonce now)).record (.submitted transferId),
      some (.ok ()))

/-! ## Confirmation -/

/-- One more confirmation; `none` is a panic. -/
def confirm (config : RelayerConfig) (message : RelayMessage) : Option RelayMessage :=
  match env.add64 message.confirmations 1 with
  | none => none
  | some confirmations =>
    -- only the entry in the map changes: the copy in the queue stays pending
    if config.minConfirmations ≤ confirmations then
      some { message with confirmations, status := .ready }
    else some { message with confirmations }

/-- The loop over the pending messages, with the messages that have become ready. -/
def confirmAll (config : RelayerConfig) : List (Sigma fun _ : H256 => RelayMessage) →
    (AList fun _ : H256 => RelayMessage) → List RelayMessage →
    (AList fun _ : H256 => RelayMessage) × Option (List RelayMessage)
  | [], pending, updated => (pending, some updated)
  | ⟨id, message⟩ :: entries, pending, updated =>
    if message.status = .pending then
      match confirm env config message with
      | none => (pending, none)
      | some message =>
        confirmAll config entries (pending.insert id message)
          (if message.status = .ready then updated ++ [message] else updated)
    else confirmAll config entries pending updated

/-- `process_pending_messages`. -/
def processPendingMessages (relayer : Relayer)
    (order : IterOrder (Sigma fun _ : H256 => RelayMessage)) : Relayer × Outcome Unit :=
  let relayer := relayer.record .confirmed
  match confirmAll env relayer.config (order.arrange relayer.pendingMessages.entries)
      relayer.pendingMessages [] with
  | (pendingMessages, none) => ({ relayer with pendingMessages }, none)
  | (pendingMessages, some updated) =>
    ({ relayer with
        pendingMessages
        messageQueue := relayer.messageQueue ++ updated.filter (·.status = .ready) },
      some (.ok ()))

/-! ## Relaying -/

/-- The loop that takes the ready messages out of the queue: what is left of the queue, and the
batch. -/
def takeBatch : Nat → List RelayMessage → List RelayMessage →
    List RelayMessage × List RelayMessage
  | 0, queue, batch => (queue, batch)
  | n + 1, [], batch => takeBatch n [] batch
  | n + 1, message :: queue, batch =>
    if message.status = .ready then takeBatch n queue (batch ++ [message])
    -- what is not ready goes round
    else takeBatch n (queue ++ [message]) batch

/-- One message of the batch; `none` is a panic. -/
def relayOne (relayer : Relayer) (message : RelayMessage) (succeeds : Bool) :
    Relayer × Outcome Unit :=
  let relayer := relayer.record (.called message.id succeeds)
  if succeeds then
    (({ relayer with
        relayedMessages :=
          relayer.relayedMessages.insert message.id { message with status := .relayed }
        pendingMessages := relayer.pendingMessages.erase message.id }).record (.moved message.id),
      some (.ok ()))
  else
    match env.succ32 message.retryCount with
    | none => (relayer, none)
    | some retryCount =>
      -- the copy that has failed for good is dropped, and the entry in the map stays ready
      if relayer.config.maxRetryAttempts ≤ retryCount then (relayer, some (.ok ()))
      else
        ({ relayer with
            messageQueue := relayer.messageQueue ++ [{ message with retryCount }] },
          some (.ok ()))

/-- The loop over the batch; `succeeds i` says whether the `i`-th call of `relay_message` does. -/
def relayBatch (relayer : Relayer) : List RelayMessage → (Nat → Bool) → Relayer × Outcome Unit
  | [], _ => (relayer, some (.ok ()))
  | message :: batch, succeeds =>
    match relayer.relayOne env message (succeeds 0) with
    | (relayer, some (.ok ())) => relayer.relayBatch batch fun i => succeeds (i + 1)
    -- a panic loses the rest of the batch
    | stopped => stopped

/-- `relay_ready_messages`. -/
def relayReadyMessages (relayer : Relayer) (succeeds : Nat → Bool) : Relayer × Outcome Unit :=
  let batchSize := min relayer.config.batchSize relayer.messageQueue.length
  let (messageQueue, batch) := takeBatch batchSize relayer.messageQueue []
  ({ relayer with messageQueue }).relayBatch env batch succeeds

/-! ## What is asked for -/

/-- `get_message_status`. -/
def getMessageStatus (relayer : Relayer) (messageId : H256) : Option RelayStatus :=
  match relayer.pendingMessages.lookup messageId with
  | some message => some message.status
  | none => (relayer.relayedMessages.lookup messageId).map RelayMessage.status

/-- `get_stats`. -/
def getStats (relayer : Relayer) : RelayerStats where
  pendingCount := relayer.pendingMessages.entries.length
  relayedCount := relayer.relayedMessages.entries.length
  queueSize := relayer.messageQueue.length
  failedCount := relayer.pendingMessages.entries.countP fun entry => entry.2.status = .failed

end Relayer

/-! ## Runs -/

/-- What happens to a relayer. A tick of `relay_loop` is a `process` and then a `relay`, and a
message can be submitted in between. -/
inductive RelayCall where
  | submit (transferId : H256) (now : Seconds)
  | process (order : IterOrder (Sigma fun _ : H256 => RelayMessage))
  | relay (succeeds : Nat → Bool)

/-- The message that is submitted. -/
def RelayCall.submitted : RelayCall → Option H256
  | .submit transferId _ => some transferId
  | _ => none

/-- One call. -/
def Relayer.next (env : Env) (relayer : Relayer) : RelayCall → Relayer
  | .submit transferId now => (relayer.submitTransfer env transferId now).1
  | .process order => (relayer.processPendingMessages env order).1
  | .relay succeeds => (relayer.relayReadyMessages env succeeds).1

end InterBit.CrossChain
