import InterBit.Mev.Protection
import Mathlib.Data.List.AList

/-!
# The batch auction

`dex/mev_protection/batch_auction.rs`. Orders wait in a queue and in the current batch; a batch is
executed as a whole, higher bids first and shuffled within a bid. The ids of batches, the readings
of the clock and the shuffle come from outside. The snapshot that the simulation is given has only
nonces in it.
-/

namespace InterBit.Mev

/-- `struct BatchOrder`. -/
structure BatchOrder where
  tx : ProtectedTransaction
  bidPrice : U256
  priorityFee : U256
  submissionTime : U64
  deriving DecidableEq

/-- `enum BatchStatus`. -/
inductive BatchStatus where
  | collecting
  | sealed
  | executing
  | completed
  | failed
  deriving DecidableEq

/-- `struct Batch`. -/
structure Batch where
  id : H256
  orders : List BatchOrder
  startTime : U64
  endTime : U64
  status : BatchStatus

/-- `struct BatchAuctionManager`; the interval is in nanoseconds. -/
structure BatchAuctionManager where
  currentBatch : Option Batch
  pendingOrders : List BatchOrder
  executedBatches : AList fun _ : H256 => Batch
  batchInterval : Nat
  minBatchSize : Nat
  maxBatchSize : Nat
  fairOrderingEnabled : Bool

/-- What the auction takes from outside the repository. -/
structure AuctionEnv extends KeccakEnv where
  /-- `shuffle`, by the generator of a seed. -/
  shuffle : H256 → List BatchOrder → List BatchOrder
  shuffle_perm : ∀ seed group, (shuffle seed group).Perm group

/-- What `submit_to_batch` reads from the clock, and the id that it draws for a new batch. -/
structure SubmitDraw where
  submissionTime : U64
  sealTime : U64
  startTime : U64
  endTime : U64
  batchId : H256

/-- `calculate_priority_fee`. -/
def calculatePriorityFee (tx : ProtectedTransaction) : U256 :=
  if 1000000000 < tx.gasPrice then tx.gasPrice - 1000000000 else 0

/-- `price_groups.entry(order.bid_price).or_insert_with(Vec::new).push(order)`, in a map that is
sorted by price. -/
def pushPrice (order : BatchOrder) :
    List (U256 × List BatchOrder) → List (U256 × List BatchOrder)
  | [] => [(order.bidPrice, [order])]
  | (price, group) :: groups =>
    if order.bidPrice = price then (price, group ++ [order]) :: groups
    else if order.bidPrice < price then (order.bidPrice, [order]) :: (price, group) :: groups
    else (price, group) :: pushPrice order groups

/-- `calculate_group_hash`. -/
def calculateGroupHash (env : AuctionEnv) (group : List BatchOrder) : H256 :=
  env.keccak256 (group.flatMap fun order => order.tx.txHash.toList)

/-- A group in the order of submission, shuffled. -/
def shuffleGroup (env : AuctionEnv) (group : List BatchOrder) : List BatchOrder :=
  let sorted := group.mergeSort fun a b => a.submissionTime ≤ b.submissionTime
  env.shuffle (calculateGroupHash env sorted) sorted

/-- `order_batch_fairly`. -/
def orderBatchFairly (env : AuctionEnv) (fairOrderingEnabled : Bool) (batch : Batch) :
    List ProtectedTransaction :=
  if fairOrderingEnabled then
    let priceGroups := batch.orders.foldl (fun groups order => pushPrice order groups) []
    (priceGroups.reverse.flatMap fun g => shuffleGroup env g.2).map (·.tx)
  else (batch.orders.mergeSort fun a b => b.bidPrice ≤ a.bidPrice).map (·.tx)

/-- `simulate_transaction`. -/
def simulateTransaction (_tx : ProtectedTransaction) (_nonces : AList fun _ : Address => U64) :
    Except MevProtectionError Bool := .ok true

/-- The loop of `execute_ordered_transactions`; `none` is a panic. -/
def executeOrderedTransactions (env : Env) :
    List ProtectedTransaction → (AList fun _ : Address => U64) → Option (List ProtectedTransaction)
  | [], _ => some []
  | tx :: txs, nonces =>
    match simulateTransaction tx nonces with
    | .ok true => do
      let nonce ← env.add64 tx.nonce 1
      let results ← executeOrderedTransactions env txs (nonces.insert tx.sender nonce)
      some (tx :: results)
    | _ => executeOrderedTransactions env txs nonces

namespace BatchAuctionManager

/-- `BatchAuctionManager::new`. -/
def new (batchInterval : Nat) : BatchAuctionManager where
  currentBatch := none
  pendingOrders := []
  executedBatches := ∅
  batchInterval
  minBatchSize := 10
  maxBatchSize := 1000
  fairOrderingEnabled := true

/-- `should_seal_batch`; `none` is a panic, when the clock has gone back. -/
def shouldSealBatch (env : Env) (manager : BatchAuctionManager) (currentTime : U64) :
    Option Bool :=
  match manager.currentBatch with
  | none => some false
  | some batch => do
    let elapsed ← env.sub64 currentTime batch.startTime
    some (manager.batchInterval ≤ elapsed.toNat ∨ manager.maxBatchSize ≤ batch.orders.length)

/-- `create_new_batch`. -/
def createNewBatch (manager : BatchAuctionManager) (draw : SubmitDraw) : BatchAuctionManager :=
  { manager with
    currentBatch := some
      { id := draw.batchId
        orders := manager.pendingOrders.take manager.maxBatchSize
        startTime := draw.startTime
        endTime := draw.endTime
        status := .collecting }
    pendingOrders := manager.pendingOrders.drop manager.maxBatchSize }

/-- The end of `submit_to_batch`: the order goes into the batch, if there is room. -/
def pushOrder (manager : BatchAuctionManager) (order : BatchOrder) : BatchAuctionManager :=
  match manager.currentBatch with
  | none => manager
  | some batch =>
    if batch.orders.length < manager.maxBatchSize then
      { manager with currentBatch := some { batch with orders := batch.orders ++ [order] } }
    else manager

/-- Whether `submit_to_batch` makes a new batch; `none` is a panic. -/
def needsBatch (env : Env) (manager : BatchAuctionManager) (currentTime : U64) : Option Bool :=
  match manager.currentBatch with
  | none => some true
  | some _ => manager.shouldSealBatch env currentTime

/-- The beginning of `submit_to_batch`: the order goes into the queue. -/
def enqueue (manager : BatchAuctionManager) (order : BatchOrder) : BatchAuctionManager :=
  { manager with pendingOrders := manager.pendingOrders ++ [order] }

/-- The order of a transaction. -/
def newOrder (tx : ProtectedTransaction) (submissionTime : U64) : BatchOrder where
  tx
  bidPrice := tx.gasPrice
  priorityFee := calculatePriorityFee tx
  submissionTime

/-- `submit_to_batch`. -/
def submitToBatch (env : Env) (manager : BatchAuctionManager) (tx : ProtectedTransaction)
    (draw : SubmitDraw) : BatchAuctionManager × Outcome H256 :=
  let order := newOrder tx draw.submissionTime
  let queued := manager.enqueue order
  match queued.needsBatch env draw.sealTime with
  | none => (queued, none)
  | some fresh =>
    ((if fresh then queued.createNewBatch draw else queued).pushOrder order,
      some (.ok tx.txHash))

/-- `execute_batch`. -/
def executeBatch (env : AuctionEnv) (manager : BatchAuctionManager) (endTime : U64) :
    BatchAuctionManager × Outcome (List ProtectedTransaction) :=
  match manager.currentBatch with
  | none => (manager, some (.ok []))
  | some batch =>
    let taken := { manager with currentBatch := none }
    if batch.orders.length < manager.minBatchSize then
      (taken, some (.error (.batchAuctionFailed "Batch size below minimum")))
    else
      let orderedTxs := orderBatchFairly env manager.fairOrderingEnabled batch
      match executeOrderedTransactions env.toEnv orderedTxs ∅ with
      | none => (taken, none)
      | some results =>
        let executed := { batch with status := .completed, endTime }
        ({ taken with executedBatches := taken.executedBatches.insert batch.id executed },
          some (.ok results))

/-- The transactions in the current batch. -/
def batched (manager : BatchAuctionManager) : List ProtectedTransaction :=
  (manager.currentBatch.elim [] (·.orders)).map (·.tx)

/-- The transactions in the queue. -/
def pending (manager : BatchAuctionManager) : List ProtectedTransaction :=
  manager.pendingOrders.map (·.tx)

@[simp] theorem pending_enqueue (manager : BatchAuctionManager) (order : BatchOrder) :
    (manager.enqueue order).pending = manager.pending ++ [order.tx] := List.map_append

@[simp] theorem needsBatch_enqueue (env : Env) (manager : BatchAuctionManager)
    (order : BatchOrder) (currentTime : U64) :
    (manager.enqueue order).needsBatch env currentTime = manager.needsBatch env currentTime := rfl

@[simp] theorem pending_createNewBatch (manager : BatchAuctionManager) (draw : SubmitDraw) :
    (manager.createNewBatch draw).pending = manager.pending.drop manager.maxBatchSize :=
  List.map_drop

@[simp] theorem batched_createNewBatch (manager : BatchAuctionManager) (draw : SubmitDraw) :
    (manager.createNewBatch draw).batched = manager.pending.take manager.maxBatchSize :=
  List.map_take

/-- An order is pushed if there is room for it. -/
theorem pushOrder_eq (manager : BatchAuctionManager) (order : BatchOrder) :
    manager.pushOrder order =
      { manager with currentBatch := manager.currentBatch.map fun batch =>
          if batch.orders.length < manager.maxBatchSize then
            { batch with orders := batch.orders ++ [order] }
          else batch } := by
  obtain ⟨current, _, _, _, _, max, _⟩ := manager
  cases current with
  | none => rfl
  | some batch =>
    unfold pushOrder
    dsimp only [Option.map_some]
    split
    next => rfl
    next => rfl

theorem isSome_pushOrder (manager : BatchAuctionManager) (order : BatchOrder) :
    (manager.pushOrder order).currentBatch.isSome = manager.currentBatch.isSome := by
  rw [pushOrder_eq, Option.isSome_map]

@[simp] theorem pending_pushOrder (manager : BatchAuctionManager) (order : BatchOrder) :
    (manager.pushOrder order).pending = manager.pending := by
  rw [pushOrder_eq]
  rfl

/-- The batch gets the order, unless it is full. -/
theorem batched_pushOrder (manager : BatchAuctionManager) (order : BatchOrder) :
    (manager.pushOrder order).batched = manager.batched ++
      if manager.currentBatch.isSome ∧ manager.batched.length < manager.maxBatchSize then [order.tx]
      else [] := by
  rw [pushOrder_eq]
  unfold batched
  cases manager.currentBatch with
  | none => rfl
  | some batch =>
    simp only [Option.map_some, Option.elim_some, List.length_map, Option.isSome_some, true_and]
    split
    next => exact List.map_append
    next => exact (List.append_nil _).symm

end BatchAuctionManager

/-! ## What a batch returns -/

theorem pushPrice_perm (order : BatchOrder) (groups : List (U256 × List BatchOrder)) :
    ((pushPrice order groups).flatMap (·.2)).Perm (order :: groups.flatMap (·.2)) := by
  induction groups with
  | nil => exact .refl _
  | cons g groups ih =>
    obtain ⟨price, group⟩ := g
    unfold pushPrice
    split
    next =>
      show ((group ++ [order]) ++ groups.flatMap (·.2)).Perm
        (order :: (group ++ groups.flatMap (·.2)))
      rw [List.append_assoc]
      exact List.perm_middle
    next =>
      split
      next => exact .refl _
      next =>
        show (group ++ (pushPrice order groups).flatMap (·.2)).Perm
          (order :: (group ++ groups.flatMap (·.2)))
        exact (ih.append_left group).trans List.perm_middle

theorem priceGroups_perm (orders : List BatchOrder) :
    ∀ groups : List (U256 × List BatchOrder),
      ((orders.foldl (fun groups order => pushPrice order groups) groups).flatMap (·.2)).Perm
        (groups.flatMap (·.2) ++ orders) := by
  induction orders with
  | nil =>
    intro groups
    rw [List.append_nil]
    exact .refl _
  | cons order orders ih =>
    intro groups
    refine (ih (pushPrice order groups)).trans ?_
    exact ((pushPrice_perm order groups).append_right orders).trans List.perm_middle.symm

theorem shuffleGroup_perm (env : AuctionEnv) (group : List BatchOrder) :
    (shuffleGroup env group).Perm group :=
  (env.shuffle_perm _ _).trans (List.mergeSort_perm _ _)

/-- The order of a batch is a permutation of it. -/
theorem orderBatchFairly_perm (env : AuctionEnv) (fair : Bool) (batch : Batch) :
    (orderBatchFairly env fair batch).Perm (batch.orders.map (·.tx)) := by
  unfold orderBatchFairly
  split
  next =>
    refine List.Perm.map _ ?_
    refine List.Perm.trans ?_ (priceGroups_perm batch.orders [])
    refine List.Perm.trans ?_ ((List.reverse_perm _).flatMap_right _)
    exact List.Perm.flatMap_left _ fun g _ => shuffleGroup_perm env g.2
  next => exact (List.mergeSort_perm _ _).map _

/-- No transaction is dropped, unless a nonce overflows. -/
theorem executeOrderedTransactions_eq {env : Env} {txs results : List ProtectedTransaction} :
    ∀ {nonces : AList fun _ : Address => U64},
      executeOrderedTransactions env txs nonces = some results → results = txs := by
  induction txs generalizing results with
  | nil => exact fun h => (Option.some.inj h).symm
  | cons tx txs ih =>
    intro nonces h
    simp only [executeOrderedTransactions, simulateTransaction, Option.bind_eq_bind,
      Option.bind_eq_some_iff] at h
    obtain ⟨nonce, _, rest, hrest, heq⟩ := h
    rw [← Option.some.inj heq, ih hrest]

end InterBit.Mev
