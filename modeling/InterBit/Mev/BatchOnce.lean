import InterBit.Lib.Trace
import InterBit.Mev.BatchAuction

/-!
# No transaction is lost or returned twice, until a batch is closed

`submit_to_batch` puts an order into the queue, moves the queue into a new batch if there is none,
and then pushes the order into the batch as well. So the first order of a batch is in it twice and
nowhere else, and the later ones are in the batch and still in the queue. As long as no batch is
executed or replaced this does no harm: `exactlyOnce_iff` says that the auction keeps every
transaction, and returns none twice, exactly in the runs in which that never happens. The first
`execute_batch` that finds a batch either returns its first transaction twice, or drops it.
-/

namespace InterBit.Mev

open InterBit.Lib BatchAuctionManager

/-- A call. -/
inductive AuctionCall where
  | submit (tx : ProtectedTransaction) (draw : SubmitDraw)
  | execute (endTime : U64)

/-- An auction, with what its callers have given to it and got from it. -/
structure AuctionSession where
  manager : BatchAuctionManager
  submitted : List ProtectedTransaction
  accepted : List ProtectedTransaction
  returned : List ProtectedTransaction

namespace AuctionSession

/-- A new auction. -/
def new (batchInterval : Nat) : AuctionSession := ⟨.new batchInterval, [], [], []⟩

/-- A transaction that is accepted. -/
def accept (session : AuctionSession) (manager : BatchAuctionManager) (tx : ProtectedTransaction) :
    AuctionSession :=
  { session with
    manager
    submitted := session.submitted ++ [tx]
    accepted := session.accepted ++ [tx] }

/-- One call. -/
def next (env : AuctionEnv) (session : AuctionSession) : AuctionCall → AuctionSession
  | .submit tx draw =>
    match session.manager.submitToBatch env.toEnv tx draw with
    | (manager, some (.ok _)) => session.accept manager tx
    | (manager, _) => { session with manager, submitted := session.submitted ++ [tx] }
  | .execute endTime =>
    match session.manager.executeBatch env endTime with
    | (manager, some (.ok txs)) => { session with manager, returned := session.returned ++ txs }
    | (manager, _) => { session with manager }

/-- The transactions in the batch and in the queue. -/
def held (session : AuctionSession) : List ProtectedTransaction :=
  session.manager.batched ++ session.manager.pending

/-- No transaction is returned more often than it has been accepted, and each that has been
accepted and not returned is in the batch or in the queue. -/
def ExactlyOnce (session : AuctionSession) : Prop :=
  ∀ tx, session.returned.count tx ≤ session.accepted.count tx ∧
    session.accepted.count tx ≤ session.returned.count tx + session.held.count tx

/-- A call neither executes a batch nor replaces one. -/
def Undisturbed (env : AuctionEnv) (session : AuctionSession) : AuctionCall → Prop
  | .submit _ draw => session.manager.shouldSealBatch env.toEnv draw.sealTime ≠ some true
  | .execute _ => session.manager.currentBatch = none

instance (env : AuctionEnv) (session : AuctionSession) : ∀ call : AuctionCall,
    Decidable (session.Undisturbed env call)
  | .submit _ draw =>
    inferInstanceAs
      (Decidable (session.manager.shouldSealBatch env.toEnv draw.sealTime ≠ some true))
  | .execute _ => decidable_of_iff _ Option.isNone_iff_eq_none

theorem next_submit (env : AuctionEnv) (session : AuctionSession) (tx : ProtectedTransaction)
    (draw : SubmitDraw) :
    session.next env (.submit tx draw) =
      let order := newOrder tx draw.submissionTime
      let queued := session.manager.enqueue order
      match session.manager.needsBatch env.toEnv draw.sealTime with
      | none => { session with manager := queued, submitted := session.submitted ++ [tx] }
      | some fresh =>
        session.accept ((if fresh then queued.createNewBatch draw else queued).pushOrder order)
          tx := by
  unfold next submitToBatch
  dsimp only
  rw [needsBatch_enqueue]
  cases session.manager.needsBatch env.toEnv draw.sealTime with
  | none => rfl
  | some fresh => rfl

/-! ## One batch -/

/-- Either nothing has been submitted, or the first transaction is in the batch twice, and only
there, and the others are in the queue. -/
inductive OneBatch (session : AuctionSession) : Prop
  | empty : session.manager.currentBatch = none → session.submitted = session.manager.pending →
      session.manager.pending = [] → OneBatch session
  | collecting (first : ProtectedTransaction) : session.manager.currentBatch.isSome →
      session.submitted = first :: session.manager.pending → first ∈ session.accepted →
      2 ≤ session.manager.batched.count first → OneBatch session

/-- What undisturbed calls preserve. -/
structure Inv (session : AuctionSession) : Prop where
  max : session.manager.maxBatchSize = 1000
  accepted : session.accepted.Sublist session.submitted
  returned : session.returned = []
  oneBatch : OneBatch session

theorem inv_new (batchInterval : Nat) : Inv (new batchInterval) :=
  ⟨rfl, .refl _, rfl, .empty rfl rfl rfl⟩

variable {session : AuctionSession} {env : AuctionEnv}

theorem Inv.exactlyOnce (h : Inv session) : ExactlyOnce session := by
  intro tx
  rw [h.returned, List.count_nil, Nat.zero_add]
  refine ⟨Nat.zero_le _, Nat.le_trans (h.accepted.count_le tx) ?_⟩
  rw [held, List.count_append]
  cases h.oneBatch with
  | empty _ hsubmitted _ =>
    rw [hsubmitted]
    exact Nat.le_add_left ..
  | collecting first _ hsubmitted _ htwice =>
    rw [hsubmitted, List.count_cons]
    split
    next heq =>
      rw [eq_of_beq heq] at htwice
      omega
    next => omega

/-- The first submission makes a batch with its order in it twice. -/
theorem Inv.first (h : Inv session) (hnone : session.manager.currentBatch = none)
    (hsubmitted : session.submitted = session.manager.pending)
    (hpending : session.manager.pending = []) (tx : ProtectedTransaction) (draw : SubmitDraw) :
    Inv (session.next env (.submit tx draw)) := by
  have hneeds : session.manager.needsBatch env.toEnv draw.sealTime = some true := by
    rw [needsBatch, hnone]
  have haccepted : session.accepted = [] :=
    List.sublist_nil.mp (hpending ▸ hsubmitted ▸ h.accepted)
  let order := newOrder tx draw.submissionTime
  let fresh := (session.manager.enqueue order).createNewBatch draw
  have hfresh : fresh.batched = [tx] ∧ fresh.pending = [] := by
    have hmax : (session.manager.enqueue order).maxBatchSize = 1000 := h.max
    rw [batched_createNewBatch, pending_createNewBatch, pending_enqueue, hpending, hmax]
    exact ⟨rfl, rfl⟩
  -- The queue has moved into the new batch, and then the order is pushed again.
  have htwice : (fresh.pushOrder order).batched = [tx, tx] := by
    have hmax : fresh.maxBatchSize = 1000 := h.max
    rw [batched_pushOrder, hfresh.1, hmax]
    rfl
  rw [next_submit, hneeds]
  refine ⟨?_, ?_, h.returned, .collecting tx ?_ ?_ ?_ ?_⟩
  · show (fresh.pushOrder order).maxBatchSize = 1000
    rw [pushOrder_eq]
    exact h.max
  · exact h.accepted.append_right [tx]
  · show (fresh.pushOrder order).currentBatch.isSome = true
    rw [isSome_pushOrder]
    rfl
  · show session.submitted ++ [tx] = tx :: (fresh.pushOrder order).pending
    rw [pending_pushOrder, hfresh.2, hsubmitted, hpending]
    rfl
  · exact List.mem_append_right _ (List.mem_singleton_self tx)
  · show 2 ≤ (fresh.pushOrder order).batched.count tx
    rw [htwice, List.count_cons_self, List.count_cons_self]
    exact Nat.le_add_left ..

/-- A later one leaves the batch alone, or fills it up. -/
theorem Inv.later (h : Inv session) {first : ProtectedTransaction}
    (hcurrent : session.manager.currentBatch.isSome)
    (hsubmitted : session.submitted = first :: session.manager.pending)
    (hfirst : first ∈ session.accepted) (htwice : 2 ≤ session.manager.batched.count first)
    (tx : ProtectedTransaction) (draw : SubmitDraw)
    (hopen : session.manager.shouldSealBatch env.toEnv draw.sealTime ≠ some true) :
    Inv (session.next env (.submit tx draw)) := by
  let order := newOrder tx draw.submissionTime
  let queued := session.manager.enqueue order
  have hneeds : session.manager.needsBatch env.toEnv draw.sealTime
      = session.manager.shouldSealBatch env.toEnv draw.sealTime := by
    obtain ⟨batch, hbatch⟩ := Option.isSome_iff_exists.mp hcurrent
    rw [needsBatch, hbatch]
  have hqueued : session.submitted ++ [tx] = first :: queued.pending := by
    rw [hsubmitted, pending_enqueue]
    rfl
  rw [next_submit, hneeds]
  cases hdue : session.manager.shouldSealBatch env.toEnv draw.sealTime with
  | none =>
    -- the clock has gone back, and the call panics with the order in the queue
    exact ⟨h.max, h.accepted.trans (List.sublist_append_left _ _), h.returned,
      .collecting first hcurrent hqueued hfirst htwice⟩
  | some due =>
    have hfalse : due = false := Bool.eq_false_iff.mpr fun htrue => hopen (htrue ▸ hdue)
    subst hfalse
    refine ⟨?_, h.accepted.append_right [tx], h.returned, .collecting first ?_ ?_ ?_ ?_⟩
    · show (queued.pushOrder order).maxBatchSize = 1000
      rw [pushOrder_eq]
      exact h.max
    · show (queued.pushOrder order).currentBatch.isSome = true
      rw [isSome_pushOrder]
      exact hcurrent
    · show session.submitted ++ [tx] = first :: (queued.pushOrder order).pending
      rw [pending_pushOrder]
      exact hqueued
    · exact List.mem_append_left _ hfirst
    · show 2 ≤ (queued.pushOrder order).batched.count first
      rw [batched_pushOrder, List.count_append]
      exact Nat.le_trans htwice (Nat.le_add_right ..)

theorem next_execute_none (h : session.manager.currentBatch = none) (endTime : U64) :
    session.next env (.execute endTime) = session := by
  unfold next executeBatch
  rw [h]
  show { session with returned := session.returned ++ [] } = session
  rw [List.append_nil]

theorem Inv.next {env : AuctionEnv} {session : AuctionSession} {call : AuctionCall}
    (h : Inv session) (hcall : session.Undisturbed env call) : Inv (session.next env call) := by
  cases call with
  | submit tx draw =>
    cases h.oneBatch with
    | empty hnone hsubmitted hpending => exact h.first hnone hsubmitted hpending tx draw
    | collecting first hcurrent hsubmitted hfirst htwice =>
      exact h.later hcurrent hsubmitted hfirst htwice tx draw hcall
  | execute endTime =>
    rw [next_execute_none hcall]
    exact h

/-! ## The end of a batch -/

/-- A transaction that has been accepted, and is in neither place, is lost. -/
theorem not_exactlyOnce_of_lost (tx : ProtectedTransaction) (haccepted : tx ∈ session.accepted)
    (hreturned : session.returned = []) (hheld : tx ∉ session.held) : ¬ ExactlyOnce session := by
  intro hone
  have hle := (hone tx).2
  rw [hreturned, List.count_nil, List.count_eq_zero.mpr hheld] at hle
  exact absurd (List.one_le_count_iff.mpr haccepted) (by omega)

/-- When a batch is replaced, its first transaction is lost. -/
theorem Inv.lost_of_sealed (h : Inv session) {tx : ProtectedTransaction} {draw : SubmitDraw}
    (hdue : session.manager.shouldSealBatch env.toEnv draw.sealTime = some true)
    (hdistinct : (session.submitted ++ [tx]).Nodup) :
    ¬ ExactlyOnce (session.next env (.submit tx draw)) := by
  have hneeds : session.manager.needsBatch env.toEnv draw.sealTime = some true := by
    unfold needsBatch
    cases session.manager.currentBatch with
    | none => rfl
    | some _ => exact hdue
  cases h.oneBatch with
  | empty hnone _ _ =>
    rw [shouldSealBatch, hnone] at hdue
    cases hdue
  | collecting first _ hsubmitted hfirst _ =>
    let order := newOrder tx draw.submissionTime
    let queued := session.manager.enqueue order
    rw [hsubmitted] at hdistinct
    -- the first order of the batch has left the queue, and the batch that replaces it is made of
    -- the queue
    have habsent : first ∉ queued.pending := by
      rw [pending_enqueue]
      exact (List.nodup_cons.mp hdistinct).1
    rw [next_submit, hneeds]
    refine not_exactlyOnce_of_lost first (List.mem_append_left _ hfirst) h.returned ?_
    show first ∉ ((queued.createNewBatch draw).pushOrder order).batched
      ++ ((queued.createNewBatch draw).pushOrder order).pending
    rw [batched_pushOrder, pending_pushOrder, batched_createNewBatch, pending_createNewBatch]
    intro hmem
    refine habsent ?_
    rcases List.mem_append.mp hmem with hmem | hmem
    · rcases List.mem_append.mp hmem with hmem | hmem
      · exact List.mem_of_mem_take hmem
      · have htx : first = tx := by
          split at hmem
          next => exact List.mem_singleton.mp hmem
          next => cases hmem
        rw [htx, pending_enqueue]
        exact List.mem_append_right _ (List.mem_singleton_self tx)
    · exact List.mem_of_mem_drop hmem

/-- What `execute_batch` does with a batch. -/
theorem executeBatch_cases (env : AuctionEnv) {manager : BatchAuctionManager} {batch : Batch}
    (hbatch : manager.currentBatch = some batch) (endTime : U64) :
    let outcome := manager.executeBatch env endTime
    outcome.1.batched = [] ∧ outcome.1.pending = manager.pending ∧
      ((∀ txs, outcome.2 ≠ some (.ok txs)) ∨
        ∃ txs, outcome.2 = some (.ok txs) ∧ txs.Perm manager.batched) := by
  unfold executeBatch
  rw [hbatch]
  dsimp only
  split
  next => exact ⟨rfl, rfl, Or.inl fun _ => nofun⟩
  next =>
    split
    next => exact ⟨rfl, rfl, Or.inl fun _ => nofun⟩
    next results hresults =>
      refine ⟨rfl, rfl, Or.inr ⟨results, rfl, ?_⟩⟩
      rw [executeOrderedTransactions_eq hresults, batched, hbatch]
      exact orderBatchFairly_perm env _ batch

/-- When a batch is executed, its first transaction is returned twice, or lost. -/
theorem Inv.twice_of_executed (h : Inv session) (hsome : session.manager.currentBatch ≠ none)
    (hdistinct : session.submitted.Nodup) (endTime : U64) :
    ¬ ExactlyOnce (session.next env (.execute endTime)) := by
  obtain ⟨batch, hbatch⟩ := Option.ne_none_iff_exists'.mp hsome
  obtain ⟨hbatched, hpending, houtcome⟩ := executeBatch_cases env hbatch endTime
  cases h.oneBatch with
  | empty hnone _ _ => exact absurd hnone hsome
  | collecting first _ hsubmitted hfirst htwice =>
    have honce : session.accepted.count first ≤ 1 :=
      Nat.le_trans (h.accepted.count_le first) (List.nodup_iff_count_le_one.mp hdistinct first)
    rw [hsubmitted] at hdistinct
    have hlost : first ∉ (session.manager.executeBatch env endTime).1.batched
        ++ (session.manager.executeBatch env endTime).1.pending := by
      rw [hbatched, hpending]
      exact (List.nodup_cons.mp hdistinct).1
    unfold AuctionSession.next
    dsimp only
    split
    next manager txs heq =>
      rw [heq] at houtcome
      rcases houtcome with hnone | ⟨txs', hok, hperm⟩
      · exact absurd rfl (hnone txs)
      · obtain rfl : txs = txs' := Except.ok.inj (Option.some.inj hok)
        intro hone
        have hle := (hone first).1
        rw [h.returned, List.nil_append, hperm.count_eq] at hle
        exact absurd (Nat.le_trans htwice (Nat.le_trans hle honce)) (by decide)
    next manager outcome heq =>
      rw [heq] at hlost
      exact not_exactlyOnce_of_lost first hfirst h.returned hlost

/-! ## Runs -/

/-- The transactions that are submitted. -/
def submissions (calls : List AuctionCall) : List ProtectedTransaction :=
  calls.filterMap fun
    | .submit tx _ => some tx
    | .execute _ => none

theorem submitted_next (env : AuctionEnv) (session : AuctionSession) (call : AuctionCall) :
    (session.next env call).submitted = session.submitted ++ submissions [call] := by
  cases call with
  | submit tx draw =>
    rw [next_submit]
    dsimp only
    split
    next => rfl
    next => rfl
  | execute endTime =>
    unfold next
    dsimp only
    split
    next => exact (List.append_nil _).symm
    next => exact (List.append_nil _).symm

theorem submitted_run (env : AuctionEnv) (calls : List AuctionCall) : ∀ session : AuctionSession,
    (calls.foldl (next env) session).submitted = session.submitted ++ submissions calls := by
  induction calls with
  | nil => exact fun session => (List.append_nil _).symm
  | cons call calls ih =>
    intro session
    rw [List.foldl_cons, ih, submitted_next, List.append_assoc, submissions, submissions,
      ← List.filterMap_append]
    rfl

theorem always_distinct (env : AuctionEnv) (batchInterval : Nat) {calls : List AuctionCall}
    (h : (submissions calls).Nodup) :
    Always (next env) (fun session call => (session.next env call).submitted.Nodup)
      (new batchInterval) calls := by
  refine always_of_forall fun before call rest hcalls => ?_
  rw [submitted_next, submitted_run]
  show ([] ++ submissions before ++ submissions [call]).Nodup
  refine h.sublist ?_
  rw [hcalls, List.nil_append, submissions, submissions, ← List.filterMap_append]
  refine List.Sublist.filterMap _ (List.Sublist.append_left ?_ before)
  exact List.singleton_sublist.mpr (List.mem_cons_self ..)

/-- A call after which nothing is lost or doubled was undisturbed. -/
theorem Inv.undisturbed {call : AuctionCall} (h : Inv session)
    (hone : ExactlyOnce (session.next env call))
    (hdistinct : (session.next env call).submitted.Nodup) : session.Undisturbed env call := by
  rw [submitted_next] at hdistinct
  cases call with
  | submit tx draw => exact fun hdue => h.lost_of_sealed hdue hdistinct hone
  | execute endTime =>
    by_contra hsome
    exact h.twice_of_executed hsome (hdistinct.sublist (List.sublist_append_left ..)) endTime hone

/-- If no batch is executed or replaced, every transaction is kept, and none is returned. If the
transactions are all different, then that is the only way. -/
theorem exactlyOnce_iff (env : AuctionEnv) (batchInterval : Nat) (calls : List AuctionCall) :
    (Always (next env) (Undisturbed env) (new batchInterval) calls →
      Always (next env) (fun session call => ExactlyOnce (session.next env call))
        (new batchInterval) calls) ∧
      ((submissions calls).Nodup →
        Always (next env) (fun session call => ExactlyOnce (session.next env call))
          (new batchInterval) calls →
        Always (next env) (Undisturbed env) (new batchInterval) calls) := by
  constructor
  · intro hundisturbed
    exact hundisturbed.mono (inv_new batchInterval) (fun _ _ h hcall => h.next hcall)
      fun _ _ h hcall => (h.next hcall).exactlyOnce
  · intro hdistinct hone
    refine (hone.and (always_distinct env batchInterval hdistinct)).mono (inv_new batchInterval)
      (fun _ _ h hboth => ?_) fun _ _ h hboth => h.undisturbed hboth.1 hboth.2
    exact h.next (h.undisturbed hboth.1 hboth.2)

/-! ## Two short runs -/

/-- A shuffle that changes nothing. -/
def sampleAuctionEnv : AuctionEnv where
  toKeccakEnv := sampleKeccakEnv true
  shuffle _ group := group
  shuffle_perm _ _ := .refl _

/-- A transaction that bids 20. -/
def sampleBid (byte : UInt8) : ProtectedTransaction where
  txHash := Vector.replicate 32 byte
  sender := Vector.replicate 20 byte
  nonce := 0
  gasPrice := 20
  data := []
  protectionType := .batchAuction
  timestamp := 0

/-- A submission, at a time at which no batch is due. -/
def sampleSubmit (byte : UInt8) : AuctionCall :=
  .submit (sampleBid byte) ⟨0, 0, 0, 0, Vector.replicate 32 0⟩

/-- Nine submissions. -/
def sampleNine : List AuctionCall := [1, 2, 3, 4, 5, 6, 7, 8, 9].map sampleSubmit

/-- A batch of one is dropped with its transaction; and of nine transactions in a batch the first
is returned twice. -/
theorem dropped_and_doubled :
    (¬ ExactlyOnce ([sampleSubmit 1, .execute 0].foldl (next sampleAuctionEnv) (new 100))) ∧
      ¬ ExactlyOnce
        ((sampleNine ++ [AuctionCall.execute 0]).foldl (next sampleAuctionEnv) (new 100)) := by
  constructor
  · intro hone
    exact absurd (hone (sampleBid 1)).2 (by decide +kernel)
  · have hundisturbed : Always (next sampleAuctionEnv) (Undisturbed sampleAuctionEnv) (new 100)
        sampleNine := by decide +kernel
    have hinv : Inv (sampleNine.foldl (next sampleAuctionEnv) (new 100)) :=
      hundisturbed.invariant (inv_new 100) fun _ _ h hcall => h.next hcall
    have hdistinct : (sampleNine.foldl (next sampleAuctionEnv) (new 100)).submitted.Nodup := by
      decide +kernel
    rw [List.foldl_append]
    refine hinv.twice_of_executed (fun hnone => ?_) hdistinct 0
    exact absurd (Option.isNone_iff_eq_none.mpr hnone) (by decide +kernel)

end AuctionSession

end InterBit.Mev
