import InterBit.Layer2.OptimisticRollup
import InterBit.Lib.Assoc
import InterBit.Lib.Numbered
import InterBit.Lib.Trace

/-!
# The chain of batches

`create_batch` takes the transactions out of the queue and moves the sequencer on before it has a
batch. If it comes through, the batches are a chain and hold what has been taken out. If it panics
in between, because a number overflows, the transactions are lost: `nothing_lost_iff`.

An error in between would lose them as well, but there is none: the layer stores what it is given or
panics (`storeData_ne_error`), and `submit_to_l1` always succeeds. So the one error of
`create_batch` is that of an empty queue, which comes before anything is changed:
`createBatch_error_iff` and `unchanged_on_error`.
-/

namespace InterBit.Layer2

open InterBit.Lib

theorem fromLowU64BE_inj {m n : U64} (h : fromLowU64BE m = fromLowU64BE n) : m = n := by
  have hlist := congrArg (fun hash : H256 => hash.toList) h
  have hbytes : toBeBytes 8 m = toBeBytes 8 n := List.append_cancel_left hlist
  rw [← @ofBeBytes_toBeBytes 64 8 m (by decide), hbytes, @ofBeBytes_toBeBytes 64 8 n (by decide)]

/-! ## The chain -/

/-- The root after some batches. -/
def lastRoot (made : List Batch) : H256 :=
  (made.getLast?.map (·.stateRoot)).getD (Vector.replicate 32 0)

/-- These batches are what the rollup has made, and with the pending transactions they hold what has
been accepted. -/
structure Linked (rollup : OptimisticRollup) (accepted : List Transaction) (made : List Batch) :
    Prop where
  numbered : Numbered (made.map (·.blockNumber))
  identified : ∀ batch ∈ made, batch.id = fromLowU64BE batch.blockNumber
  stored : ∀ id batch, rollup.batches.lookup id = some batch ↔ batch ∈ made ∧ batch.id = id
  roots : ∀ batch ∈ made, rollup.stateRoots.lookup batch.blockNumber = some batch.stateRoot
  chained : ∀ before batch after, made = before ++ batch :: after →
    batch.prevStateRoot = lastRoot before
  kept : made.flatMap (·.transactions) ++ rollup.pendingTransactions = accepted

namespace Linked

variable {rollup rollup' : OptimisticRollup} {accepted accepted' : List Transaction}
  {made made' : List Batch}

theorem ascending (h : Linked rollup accepted made) :
    made.Pairwise fun a b => a.blockNumber < b.blockNumber := by
  have hrange : (made.map (·.blockNumber)).map BitVec.toNat = List.range' 1 _ := h.numbered
  have hpairs : ((made.map (·.blockNumber)).map BitVec.toNat).Pairwise (· < ·) := by
    rw [hrange]
    exact List.pairwise_lt_range'
  exact (List.pairwise_map.mp (List.pairwise_map.mp hpairs)).imp BitVec.lt_def.mpr

/-- The batches that are stored determine what has been made. -/
theorem made_unique (h : Linked rollup accepted made) (h' : Linked rollup' accepted' made')
    (hsame : rollup'.batches = rollup.batches) : made' = made := by
  have hirrefl : Std.Irrefl fun a b : Batch => a.blockNumber < b.blockNumber :=
    ⟨fun _ => BitVec.lt_irrefl _⟩
  have hantisymm : Std.Antisymm fun a b : Batch => a.blockNumber < b.blockNumber :=
    ⟨fun a b hab hba => absurd (BitVec.lt_trans hab hba) (BitVec.lt_irrefl _)⟩
  refine h'.ascending.eq_of_mem_iff h.ascending fun batch => ?_
  have hiff := h.stored batch.id batch
  rw [← hsame, h'.stored, and_iff_left rfl, and_iff_left rfl] at hiff
  exact hiff

theorem length_lt (h : Linked rollup accepted made) : made.length < 2 ^ 64 := by
  have hlt := h.numbered.length_lt
  rw [List.length_map] at hlt
  exact hlt

theorem push (h : Linked rollup accepted made) (tx : Transaction) :
    Linked (rollup.push tx) (accepted ++ [tx]) made where
  numbered := h.numbered
  identified := h.identified
  stored := h.stored
  roots := h.roots
  chained := h.chained
  kept := by
    show made.flatMap (·.transactions) ++ (rollup.pendingTransactions ++ [tx]) = accepted ++ [tx]
    rw [← List.append_assoc, h.kept]

/-- No transaction has left the queue as long as no batch has been added. -/
theorem pending_length (h : Linked rollup accepted made) (h' : Linked rollup' accepted made')
    (hsame : rollup'.batches = rollup.batches) :
    rollup'.pendingTransactions.length = rollup.pendingTransactions.length := by
  have hmade : made' = made := h.made_unique h' hsame
  have hkept' := h'.kept
  rw [hmade, ← h.kept] at hkept'
  rw [List.append_cancel_left hkept']

/-- No batch has the number zero. -/
theorem blockNumber_ne_zero (h : Linked rollup accepted made) {id : H256} {batch : Batch}
    (hstored : rollup.batches.lookup id = some batch) : batch.blockNumber ≠ 0 := by
  intro hzero
  have hmem : batch ∈ made := ((h.stored id batch).mp hstored).1
  have hrange : batch.blockNumber.toNat ∈ List.range' 1 _ :=
    h.numbered ▸ List.mem_map_of_mem (List.mem_map_of_mem hmem)
  have hpos : 1 ≤ batch.blockNumber.toNat := (List.mem_range'_1.mp hrange).1
  rw [hzero] at hpos
  exact Nat.not_succ_le_zero 0 hpos

/-- One batch more. -/
theorem insertBatch (h : Linked rollup accepted made) {batch : Batch} {size : Nat}
    {sequencer : Sequencer} {daLayer : DataAvailabilityLayer}
    (hid : batch.id = fromLowU64BE batch.blockNumber)
    (hnumber : batch.blockNumber.toNat = made.length + 1)
    (htransactions : batch.transactions = rollup.pendingTransactions.take size)
    (hprev : batch.prevStateRoot = lastRoot made) :
    Linked (OptimisticRollup.insertBatch { rollup with
        pendingTransactions := rollup.pendingTransactions.drop size, sequencer, daLayer } batch)
      accepted (made ++ [batch]) := by
  have hnew : ∀ b ∈ made, b.blockNumber ≠ batch.blockNumber := by
    intro b hb heq
    have hle := h.numbered.le_length (List.mem_map_of_mem hb)
    rw [List.length_map, heq] at hle
    omega
  have hnewId : ∀ b ∈ made, b.id ≠ batch.id := by
    intro b hb heq
    rw [h.identified b hb, hid] at heq
    exact hnew b hb (fromLowU64BE_inj heq)
  refine ⟨?_, ?_, ?_, ?_, ?_, ?_⟩
  · rw [List.map_append, List.map_singleton, numbered_concat, List.length_map]
    exact ⟨h.numbered, hnumber⟩
  · exact List.forall_mem_append.mpr ⟨h.identified, List.forall_mem_singleton.mpr hid⟩
  · intro id b
    refine (lookup_insert_eq_some (m := rollup.batches)).trans ?_
    rw [h.stored, List.mem_append, List.mem_singleton]
    constructor
    · rintro (⟨rfl, rfl⟩ | ⟨_, hmem, rfl⟩)
      · exact ⟨Or.inr rfl, rfl⟩
      · exact ⟨Or.inl hmem, rfl⟩
    · rintro ⟨hmem | rfl, rfl⟩
      · exact Or.inr ⟨hnewId b hmem, hmem, rfl⟩
      · exact Or.inl ⟨rfl, rfl⟩
  · intro b hb
    refine (lookup_insert_eq_some (m := rollup.stateRoots)).mpr ?_
    rcases List.mem_append.mp hb with hold | hlast
    · exact Or.inr ⟨hnew b hold, h.roots b hold⟩
    · rw [List.mem_singleton.mp hlast]
      exact Or.inl ⟨rfl, rfl⟩
  · intro before b after heq
    rcases List.eq_nil_or_concat after with rfl | ⟨after, last, rfl⟩
    · -- the new batch itself
      obtain ⟨rfl, hlast⟩ := List.append_inj' heq rfl
      cases hlast
      exact hprev
    · rw [List.concat_eq_append, ← List.cons_append, ← List.append_assoc] at heq
      exact h.chained before b after (List.append_inj_left' heq rfl)
  · rw [List.flatMap_append, List.flatMap_singleton, htransactions, List.append_assoc]
    refine Eq.trans ?_ h.kept
    exact congrArg (_ ++ ·) (List.take_append_drop ..)

end Linked

/-! ## Runs -/

/-- A call. -/
inductive RollupCall where
  | submit (tx : Transaction) (clock : BatchClock)
  | create (clock : BatchClock)

/-- A rollup, and the transactions that it has accepted into its queue. -/
structure RollupSession where
  rollup : OptimisticRollup
  accepted : List Transaction

namespace RollupSession

open OptimisticRollup

/-- A new rollup. -/
def new (config : Layer2Config) (daLayer : DataAvailabilityLayer) : RollupSession :=
  ⟨.new config daLayer, []⟩

/-- One call. -/
def next (env : RollupEnv) (session : RollupSession) : RollupCall → RollupSession
  | .submit tx clock =>
    ⟨(session.rollup.submitTransaction env tx clock).1,
      if validateTransaction tx then session.accepted ++ [tx] else session.accepted⟩
  | .create clock => { session with rollup := (session.rollup.createBatch env clock).1 }

/-- The batches are a chain, and they and the queue hold what has been accepted. -/
def NothingLost (session : RollupSession) : Prop :=
  ∃ made, Linked session.rollup session.accepted made

/-- A batch can be made: the numbers have not been used up, and none overflows. -/
def Creatable (env : RollupEnv) (rollup : OptimisticRollup) (clock : BatchClock) : Prop :=
  rollup.sequencer.nextBatchId ≠ 0 ∧ Fits env rollup.config rollup.sequencer clock

/-- A call that comes to make a batch can make it. -/
def Proper (env : RollupEnv) (session : RollupSession) : RollupCall → Prop
  | .submit tx clock => validateTransaction tx →
    session.rollup.config.batchSize ≤ session.rollup.pendingTransactions.length + 1 →
    Creatable env session.rollup clock
  | .create clock => session.rollup.pendingTransactions ≠ [] → Creatable env session.rollup clock

instance (env : RollupEnv) (rollup : OptimisticRollup) (clock : BatchClock) :
    Decidable (Creatable env rollup clock) :=
  inferInstanceAs (Decidable (_ ∧ (_ → _)))

instance (env : RollupEnv) (session : RollupSession) (call : RollupCall) :
    Decidable (Proper env session call) :=
  match call with
  | .submit _ _ => inferInstanceAs (Decidable (_ → _ → _))
  | .create _ => inferInstanceAs (Decidable (_ → _))

/-- The layer stores everything, whatever it has stored before. -/
def AlwaysStores (gzip : Gzip) (daLayer : DataAvailabilityLayer) : Prop :=
  ∀ storage id data now,
    (DataAvailabilityLayer.storeData gzip { daLayer with storage } id data now).2 = some (.ok ())

/-- The sequencer is at the end of what has been made. -/
structure Running (config : Layer2Config) (daLayer : DataAvailabilityLayer)
    (rollup : OptimisticRollup) (accepted : List Transaction) (made : List Batch) : Prop where
  linked : Linked rollup accepted made
  following : rollup.sequencer.nextBatchId = BitVec.ofNat 64 (made.length + 1)
  root : rollup.sequencer.currentStateRoot = lastRoot made
  configured : rollup.config = config
  layer : ∃ storage, rollup.daLayer = { daLayer with storage }

variable {env : RollupEnv} {config : Layer2Config} {daLayer : DataAvailabilityLayer}
  {rollup : OptimisticRollup} {accepted : List Transaction} {made : List Batch}

theorem running_new (config : Layer2Config) (daLayer : DataAvailabilityLayer) :
    Running config daLayer (.new config daLayer) [] [] where
  linked :=
    { numbered := numbered_nil
      identified := fun _ hmem => nomatch hmem
      stored := fun _ _ => iff_of_false nofun fun h => nomatch h.1
      roots := fun _ hmem => nomatch hmem
      chained := fun before _ _ heq => absurd heq (by simp)
      kept := rfl }
  following := rfl
  root := rfl
  configured := rfl
  layer := ⟨daLayer.storage, rfl⟩

theorem Running.push (h : Running config daLayer rollup accepted made) (tx : Transaction) :
    Running config daLayer (rollup.push tx) (accepted ++ [tx]) made :=
  ⟨h.linked.push tx, h.following, h.root, h.configured, h.layer⟩

/-- What the layer has stored is all that has changed in it. -/
theorem layer_storeData {gzip : Gzip} {daLayer daLayer' : DataAvailabilityLayer} {id : H256}
    {data : List UInt8} {now : Seconds} {o : Outcome Unit}
    (h : daLayer.storeData gzip id data now = (daLayer', o)) :
    ∃ storage, daLayer' = { daLayer with storage } := by
  unfold DataAvailabilityLayer.storeData at h
  split at h
  next =>
    cases h
    exact ⟨_, rfl⟩
  next =>
    split at h
    all_goals
      cases h
      exact ⟨_, rfl⟩

/-- The number of the next batch, as long as the numbers have not been used up. -/
theorem Running.nextBatchId_toNat (h : Running config daLayer rollup accepted made)
    (hne : rollup.sequencer.nextBatchId ≠ 0) :
    rollup.sequencer.nextBatchId.toNat = made.length + 1 := by
  rw [h.following] at hne ⊢
  -- there are fewer batches than numbers, since they are numbered from one on
  have hlength := h.linked.length_lt
  have hlast : made.length + 1 ≠ 2 ^ 64 := by
    intro heq
    rw [heq] at hne
    exact hne rfl
  rw [BitVec.toNat_ofNat]
  exact Nat.mod_eq_of_lt (by omega)

/-- Transactions that have been taken out without a batch are missing. -/
theorem Running.not_linked_advance (h : Running config daLayer rollup accepted made)
    (hsize : 1 ≤ config.batchSize) (hpending : rollup.pendingTransactions ≠ [])
    (clock : BatchClock) {made' : List Batch} :
    ¬ Linked (rollup.advance env clock) accepted made' := by
  intro hlinked
  have hlength : (rollup.pendingTransactions.drop rollup.batchSize).length
      = rollup.pendingTransactions.length := h.linked.pending_length hlinked rfl
  have hsome := List.length_pos_of_ne_nil hpending
  rw [List.length_drop, OptimisticRollup.batchSize, h.configured] at hlength
  omega

/-- A batch that has been made and stored is one more. -/
theorem Running.created (h : Running config daLayer rollup accepted made) {clock : BatchClock}
    {batch : Batch} {storage : AList fun _ : H256 => StoredData}
    (hne : rollup.sequencer.nextBatchId ≠ 0)
    (hfollows : Follows env rollup.sequencer
      (rollup.pendingTransactions.take rollup.batchSize) batch (rollup.nextBatch env clock).1) :
    Running config daLayer
      (insertBatch { rollup.advance env clock with daLayer := { daLayer with storage } } batch)
      accepted (made ++ [batch]) where
  linked := by
    have hid : batch.id = fromLowU64BE batch.blockNumber := by
      rw [hfollows.blockNumber_eq]
      exact hfollows.id_eq
    refine h.linked.insertBatch hid ?_ hfollows.transactions_eq ?_
    · rw [hfollows.blockNumber_eq]
      exact h.nextBatchId_toNat hne
    · rw [hfollows.prevStateRoot_eq]
      exact h.root
  following := by
    refine hfollows.nextBatchId_eq.trans ?_
    rw [h.following, List.length_append, List.length_singleton]
    exact (BitVec.ofNat_add (made.length + 1) 1).symm
  root := by
    refine hfollows.currentStateRoot_eq.trans ?_
    rw [lastRoot, List.getLast?_concat]
    rfl
  configured := h.configured
  layer := ⟨storage, rfl⟩

/-- If a batch can be made, one more is made; if not, something is lost. -/
theorem Running.createBatch (h : Running config daLayer rollup accepted made)
    (hsize : 1 ≤ config.batchSize) (hstores : AlwaysStores env.gzip daLayer) (clock : BatchClock) :
    ((rollup.pendingTransactions ≠ [] → Creatable env rollup clock) →
      ∃ made', Running config daLayer (rollup.createBatch env clock).1 accepted made') ∧
    ((∃ made', Linked (rollup.createBatch env clock).1 accepted made') →
      rollup.pendingTransactions ≠ [] → Creatable env rollup clock) := by
  obtain ⟨storage, hlayer⟩ := h.layer
  have hdata : ∀ id data now,
      (rollup.daLayer.storeData env.gzip id data now).2 = some (.ok ()) := by
    rw [hlayer]
    exact hstores storage
  have hfits : (rollup.nextBatch env clock).2.isSome ↔
      Fits env rollup.config rollup.sequencer clock := newBatch_isSome_iff
  have hspec := createBatch_spec env rollup clock
  revert hspec
  generalize rollup.createBatch env clock = r
  intro hspec
  cases hspec with
  | empty hempty => exact ⟨fun _ => ⟨made, h⟩, fun _ hpending => absurd hempty hpending⟩
  | overflow hpending hnone =>
    have hno : ¬ Creatable env rollup clock := by
      intro hyes
      have hsome := hfits.mpr hyes.2
      rw [hnone] at hsome
      cases hsome
    refine ⟨fun hyes => absurd (hyes hpending) hno, ?_⟩
    intro hlinked _
    obtain ⟨made', hlinked⟩ := hlinked
    -- the transactions have been taken out, and no batch has them
    exact absurd hlinked (h.not_linked_advance hsize hpending clock)
  | panicked hpending hsome hstore =>
    -- the layer always stores
    have hok := hdata _ _ _ ▸ congrArg Prod.snd hstore
    cases hok
  | failed hpending hsome hstore =>
    have hok := hdata _ _ _ ▸ congrArg Prod.snd hstore
    cases hok
  | @created batch daLayer' hpending hsome hstore =>
    have hfollows : Follows env rollup.sequencer _ batch (rollup.nextBatch env clock).1 :=
      follows_of_newBatch hsome
    constructor
    · intro hyes
      obtain ⟨storage', hlayer'⟩ := layer_storeData hstore
      rw [hlayer] at hlayer'
      refine ⟨made ++ [batch], ?_⟩
      rw [hlayer']
      exact h.created (hyes hpending).1 hfollows
    · intro hlinked _
      obtain ⟨made', hlinked⟩ := hlinked
      refine ⟨?_, hfits.mp (hsome ▸ rfl)⟩
      -- a linked batch never has number 0, so the counter has not wrapped
      rw [← hfollows.blockNumber_eq]
      exact hlinked.blockNumber_ne_zero (AList.lookup_insert _)

/-- After a call nothing is lost, if it is proper; and only if. -/
theorem Running.next {session : RollupSession}
    (h : Running config daLayer session.rollup session.accepted made)
    (hsize : 1 ≤ config.batchSize) (hstores : AlwaysStores env.gzip daLayer) (call : RollupCall) :
    (Proper env session call → ∃ made', Running config daLayer (session.next env call).rollup
      (session.next env call).accepted made') ∧
    ((session.next env call).NothingLost → Proper env session call) := by
  cases call with
  | create clock => exact h.createBatch hsize hstores clock
  | submit tx clock =>
    unfold RollupSession.next Proper NothingLost
    dsimp only
    rw [submitTransaction_fst]
    by_cases hvalid : validateTransaction tx = true
    · rw [if_pos hvalid, if_pos hvalid]
      by_cases hfull : session.rollup.config.batchSize
          ≤ session.rollup.pendingTransactions.length + 1
      · rw [if_pos hfull]
        obtain ⟨hmakes, hneeds⟩ := (h.push tx).createBatch hsize hstores clock
        have hpending : (session.rollup.push tx).pendingTransactions ≠ [] :=
          List.append_ne_nil_of_right_ne_nil _ (List.cons_ne_nil _ _)
        exact ⟨fun hyes => hmakes fun _ => hyes hvalid hfull,
          fun hlinked _ _ => hneeds hlinked hpending⟩
      · rw [if_neg hfull]
        exact ⟨fun _ => ⟨made, h.push tx⟩, fun _ _ hyes => absurd hyes hfull⟩
    · rw [if_neg hvalid, if_neg hvalid]
      exact ⟨fun _ => ⟨made, h⟩, fun _ hyes => absurd hyes hvalid⟩

/-- A run loses nothing exactly if each batch that it comes to make can be made. -/
theorem nothing_lost_iff (env : RollupEnv) (config : Layer2Config)
    (daLayer : DataAvailabilityLayer) (hsize : 1 ≤ config.batchSize)
    (hstores : AlwaysStores env.gzip daLayer) (calls : List RollupCall) :
    Always (next env) (fun session call => (session.next env call).NothingLost)
        (new config daLayer) calls ↔
      Always (next env) (Proper env) (new config daLayer) calls := by
  refine always_iff
    (I := fun session => ∃ made, Running config daLayer session.rollup session.accepted made)
    ⟨[], running_new config daLayer⟩ ?_ ?_
  · rintro session call ⟨made, h⟩ hproper
    exact (h.next hsize hstores call).1 hproper
  · rintro session call ⟨made, h⟩
    obtain ⟨hmakes, hneeds⟩ := h.next hsize hstores call
    refine ⟨hneeds, fun hproper => ?_⟩
    obtain ⟨made', hrunning⟩ := hmakes hproper
    exact ⟨made', hrunning.linked⟩

/-- Three transactions in batches of two, and a batch of what is left. -/
theorem sample_nothing_lost :
    Always (next sampleRollupEnv)
      (fun session call => (session.next sampleRollupEnv call).NothingLost)
      (new ⟨2, 100, 1000⟩ samplePlainLayer)
      [.submit sampleTx sampleClock, .submit sampleTx sampleClock, .submit sampleTx sampleClock,
        .create sampleClock] := by
  refine (nothing_lost_iff sampleRollupEnv ⟨2, 100, 1000⟩ samplePlainLayer (by decide)
    (fun _ _ _ _ => rfl) _).mpr ⟨?_, ?_, ?_, ?_, trivial⟩
  all_goals decide +kernel

/-- With a challenge period that overflows, the two transactions of a full batch are lost. -/
theorem full_batch_lost :
    ¬ Always (next sampleRollupEnv)
      (fun session call => (session.next sampleRollupEnv call).NothingLost)
      (new ⟨2, BitVec.ofNat 64 (2 ^ 61), 1000⟩ samplePlainLayer)
      [.submit sampleTx sampleClock, .submit sampleTx sampleClock] := by
  rintro ⟨_, ⟨made, hlinked⟩, _⟩
  have hmade : made = [] := by
    refine List.eq_nil_iff_forall_not_mem.mpr fun batch hmem => ?_
    have hstored := (hlinked.stored batch.id batch).mpr ⟨hmem, rfl⟩
    cases hstored
  have hkept := hlinked.kept
  rw [hmade] at hkept
  cases hkept

end RollupSession

/-! ## Errors -/

namespace OptimisticRollup

/-- `create_batch` returns an error exactly if there is no transaction, and it is always this
one. -/
theorem createBatch_error_iff (env : RollupEnv) (rollup : OptimisticRollup) (clock : BatchClock)
    (error : Layer2Error) : (rollup.createBatch env clock).2 = some (.error error) ↔
      rollup.pendingTransactions = [] ∧ error = .invalidTransaction := by
  have hspec := createBatch_spec env rollup clock
  revert hspec
  generalize rollup.createBatch env clock = r
  intro hspec
  cases hspec with
  | empty hempty =>
    constructor
    · intro herror
      cases herror
      exact ⟨hempty, rfl⟩
    · rintro ⟨_, rfl⟩
      rfl
  | overflow hpending => exact iff_of_false nofun fun h => hpending h.1
  | panicked hpending => exact iff_of_false nofun fun h => hpending h.1
  | failed hpending hsome hstore =>
    -- the layer would have had to refuse the batch
    exact absurd (congrArg Prod.snd hstore)
      (DataAvailabilityLayer.storeData_ne_error _ _ _ _ _ _)
  | created hpending => exact iff_of_false nofun fun h => hpending h.1

/-- If `create_batch` returns an error, the queue, the sequencer, the batches and the state roots
are as before the call. -/
theorem unchanged_on_error (env : RollupEnv) (rollup : OptimisticRollup) (clock : BatchClock)
    (error : Layer2Error) (h : (rollup.createBatch env clock).2 = some (.error error)) :
    (rollup.createBatch env clock).1.pendingTransactions = rollup.pendingTransactions ∧
    (rollup.createBatch env clock).1.sequencer.nextBatchId = rollup.sequencer.nextBatchId ∧
    (rollup.createBatch env clock).1.sequencer.currentStateRoot
      = rollup.sequencer.currentStateRoot ∧
    (rollup.createBatch env clock).1.batches = rollup.batches ∧
    (rollup.createBatch env clock).1.stateRoots = rollup.stateRoots := by
  obtain ⟨hempty, _⟩ := (createBatch_error_iff env rollup clock error).mp h
  have hsame : (rollup.createBatch env clock).1 = rollup := by
    unfold createBatch
    rw [if_pos hempty]
  rw [hsame]
  exact ⟨rfl, rfl, rfl, rfl, rfl⟩

/-- A rollup that has put its two transactions into a batch, with a layer that compresses. -/
def sampleEmptied : OptimisticRollup :=
  ((((OptimisticRollup.new ⟨2, 100, 1000⟩ (.new ⟨.onChain, true, false⟩)).push sampleTx).push
    sampleTx).createBatch sampleRollupEnv sampleClock).1

/-- Another batch cannot be made of nothing; the sequencer stays at the second one. -/
theorem unchanged_on_error_sample :
    (sampleEmptied.createBatch sampleRollupEnv sampleClock).2
        = some (.error .invalidTransaction) ∧
      (sampleEmptied.createBatch sampleRollupEnv sampleClock).1.sequencer.nextBatchId = 2 := by
  have herror : (sampleEmptied.createBatch sampleRollupEnv sampleClock).2
      = some (.error .invalidTransaction) :=
    (createBatch_error_iff ..).mpr ⟨rfl, rfl⟩
  have hkept := unchanged_on_error sampleRollupEnv sampleEmptied sampleClock _ herror
  exact ⟨herror, hkept.2.1.trans (by decide +kernel)⟩

end OptimisticRollup

end InterBit.Layer2
