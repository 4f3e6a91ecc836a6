import InterBit.Lib.StableQueue
import InterBit.Mev.PrivatePool

/-!
# Delivery from the private pool

Runs of calls on a private pool, with a record of what has arrived and of what has been returned
for which block (`PoolSession`). `Inv` is the invariant: the queue is by rank, what is queued and
what has been returned are different arrivals, and what is neither had its range end before a block
that has been asked for.
-/

namespace InterBit.Mev

open InterBit.Lib

/-- The rank of a bundle in the queue. -/
def PrivateBundle.rank (bundle : PrivateBundle) : Nat := bundle.bidAmount.toNat

/-- The block is in the range of the bundle. -/
def PrivateBundle.InRange (bundle : PrivateBundle) (blockNumber : U64) : Prop :=
  bundle.minBlock ≤ blockNumber ∧ blockNumber ≤ bundle.maxBlock

instance (bundle : PrivateBundle) (blockNumber : U64) : Decidable (bundle.InRange blockNumber) :=
  inferInstanceAs (Decidable (_ ∧ _))

/-! ## The calls -/

theorem classify_cons (blockNumber : U64) (bundle : PrivateBundle) (queue : List PrivateBundle) :
    classify blockNumber (bundle :: queue) =
      if bundle.InRange blockNumber then
        (bundle :: (classify blockNumber queue).1, (classify blockNumber queue).2)
      else if blockNumber < bundle.minBlock then
        ((classify blockNumber queue).1, bundle :: (classify blockNumber queue).2)
      else classify blockNumber queue := rfl

/-- Delivered are the bundles in range. -/
theorem classify_fst (blockNumber : U64) (queue : List PrivateBundle) :
    (classify blockNumber queue).1 = queue.filter (·.InRange blockNumber) := by
  induction queue with
  | nil => rfl
  | cons bundle queue ih =>
    rw [classify_cons, List.filter_cons, ← ih]
    by_cases hrange : bundle.InRange blockNumber
    · rw [if_pos hrange, if_pos (decide_eq_true hrange)]
    · rw [if_neg hrange, if_neg fun h => hrange (of_decide_eq_true h)]
      split
      next => rfl
      next => rfl

/-- Those that stay are too early. -/
theorem classify_snd (blockNumber : U64) (queue : List PrivateBundle) :
    (classify blockNumber queue).2
      = queue.filter fun bundle => decide (blockNumber < bundle.minBlock) := by
  induction queue with
  | nil => rfl
  | cons bundle queue ih =>
    rw [classify_cons, List.filter_cons, ← ih]
    by_cases hlt : blockNumber < bundle.minBlock
    · have hrange : ¬ bundle.InRange blockNumber := fun h => absurd h.1 (BitVec.not_le.mpr hlt)
      rw [if_neg hrange, if_pos hlt, if_pos (decide_eq_true hlt)]
    · rw [if_neg hlt, if_neg fun h => hlt (of_decide_eq_true h)]
      split
      next => rfl
      next => rfl

namespace PrivateTransactionPool

/-- A bundle is queued by its rank. -/
theorem pendingQueue_addBundle (pool : PrivateTransactionPool) (bundle : PrivateBundle) :
    (pool.addBundle bundle).pendingQueue
      = enqueue PrivateBundle.rank bundle pool.pendingQueue := by
  have hlower : (fun b : PrivateBundle => decide (b.bidAmount < bundle.bidAmount))
      = fun b => decide (b.rank < bundle.rank) := funext fun b => decide_eq_decide.mpr BitVec.lt_def
  rw [addBundle, enqueue, ← hlower]

theorem getNextBundles_snd (pool : PrivateTransactionPool) (blockNumber : U64) :
    (pool.getNextBundles blockNumber).2
      = (pool.pendingQueue.filter (·.InRange blockNumber)).mergeSort
          fun x y => y.rank ≤ x.rank := by
  have hle : (fun a b : PrivateBundle => decide (b.bidAmount ≤ a.bidAmount))
      = fun a b => decide (b.rank ≤ a.rank) :=
    funext fun a => funext fun b => decide_eq_decide.mpr BitVec.le_def
  rw [← classify_fst, ← hle, getNextBundles]

theorem getNextBundles_fst (pool : PrivateTransactionPool) (blockNumber : U64) :
    (pool.getNextBundles blockNumber).1.pendingQueue
      = pool.pendingQueue.filter fun bundle => decide (blockNumber < bundle.minBlock) := by
  rw [← classify_snd, getNextBundles]

/-- A submission is refused and changes nothing, or the bundle is queued. -/
theorem submitPrivate_cases (pool : PrivateTransactionPool) (tx : ProtectedTransaction)
    (id : H256) :
    ((pool.submitPrivate tx id).1 = pool ∧ ∃ error, (pool.submitPrivate tx id).2
      = some (.error error)) ∨
      ((pool.submitPrivate tx id).1.pendingQueue
          = enqueue PrivateBundle.rank (privateBundle tx id) pool.pendingQueue ∧
        ∀ error, (pool.submitPrivate tx id).2 ≠ some (.error error)) := by
  unfold submitPrivate
  split
  next => exact Or.inr ⟨pendingQueue_addBundle pool _, fun _ h => (nomatch h)⟩
  next => exact Or.inl ⟨rfl, _, rfl⟩

/-- A submission fails and changes nothing, or adds the bundle. -/
theorem submitBundle_cases (env : Env) (pool : PrivateTransactionPool) (bundle : PrivateBundle) :
    ((pool.submitBundle env bundle).1 = pool ∧ ∃ error, (pool.submitBundle env bundle).2
      = some (.error error)) ∨
      ((pool.submitBundle env bundle).1.pendingQueue
          = enqueue PrivateBundle.rank bundle pool.pendingQueue ∧
        ∀ error, (pool.submitBundle env bundle).2 ≠ some (.error error)) := by
  unfold submitBundle
  split
  next =>
    split
    next => exact Or.inl ⟨rfl, _, rfl⟩
    next =>
      split
      next => exact Or.inl ⟨rfl, _, rfl⟩
      next =>
        refine Or.inr ⟨?_, fun error h => ?_⟩
        · exact (pendingQueue_updateSearcherStats ..).trans (pendingQueue_addBundle pool bundle)
        · obtain ⟨_, _, hok⟩ := Option.map_eq_some_iff.mp h
          cases hok
  next => exact Or.inl ⟨rfl, _, rfl⟩

end PrivateTransactionPool

/-! ## Runs -/

/-- A call on a private pool. -/
inductive PrivateCall where
  | submitPrivate (tx : ProtectedTransaction) (id : H256)
  | submitBundle (bundle : PrivateBundle)
  | getNextBundles (blockNumber : U64)
  | reportBundleResult (result : BundleResult)
  | addToWhitelist (searcher : Address)
  | removeFromWhitelist (searcher : Address)

/-- The ids of the bundles that are submitted. -/
def bundleIds (calls : List PrivateCall) : List H256 :=
  calls.filterMap fun
    | .submitPrivate _ id => some id
    | .submitBundle bundle => some bundle.id
    | _ => none

/-- What arrives with a submission: nothing if it is refused. -/
def arriving (bundle : PrivateBundle) : Outcome H256 → List PrivateBundle
  | some (.error _) => []
  | _ => [bundle]

/-- A pool, the bundles that have arrived, and what has been returned for which block. -/
structure PoolSession where
  pool : PrivateTransactionPool
  arrivals : List PrivateBundle
  deliveries : List (U64 × List PrivateBundle)

namespace PoolSession

/-- A new pool. -/
def new (config : PrivatePoolConfig) : PoolSession := ⟨.withConfig config, [], []⟩

/-- All that has been returned. -/
def returned (session : PoolSession) : List PrivateBundle := session.deliveries.flatMap (·.2)

/-- The session after a call. -/
def next (env : Env) (session : PoolSession) : PrivateCall → PoolSession
  | .submitPrivate tx id =>
    let (pool, outcome) := session.pool.submitPrivate tx id
    { session with pool, arrivals := session.arrivals ++ arriving (privateBundle tx id) outcome }
  | .submitBundle bundle =>
    let (pool, outcome) := session.pool.submitBundle env bundle
    { session with pool, arrivals := session.arrivals ++ arriving bundle outcome }
  | .getNextBundles blockNumber =>
    let (pool, bundles) := session.pool.getNextBundles blockNumber
    { session with pool, deliveries := session.deliveries ++ [(blockNumber, bundles)] }
  | .reportBundleResult result =>
    { session with pool := (session.pool.reportBundleResult env result).1 }
  | .addToWhitelist searcher => { session with pool := session.pool.addToWhitelist searcher }
  | .removeFromWhitelist searcher =>
    { session with pool := session.pool.removeFromWhitelist searcher }

/-- The queue is by rank; what is queued or has been returned are different arrivals, returned for
a block in their range; and for what is neither, a block after its range has been asked for. -/
structure Inv (session : PoolSession) : Prop where
  ranked : Ranked PrivateBundle.rank session.arrivals session.pool.pendingQueue
  once : (session.pool.pendingQueue ++ session.returned).Subperm session.arrivals
  inRange : ∀ d ∈ session.deliveries, ∀ bundle ∈ d.2, bundle.InRange d.1
  falling : ∀ d ∈ session.deliveries, Falling PrivateBundle.rank d.2
  kept : ∀ bundle ∈ session.arrivals, bundle ∈ session.pool.pendingQueue ∨
    bundle ∈ session.returned ∨ ∃ d ∈ session.deliveries, bundle.maxBlock < d.1

/-- A new pool has nothing. -/
theorem inv_new (config : PrivatePoolConfig) : Inv (new config) where
  ranked := ranked_nil []
  once := .refl []
  inRange _ h := absurd h List.not_mem_nil
  falling _ h := absurd h List.not_mem_nil
  kept _ h := absurd h List.not_mem_nil

variable {session : PoolSession} {pool : PrivateTransactionPool}

/-- A call that leaves the queue alone. -/
theorem Inv.of_queue (h : Inv session) (hqueue : pool.pendingQueue = session.pool.pendingQueue) :
    Inv { session with pool } where
  ranked := hqueue ▸ h.ranked
  once := hqueue ▸ h.once
  inRange := h.inRange
  falling := h.falling
  kept := hqueue ▸ h.kept

/-- A bundle is queued. -/
theorem Inv.arrive (h : Inv session) {bundle : PrivateBundle}
    (hqueue : pool.pendingQueue = enqueue PrivateBundle.rank bundle session.pool.pendingQueue) :
    Inv { session with pool, arrivals := session.arrivals ++ [bundle] } where
  ranked := hqueue ▸ h.ranked.enqueue bundle
  once := by
    show (pool.pendingQueue ++ session.returned).Subperm (session.arrivals ++ [bundle])
    have hperm := (@enqueue_perm _ PrivateBundle.rank bundle
      session.pool.pendingQueue).append_right session.returned
    rw [hqueue]
    refine hperm.subperm.trans ?_
    exact ((List.subperm_cons bundle).mpr h.once).trans (List.perm_append_singleton ..).symm.subperm
  inRange := h.inRange
  falling := h.falling
  kept := by
    intro other hother
    have hmem : ∀ b, b ∈ pool.pendingQueue ↔ b = bundle ∨ b ∈ session.pool.pendingQueue := by
      intro b
      rw [hqueue, (enqueue_perm bundle _).mem_iff, List.mem_cons]
    rcases List.mem_append.mp hother with hother | hother
    · exact (h.kept other hother).imp_left fun hqueued => (hmem other).mpr (Or.inr hqueued)
    · exact Or.inl ((hmem other).mpr (Or.inl (List.mem_singleton.mp hother)))

/-- A bundle that arrives is queued. -/
theorem Inv.submit (h : Inv session) {bundle : PrivateBundle}
    {result : PrivateTransactionPool × Outcome H256}
    (hcases : (result.1 = session.pool ∧ ∃ error, result.2 = some (.error error)) ∨
      (result.1.pendingQueue = enqueue PrivateBundle.rank bundle session.pool.pendingQueue ∧
        ∀ error, result.2 ≠ some (.error error))) :
    Inv { session with
      pool := result.1, arrivals := session.arrivals ++ arriving bundle result.2 } := by
  obtain ⟨pool, outcome⟩ := result
  rcases hcases with ⟨hpool, error, herror⟩ | ⟨hqueue, hno⟩
  · obtain rfl : pool = session.pool := hpool
    obtain rfl : outcome = some (.error error) := herror
    show Inv { session with pool := session.pool, arrivals := session.arrivals ++ [] }
    rw [List.append_nil]
    exact h
  · have harriving : arriving bundle outcome = [bundle] := by
      unfold arriving
      split
      next error => exact absurd rfl (hno error)
      next => rfl
    show Inv { session with pool, arrivals := session.arrivals ++ arriving bundle outcome }
    rw [harriving]
    exact h.arrive hqueue

/-- What goes out and what stays were both in the queue. -/
theorem selected_append_subperm (blockNumber : U64) (queue : List PrivateBundle) :
    ((queue.filter fun bundle => decide (blockNumber < bundle.minBlock))
      ++ queue.filter fun bundle => decide (bundle.InRange blockNumber)).Subperm queue := by
  have hsplit := List.filter_append_perm (fun bundle : PrivateBundle =>
    decide (blockNumber < bundle.minBlock)) queue
  refine List.Subperm.trans (List.Sublist.subperm (List.Sublist.append_left ?_ _)) hsplit.subperm
  refine List.monotone_filter_right queue fun bundle hrange => ?_
  have hle := (of_decide_eq_true hrange).1
  rw [decide_eq_false (BitVec.not_lt.mpr hle)]
  rfl

/-- The bundles for a block are asked for. -/
theorem Inv.poll (h : Inv session) {blockNumber : U64}
    {bundles : List PrivateBundle}
    (hqueue : pool.pendingQueue = session.pool.pendingQueue.filter fun bundle =>
      decide (blockNumber < bundle.minBlock))
    (hbundles : bundles = (session.pool.pendingQueue.filter fun bundle =>
      decide (bundle.InRange blockNumber)).mergeSort fun x y => y.rank ≤ x.rank) :
    Inv { session with pool, deliveries := session.deliveries ++ [(blockNumber, bundles)] } := by
  have hperm : bundles.Perm (session.pool.pendingQueue.filter fun bundle =>
      decide (bundle.InRange blockNumber)) := hbundles ▸ List.mergeSort_perm _ _
  have hmem : ∀ bundle, bundle ∈ bundles ↔
      bundle ∈ session.pool.pendingQueue ∧ bundle.InRange blockNumber := by
    intro bundle
    rw [hperm.mem_iff, List.mem_filter, decide_eq_true_iff]
  have hreturned : returned { session with pool, deliveries := session.deliveries
      ++ [(blockNumber, bundles)] } = session.returned ++ bundles := by
    rw [returned, List.flatMap_append, List.flatMap_singleton]
    rfl
  refine ⟨?_, ?_, fun d hd => ?_, fun d hd => ?_, fun bundle hbundle => ?_⟩
  · show Ranked PrivateBundle.rank session.arrivals pool.pendingQueue
    rw [hqueue]
    exact h.ranked.filter _
  · show (pool.pendingQueue ++ _).Subperm session.arrivals
    rw [hreturned, hqueue]
    refine List.Subperm.trans ?_ h.once
    refine (List.perm_append_comm.append_left _).subperm.trans ?_
    rw [← List.append_assoc]
    refine ((hperm.append_left _).append_right _).subperm.trans ?_
    exact (List.subperm_append_right _).mpr (selected_append_subperm blockNumber _)
  · rcases List.mem_append.mp hd with hd | hd
    · exact h.inRange d hd
    · rw [List.mem_singleton.mp hd]
      exact fun bundle hbundle => ((hmem bundle).mp hbundle).2
  · rcases List.mem_append.mp hd with hd | hd
    · exact h.falling d hd
    · rw [List.mem_singleton.mp hd, hbundles]
      exact falling_mergeSort _
  · rw [hreturned, List.mem_append, hmem]
    show bundle ∈ pool.pendingQueue ∨ _ ∨ ∃ d ∈ session.deliveries ++ [(blockNumber, bundles)], _
    rw [hqueue, List.mem_filter, decide_eq_true_iff]
    rcases h.kept bundle hbundle with hqueued | hback | ⟨d, hd, hover⟩
    · -- the range is still to come, or it is there, or it is over
      by_cases hlt : blockNumber < bundle.minBlock
      · exact Or.inl ⟨hqueued, hlt⟩
      by_cases hle : blockNumber ≤ bundle.maxBlock
      · exact Or.inr (Or.inl (Or.inr ⟨hqueued, BitVec.not_lt.mp hlt, hle⟩))
      · exact Or.inr (Or.inr ⟨_, List.mem_append_right _ (List.mem_singleton_self _),
          BitVec.not_le.mp hle⟩)
    · exact Or.inr (Or.inl (Or.inl hback))
    · exact Or.inr (Or.inr ⟨d, List.mem_append_left _ hd, hover⟩)

/-- Every call keeps the account of the bundles. -/
theorem Inv.next {session : PoolSession} (h : Inv session) (env : Env) (call : PrivateCall) :
    Inv (session.next env call) := by
  cases call with
  | submitPrivate tx id => exact h.submit (session.pool.submitPrivate_cases tx id)
  | submitBundle bundle => exact h.submit (session.pool.submitBundle_cases env bundle)
  | getNextBundles blockNumber =>
    exact h.poll (session.pool.getNextBundles_fst blockNumber)
      (session.pool.getNextBundles_snd blockNumber)
  | reportBundleResult result =>
    exact h.of_queue (session.pool.pendingQueue_reportBundleResult env result)
  | addToWhitelist searcher => exact h.of_queue rfl
  | removeFromWhitelist searcher =>
    exact h.of_queue (session.pool.pendingQueue_removeFromWhitelist searcher)

theorem Inv.run (h : Inv session) (env : Env) (calls : List PrivateCall) :
    Inv (calls.foldl (PoolSession.next env) session) := by
  induction calls generalizing session with
  | nil => exact h
  | cons call calls ih => exact ih (h.next env call)

/-! ## Bundles with different ids -/

theorem ids_arriving (bundle : PrivateBundle) (outcome : Outcome H256) :
    ((arriving bundle outcome).map (·.id)).Sublist [bundle.id] := by
  unfold arriving
  split
  next => exact List.nil_sublist _
  next => exact .refl _

/-- What has arrived grows by the bundles of the calls. -/
theorem ids_next (env : Env) (session : PoolSession) (call : PrivateCall) :
    ((session.next env call).arrivals.map (·.id)).Sublist
      (session.arrivals.map (·.id) ++ bundleIds [call]) := by
  have hnone : ∀ ids : List H256, ids.Sublist (ids ++ []) :=
    fun ids => List.sublist_append_left ids []
  have hsubmit : ∀ (bundle : PrivateBundle) (outcome : Outcome H256),
      ((session.arrivals ++ arriving bundle outcome).map (·.id)).Sublist
        (session.arrivals.map (·.id) ++ [bundle.id]) := by
    intro bundle outcome
    rw [List.map_append]
    exact List.Sublist.append_left (ids_arriving bundle outcome) _
  cases call with
  | submitPrivate tx id => exact hsubmit (privateBundle tx id) _
  | submitBundle bundle => exact hsubmit bundle _
  | getNextBundles blockNumber => exact hnone _
  | reportBundleResult result => exact hnone _
  | addToWhitelist searcher => exact hnone _
  | removeFromWhitelist searcher => exact hnone _

/-- In a run nothing arrives but what was submitted. -/
theorem ids_run (env : Env) (calls : List PrivateCall) : ∀ session : PoolSession,
    ((calls.foldl (PoolSession.next env) session).arrivals.map (·.id)).Sublist
      (session.arrivals.map (·.id) ++ bundleIds calls) := by
  induction calls with
  | nil => exact fun session => List.sublist_append_left _ _
  | cons call calls ih =>
    intro session
    refine (ih (session.next env call)).trans ?_
    have hcons : bundleIds (call :: calls) = bundleIds [call] ++ bundleIds calls := by
      rw [bundleIds, bundleIds, bundleIds, ← List.filterMap_append]
      rfl
    rw [hcons, ← List.append_assoc]
    exact (ids_next env session call).append_right _

/-- In every run in which the ids of the bundles are different, the queue is sorted by bid, with
equal bids in the order of arrival; no bundle is returned twice, or is queued after it has been
returned; what is returned is for a block in its range, and sorted by bid; and for what is no longer
queued and has never been returned, a block after its range has been asked for. -/
theorem private_pool_delivery (env : Env) (config : PrivatePoolConfig) {calls : List PrivateCall}
    (hids : (bundleIds calls).Nodup) :
    let session := calls.foldl (PoolSession.next env) (new config)
    let queue := session.pool.pendingQueue
    (queue.Pairwise fun first later => later.bidAmount ≤ first.bidAmount) ∧
      (∀ bid, (queue.filter fun bundle => bundle.bidAmount = bid).Sublist session.arrivals) ∧
      ((queue ++ session.returned).map (·.id)).Nodup ∧
      (∀ d ∈ session.deliveries,
        (∀ bundle ∈ d.2, bundle ∈ session.arrivals ∧
          bundle.minBlock ≤ d.1 ∧ d.1 ≤ bundle.maxBlock) ∧
        d.2.Pairwise fun first later => later.bidAmount ≤ first.bidAmount) ∧
      ∀ bundle ∈ session.arrivals, bundle ∈ queue ∨ bundle ∈ session.returned ∨
        ∃ d ∈ session.deliveries, bundle.maxBlock < d.1 := by
  intro session queue
  have h : Inv session := (inv_new config).run env calls
  have hfalling : ∀ {bundles : List PrivateBundle}, Falling PrivateBundle.rank bundles →
      bundles.Pairwise fun first later => later.bidAmount ≤ first.bidAmount :=
    fun hfalling => hfalling.imp BitVec.le_def.mpr
  have hdistinct : (session.arrivals.map (·.id)).Nodup :=
    hids.sublist (ids_run env calls (new config))
  refine ⟨hfalling h.ranked.falling, fun bid => ?_, ?_, fun d hd => ⟨fun bundle hbundle => ?_, ?_⟩,
    h.kept⟩
  · have hbid : (fun bundle : PrivateBundle => decide (bundle.bidAmount = bid))
        = fun bundle => decide (bundle.rank = bid.toNat) :=
      funext fun bundle => decide_eq_decide.mpr BitVec.toNat_inj.symm
    rw [hbid]
    exact h.ranked.stable bid.toNat
  · obtain ⟨bundles, hperm, hsublist⟩ := h.once
    exact (hperm.map _).nodup_iff.mp (hdistinct.sublist (hsublist.map _))
  · refine ⟨h.once.subset (List.mem_append_right _ ?_), h.inRange d hd bundle hbundle⟩
    exact List.mem_flatMap.mpr ⟨d, hd, hbundle⟩
  · exact hfalling (h.falling d hd)

/-- A bundle of no transactions. -/
def sampleBundle (id : UInt8) (minBlock maxBlock : U64) (bidAmount : U256) : PrivateBundle where
  id := Vector.replicate 32 id
  transactions := []
  minBlock
  maxBlock
  searcher := Vector.replicate 20 1
  bidAmount
  revertProtection := false

/-- Three bundles; block 7 is in the range of the first, after that of the second, and before that
of the third. -/
def sampleCalls : List PrivateCall :=
  [.submitBundle (sampleBundle 1 0 10 2000000000), .submitBundle (sampleBundle 2 5 6 3000000000),
    .submitBundle (sampleBundle 3 20 30 2000000000), .getNextBundles 7]

theorem private_pool_delivery_sample :
    let session := sampleCalls.foldl (PoolSession.next (sampleKeccakEnv true).toEnv) (new .default)
    session.pool.pendingQueue = [sampleBundle 3 20 30 2000000000] ∧
      session.returned = [sampleBundle 1 0 10 2000000000] ∧
      ((session.pool.pendingQueue ++ session.returned).map (·.id)).Nodup :=
  ⟨by decide +kernel, by decide +kernel,
    (private_pool_delivery (sampleKeccakEnv true).toEnv .default
      (by decide +kernel : (bundleIds sampleCalls).Nodup)).2.2.1⟩

end PoolSession

end InterBit.Mev
