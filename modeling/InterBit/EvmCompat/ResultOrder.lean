import InterBit.EvmCompat.ParallelEvm

/-!
# When the results of a batch are in order

The results of `execute_batch` stand in the order of the groups. A result has nothing of its
transaction but the gas, and the gas comes from the length of the data. So the results are those
of the transactions in order if the lengths, group by group, are those in order
(`results_match_iff`).
-/

namespace InterBit.EvmCompat.ParallelEvmExecutor

open InterBit.Lib

/-- The groups have every position below `n` once, in increasing order within a group, and all
transactions to one address in one group. -/
structure GroupsPartition (txs : List Transaction) (groups : List (List Nat)) : Prop where
  perm : groups.flatten.Perm (List.range txs.length)
  increasing : ∀ group ∈ groups, group.Pairwise (· < ·)
  together : ∀ (i j : Nat) tx tx' address, txs[i]? = some tx → txs[j]? = some tx' →
    tx.recipient = some address → tx'.recipient = some address →
    ∃ group ∈ groups, i ∈ group ∧ j ∈ group

/-- There are as many results as transactions, and each is what a worker gives for the
transaction at its position. -/
def ResultsMatch (env : Env) (txs : List Transaction) (results : List ExecutionResult) : Prop :=
  results.length = txs.length ∧ ∀ (i : Nat) tx, txs[i]? = some tx →
    ∀ executor, results[i]? = executeOnWorker env executor tx

/-- What the gas depends on: the length of the data, as far as 64 bits of gas can tell. -/
def gasLength (tx : Transaction) : Nat := (dataLen tx).toNat % 2 ^ 60

theorem groupsPartition_analyzeTransactions (txs : List Transaction) :
    GroupsPartition txs (ConflictAnalyzer.analyzeTransactions txs) := by
  rw [ConflictAnalyzer.analyzeTransactions_eq]
  refine ⟨flatten_classes_perm (sameTarget_equivalence txs), fun _ => pairwise_of_mem_classes, ?_⟩
  intro i j tx tx' address hi hj htx htx'
  have hsame : SameTarget txs i j := by
    refine .inr ⟨?_, ?_⟩
    · rw [targetAt, hi, Option.bind_some, htx, Option.isSome_some]
    · rw [targetAt, targetAt, hi, hj, Option.bind_some, Option.bind_some, htx, htx']
  exact exists_mem_classes (sameTarget_equivalence txs) (List.getElem?_eq_some_iff.mp hi).1
    (List.getElem?_eq_some_iff.mp hj).1 hsame

/-- The result gives the length of the data, and the length the result. -/
theorem map_resultOf_eq_iff {txs txs' : List Transaction} :
    txs.map resultOf = txs'.map resultOf ↔ txs.map gasLength = txs'.map gasLength := by
  let lengthOf (result : ExecutionResult) : Nat := (result.gasUsed - 21000).toNat / 16
  let resultAt (length : Nat) : ExecutionResult :=
    ⟨true, 21000 + BitVec.ofNat 64 length * 16, [], []⟩
  have hlength : gasLength = lengthOf ∘ resultOf := by
    funext tx
    show gasLength tx = (21000 + dataLen tx * 16 - 21000).toNat / 16
    have hproduct : (dataLen tx * 16).toNat = (dataLen tx).toNat * 16 % 2 ^ 64 :=
      BitVec.toNat_mul ..
    rw [BitVec.add_comm, BitVec.add_sub_cancel, hproduct, gasLength]
    omega
  have hresult : resultOf = resultAt ∘ gasLength := by
    funext tx
    have hgas : dataLen tx * 16 = BitVec.ofNat 64 (gasLength tx) * 16 := by
      refine BitVec.eq_of_toNat_eq ?_
      have hproduct (a : U64) : (a * 16).toNat = a.toNat * 16 % 2 ^ 64 := BitVec.toNat_mul ..
      rw [hproduct, hproduct, BitVec.toNat_ofNat, gasLength]
      omega
    show ExecutionResult.mk true (21000 + dataLen tx * 16) [] [] = _
    rw [hgas]
    rfl
  constructor
  · intro h
    rw [hlength, ← List.map_map, ← List.map_map, h]
  · intro h
    rw [hresult, ← List.map_map, ← List.map_map, h]

/-- A list of answers is one of results if there is no panic. -/
theorem mapM_answer_eq_some_iff {env : Env} {workerCount : Nat} {txs : List Transaction} :
    ∀ {results : List ExecutionResult}, txs.mapM (answer env workerCount) = some results ↔
      (∀ tx ∈ txs, workerCount ≠ 0 ∧ GasFits env tx) ∧ txs.map resultOf = results := by
  induction txs with
  | nil => exact ⟨fun h => ⟨nofun, Option.some.inj h⟩, fun h => congrArg some h.2⟩
  | cons tx txs ih =>
    intro results
    rw [List.mapM_cons, List.forall_mem_cons, List.map_cons]
    by_cases hfits : workerCount ≠ 0 ∧ GasFits env tx
    · rw [answer, if_pos hfits, and_iff_right hfits]
      show (txs.mapM (answer env workerCount)).bind (fun rest => some (resultOf tx :: rest)) = _ ↔ _
      rw [Option.bind_eq_some_iff]
      constructor
      · rintro ⟨rest, hrest, hcons⟩
        obtain ⟨hall, hmap⟩ := ih.mp hrest
        exact ⟨hall, hmap ▸ Option.some.inj hcons⟩
      · rintro ⟨hall, rfl⟩
        exact ⟨txs.map resultOf, ih.mpr ⟨hall, rfl⟩, rfl⟩
    · rw [answer, if_neg hfits]
      exact ⟨nofun, fun h => absurd h.1.1 hfits⟩

/-- The results match if they are those of the transactions in order. -/
theorem resultsMatch_iff {env : Env} {txs : List Transaction} {results : List ExecutionResult}
    (h : ∀ tx ∈ txs, GasFits env tx) :
    ResultsMatch env txs results ↔ results = txs.map resultOf := by
  have hworker (executor : SingleEvmExecutor) (tx : Transaction) (htx : tx ∈ txs) :
      executeOnWorker env executor tx = some (resultOf tx) := by
    rw [executeOnWorker_eq, if_pos (h tx htx)]
  constructor
  · rintro ⟨hlength, heach⟩
    refine List.ext_getElem? fun i => ?_
    rw [List.getElem?_map]
    cases hi : txs[i]? with
    | none =>
      rw [List.getElem?_eq_none (hlength ▸ List.getElem?_eq_none_iff.mp hi), Option.map_none]
    | some tx => exact (heach i tx hi ⟨0⟩).trans (hworker _ tx (List.mem_of_getElem? hi))
  · rintro rfl
    refine ⟨List.length_map .., fun i tx hi executor => ?_⟩
    rw [List.getElem?_map, hi, Option.map_some, hworker executor tx (List.mem_of_getElem? hi)]

/-- The groups of a batch partition it, and the results match the transactions, exactly if the
batch is empty, or there is a worker, no gas overflows and the lengths of the data, group by group,
are those in order. -/
theorem results_match_iff (env : EvmEnv) (workerCount : Nat) (batches : List Batch)
    (draws : Nat → Nat) (txs : List Transaction)
    (hkey : Set.InjOn env.cacheKey {tx | tx ∈ batches.flatMap (·.transactions) ++ txs}) :
    (GroupsPartition txs (ConflictAnalyzer.analyzeTransactions txs) ∧
      ∃ results,
        (executeBatch env draws txs (afterBatches env workerCount batches)).1 = some results ∧
        ResultsMatch env.toEnv txs results) ↔
    txs = [] ∨ workerCount ≠ 0 ∧ (∀ tx ∈ txs, GasFits env.toEnv tx) ∧
      (groupedTxs txs).map gasLength = txs.map gasLength := by
  have hperm := groupedTxs_perm txs
  have hright : Right env workerCount _ (afterBatches env workerCount batches) :=
    right_afterBatches hkey fun batch hbatch tx htx =>
      List.mem_append_left _ (List.mem_flatMap.mpr ⟨batch, hbatch, htx⟩)
  have hanswer := (gives_executeBatch hkey draws (fun tx htx => List.mem_append_right _ htx)
    _ hright).1
  rw [and_iff_right (groupsPartition_analyzeTransactions txs), hanswer]
  constructor
  · rintro ⟨results, hresults, hmatch⟩
    obtain ⟨hall, rfl⟩ := mapM_answer_eq_some_iff.mp hresults
    by_cases hempty : txs = []
    · exact .inl hempty
    obtain ⟨tx, htx⟩ := List.exists_mem_of_ne_nil txs hempty
    have hfits : ∀ tx ∈ txs, GasFits env.toEnv tx :=
      fun tx htx => (hall tx (hperm.mem_iff.mpr htx)).2
    refine .inr ⟨(hall tx (hperm.mem_iff.mpr htx)).1, hfits, ?_⟩
    exact map_resultOf_eq_iff.mp ((resultsMatch_iff hfits).mp hmatch)
  · rintro (rfl | ⟨hworker, hfits, hlengths⟩)
    · exact ⟨[], rfl, rfl, nofun⟩
    · refine ⟨_, mapM_answer_eq_some_iff.mpr ⟨fun tx htx => ?_, rfl⟩, ?_⟩
      · exact ⟨hworker, hfits tx (hperm.mem_iff.mp htx)⟩
      · exact (resultsMatch_iff hfits).mpr (map_resultOf_eq_iff.mpr hlengths)

/-- A digest that is the beginning of its preimage, and a codec of the data alone. -/
def sampleEvmEnv : EvmEnv where
  sha256 bytes := Vector.ofFn fun i => bytes.getD i 0
  overflowChecks := true
  serialize tx := tx.data
  firstKey cache := cache.keys.head?

/-- A call with some data. -/
def sampleCall (address : UInt8) (data : List UInt8) : Transaction where
  sender := .replicate 20 7
  recipient := some (.replicate 20 address)
  value := 0
  data := data
  gasLimit := 30000
  gasPrice := 1
  nonce := 0

theorem results_match_iff_sample :
    GroupsPartition [sampleCall 9 [1], sampleCall 8 [2], sampleCall 9 [3]]
      (ConflictAnalyzer.analyzeTransactions
        [sampleCall 9 [1], sampleCall 8 [2], sampleCall 9 [3]]) ∧
    ∃ results,
      (executeBatch sampleEvmEnv id [sampleCall 9 [1], sampleCall 8 [2], sampleCall 9 [3]]
        (afterBatches sampleEvmEnv 4 [])).1 = some results ∧
      ResultsMatch sampleEvmEnv.toEnv [sampleCall 9 [1], sampleCall 8 [2], sampleCall 9 [3]]
        results := by
  have hkey : ∀ tx ∈ [sampleCall 9 [1], sampleCall 8 [2], sampleCall 9 [3]],
      ∀ tx' ∈ [sampleCall 9 [1], sampleCall 8 [2], sampleCall 9 [3]],
      sampleEvmEnv.cacheKey tx = sampleEvmEnv.cacheKey tx' → tx = tx' := by decide
  exact (results_match_iff sampleEvmEnv 4 [] id
    [sampleCall 9 [1], sampleCall 8 [2], sampleCall 9 [3]]
    (fun tx htx tx' htx' => hkey tx htx tx' htx')).mpr (.inr ⟨by decide, by decide, by decide⟩)

/-- Two calls to one contract with another between them: the second result is that of the third. -/
theorem sampleCalls_out_of_order :
    ¬ ∀ txs, ∃ results,
      (executeBatch sampleEvmEnv id txs (afterBatches sampleEvmEnv 4 [])).1 = some results ∧
      ResultsMatch sampleEvmEnv.toEnv txs results := by
  intro h
  obtain ⟨results, hresults, -, hmatch⟩ :=
    h [sampleCall 9 [], sampleCall 8 [1], sampleCall 9 [2, 3]]
  have hsecond := hmatch 1 _ rfl ⟨0⟩
  have hrun : (executeBatch sampleEvmEnv id
      [sampleCall 9 [], sampleCall 8 [1], sampleCall 9 [2, 3]]
      (afterBatches sampleEvmEnv 4 [])).1
      = some [resultOf (sampleCall 9 []), resultOf (sampleCall 9 [2, 3]),
        resultOf (sampleCall 8 [1])] := by decide
  rw [← Option.some.inj (hrun.symm.trans hresults)] at hsecond
  exact absurd hsecond (by decide)

end InterBit.EvmCompat.ParallelEvmExecutor
