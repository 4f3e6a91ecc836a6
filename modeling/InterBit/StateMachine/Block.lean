import InterBit.Lib.Rounds
import InterBit.StateMachine.Grouping

/-!
# The execution of a block

`execute_transactions_parallel` (`execute_block`) of `state_machine/executor.rs`: group
after group, each worked off by up to 16 workers that read and write the accounts
without any lock; then the receipts are collected, up to the first error.

All transactions come into one group, also those that depend on each other, so two
that have an account in common run at the same time and may lose an update.
`executeBlock_eq_serial`: transactions without an account in common end as in the
serial run, in every interleaving.
-/

namespace InterBit.StateMachine.Block

open InterBit.Lib

/-- `MAX_PARALLEL_WORKERS`. -/
def maxParallelWorkers : Nat := 16

/-- A transaction with its place in the queue, so that equal ones are told apart. -/
abbrev Queued := Transaction × Nat

/-- "Collect the results": the receipts, or the first error. -/
def collectReceipts : List (Except StateMachineError TransactionReceipt) →
    Except StateMachineError (List TransactionReceipt)
  | [] => .ok []
  | .ok receipt :: sent =>
    match collectReceipts sent with
    | .ok receipts => .ok (receipt :: receipts)
    | .error e => .error e
  | .error e :: _ => .error e

/-- `execute_group_parallel`, group after group. -/
def blockRounds (env : Env) :
    Rounds Queued Address Account StateMachineError TransactionReceipt
      (IterOrder (Sigma fun _ : Address => Account)) (List TransactionReceipt)
      StateMachineError where
  workers n := min maxParallelWorkers n
  code order task := executeSingleTransaction env order task.1
  collect sent accounts allReceipts := (collectReceipts sent |>.map (allReceipts ++ ·), accounts)

/-- The groups of a block. -/
def executionGroups (accounts : Accounts) (transactions : List Transaction) :
    List (List Transaction) :=
  groupByDependency transactions (buildDependencyGraph accounts transactions)

/-- The start of `execute_transactions_parallel`. The mean time per transaction is a
division by zero if there is none. -/
def executeTransactionsParallel (accounts : Accounts) (transactions : List Transaction) :
    RoundState Queued Address Account StateMachineError TransactionReceipt
      (List TransactionReceipt) StateMachineError :=
  if transactions.isEmpty then .panicked
  else Rounds.enter accounts [] ((executionGroups accounts transactions).map (·.zipIdx))

/-! ## The receipts -/

theorem collectReceipts_ok {sent : List (Except StateMachineError TransactionReceipt)}
    (h : ∀ x ∈ sent, ∃ receipt, x = .ok receipt) :
    collectReceipts sent = .ok (sent.filterMap Except.toOption) := by
  induction sent with
  | nil => rfl
  | cons x sent ih =>
    obtain ⟨⟨receipt, rfl⟩, hrest⟩ := List.forall_mem_cons.mp h
    unfold collectReceipts
    rw [ih hrest]
    rfl

theorem collectReceipts_error {sent : List (Except StateMachineError TransactionReceipt)}
    {e : StateMachineError} (h : collectReceipts sent = .error e) : .error e ∈ sent := by
  induction sent with
  | nil => cases h
  | cons x sent ih =>
    cases x with
    | error e' =>
      cases h
      exact List.mem_cons_self ..
    | ok receipt =>
      unfold collectReceipts at h
      match hrest : collectReceipts sent with
      | .ok receipts =>
        rw [hrest] at h
        cases h
      | .error e' =>
        rw [hrest] at h
        cases h
        exact List.mem_cons_of_mem _ (ih hrest)

/-- After the last group, only the receipts are looked at. -/
theorem finish_blockRounds (env : Env)
    (pool : Pool Queued Address Account StateMachineError TransactionReceipt) :
    (blockRounds env).finish pool [] [] = .ended pool.memory (collectReceipts pool.sent) := by
  unfold Rounds.finish blockRounds
  dsimp only
  match collectReceipts pool.sent with
  | .ok receipts => rfl
  | .error e => rfl

/-! ## The serial run -/

/-- What a task gives when it runs alone. -/
def queuedAlone (env : Env) (task : Queued) :
    Accounts → Outcome StateMachineError TransactionReceipt × Accounts :=
  executeAlone env task.1

theorem queued_footprints (env : Env) :
    Footprints (blockRounds env).code (queuedAlone env) (fun task => task.1.Touches env) where
  run order task accounts := run_executeSingleTransaction env order task.1 accounts
  confined order task accounts := executeSingleTransaction_confined env task.1 accounts order

/-- Queued transactions are related as they are in the list. -/
theorem pairwise_queued {R : Transaction → Transaction → Prop} {transactions : List Transaction}
    (h : transactions.Pairwise R) : transactions.zipIdx.Pairwise fun s t => R s.1 t.1 := by
  rw [← List.zipIdx_map_fst 0 transactions] at h
  exact List.pairwise_map.mp h

/-- No two tasks of a group have the same name. -/
theorem nodup_zipIdx (group : List Transaction) : group.zipIdx.Nodup :=
  .of_map Prod.snd (List.nodup_zipIdx_map_snd group)

theorem serially_queuedAlone (env : Env) (transactions : List Transaction) (accounts : Accounts) :
    serially (queuedAlone env) transactions.zipIdx accounts
      = serially (executeAlone env) transactions accounts := by
  have hmap := serially_map (executeAlone env) (Prod.fst : Queued → Transaction)
    transactions.zipIdx accounts
  rwa [List.zipIdx_map_fst] at hmap

/-- Transactions that have no account in common, none a contract that calls itself: every
interleaving gives the accounts and the receipts of the serial run. -/
theorem executeBlock_eq_serial {env : Env}
    (serialOrder : IterOrder (Sigma fun _ : Address => Account)) {accounts : Accounts}
    {transactions : List Transaction} (hne : transactions ≠ [])
    (hok : ∀ o ∈ (executeSerially env serialOrder transactions accounts).1, o.value ≠ none)
    (hapart : transactions.Pairwise (Apart (Transaction.Touches env)))
    (hself : ∀ tx ∈ transactions, tx.recipient = some tx.sender →
      hasCode (accounts tx.sender) = false) :
    Inevitable (blockRounds env).Next
      (fun s => ∃ receipts,
        s = .ended (executeSerially env serialOrder transactions accounts).2 (.ok receipts) ∧
        receipts.Perm
          ((executeSerially env serialOrder transactions accounts).1.filterMap Outcome.value))
      (executeTransactionsParallel accounts transactions) := by
  rw [executeSerially_eq] at hok ⊢
  -- Nobody depends on anybody, so all come into one group.
  have hgroups : executionGroups accounts transactions = [transactions] := by
    unfold executionGroups
    rw [groupByDependency_eq (deps_le accounts transactions),
      firstGroup_of_deps_eq_nil (deps_eq_nil hapart hself), if_neg fun he => ?_]
    exact hne (List.isEmpty_iff.mp he)
  have hstart : executeTransactionsParallel accounts transactions
      = .running (Pool.start accounts transactions.zipIdx) [] [] := by
    unfold executeTransactionsParallel
    rw [if_neg fun he => hne (List.isEmpty_iff.mp he), hgroups]
    rfl
  have hlength : 0 < min maxParallelWorkers transactions.zipIdx.length := by
    rw [List.length_zipIdx]
    exact Nat.lt_min.mpr ⟨by decide, List.length_pos_iff.mpr hne⟩
  have hapart' : transactions.zipIdx.Pairwise
      (Apart fun (task : Queued) => task.1.Touches env) := pairwise_queued hapart
  have hserial := serially_queuedAlone env transactions accounts
  rw [hstart]
  -- The group ends as the serial run; what is left is to collect its receipts.
  refine Rounds.inevitable_round (queued_footprints env)
    (fun order task _ m => accesses_executeSingleTransaction env task.1 m order) hlength hapart' ?_
    fun pool hmemory hsent => ?_
  · rw [hserial]
    exact fun hpanic => hok _ hpanic rfl
  · rw [hserial] at hmemory hsent
    have hok' : ∀ o ∈ (serially (executeAlone env) transactions accounts).1, ∃ receipt,
        o = .ok receipt := by
      intro o ho
      cases o with
      | ok receipt => exact ⟨receipt, rfl⟩
      | err e => exact absurd rfl (hok _ ho)
      | panicked => exact absurd rfl (hok _ ho)
    have hall : ∀ x ∈ pool.sent, ∃ receipt, x = .ok receipt := by
      intro x hx
      obtain ⟨o, ho, hresult⟩ := List.mem_filterMap.mp (hsent.subset hx)
      obtain ⟨receipt, rfl⟩ := hok' o ho
      exact ⟨receipt, (Option.some.inj hresult).symm⟩
    rw [finish_blockRounds, collectReceipts_ok hall, hmemory]
    refine .now ⟨_, rfl, (hsent.filterMap _).trans (.of_eq ?_)⟩
    rw [List.filterMap_filterMap]
    refine List.filterMap_congr fun o ho => ?_
    obtain ⟨receipt, rfl⟩ := hok' o ho
    rfl

/-- Alice pays Carol, Bob pays Dave. -/
theorem executeBlock_eq_serial_two :
    Inevitable (blockRounds sampleEnv).Next
      (fun s => ∃ receipts,
        s = .ended (executeSerially sampleEnv sampleOrder
          [sampleTransfer alice carol 5, sampleTransfer bob dave 7] sampleAccounts).2
          (.ok receipts) ∧
        receipts.Perm ((executeSerially sampleEnv sampleOrder
          [sampleTransfer alice carol 5, sampleTransfer bob dave 7] sampleAccounts).1.filterMap
            Outcome.value))
      (executeTransactionsParallel sampleAccounts
        [sampleTransfer alice carol 5, sampleTransfer bob dave 7]) :=
  executeBlock_eq_serial sampleOrder (List.cons_ne_nil _ _) (by decide +kernel)
    (by decide +kernel) (by decide +kernel)

/-- Two workers: the first reads everything, then the second does everything, then the
first writes. -/
def sampleRace : List (RoundAction (IterOrder (Sigma fun _ : Address => Account))) :=
  [.worker (.recv sampleOrder), .worker (.recv sampleOrder)]
    ++ List.replicate 4 (.worker (.act 0)) ++ List.replicate 7 (.worker (.act 1))
    ++ List.replicate 3 (.worker (.act 0)) ++ [.join]

/-- Alice and Bob pay Carol at the same time, and Bob's payment is lost. -/
theorem executeBlock_loses_update :
    (∀ o ∈ (executeSerially sampleEnv sampleOrder
        [sampleTransfer alice carol 5, sampleTransfer bob carol 7] sampleAccounts).1,
      o.value ≠ none) ∧
    ¬ Inevitable (blockRounds sampleEnv).Next
      (fun s => ∃ receipts,
        s = .ended (executeSerially sampleEnv sampleOrder
          [sampleTransfer alice carol 5, sampleTransfer bob carol 7] sampleAccounts).2
          (.ok receipts) ∧
        receipts.Perm ((executeSerially sampleEnv sampleOrder
          [sampleTransfer alice carol 5, sampleTransfer bob carol 7] sampleAccounts).1.filterMap
            Outcome.value))
      (executeTransactionsParallel sampleAccounts
        [sampleTransfer alice carol 5, sampleTransfer bob carol 7]) := by
  refine ⟨by decide +kernel, fun h => ?_⟩
  obtain ⟨receipts, heq, -⟩ := Rounds.holds_of_replay
    (fun s hs => by obtain ⟨receipts, rfl, -⟩ := hs; exact ⟨_, _, rfl⟩) sampleRace _ h rfl
  injection heq with hmemory _
  have hcarol := congrFun hmemory carol
  revert hcarol
  decide +kernel

end InterBit.StateMachine.Block
