import Mathlib.Algebra.Order.BigOperators.Group.List
import InterBit.Lib.Assoc
import InterBit.Lib.Rounds
import InterBit.StateMachine.Independence
import InterBit.StateMachine.Schedule

/-!
# The parallel executor

`execute_batch` of `state_machine/parallel.rs`: the batches of `topological_sort`,
each worked off by a pool of workers. A worker executes its transaction and then
reads back the accounts of the task's write set; when the workers are done, the
accounts that were read back are written once more.

The locks of `ConflictDetector` are left out: the tasks of a batch have disjoint
write sets (`topologicalSort_conflictFree`), so no worker waits for a lock of
another, and nobody waits for a read lock.

`executeBatch_eq_serial` says that transactions which can change places leave the
accounts and give the receipts of the serial run. Others need not, since of two
that conflict the later one is executed first.
-/

namespace InterBit.StateMachine

open InterBit.Lib

/-- `struct ExecutionResult`. -/
structure ExecutionResult where
  taskId : Nat
  receipt : Except StateMachineError TransactionReceipt
  stateChanges : StateChanges

/-- The iteration orders of the hash maps and hash sets of a call. -/
structure HashOrders where
  /-- Of the map `state_changes` of a transaction, by task. -/
  changes : Nat → IterOrder (Sigma fun _ : Address => Account)
  /-- Of the set `write_set`, by task. -/
  writeSet : Nat → IterOrder Address
  /-- Of the map `state_changes` of a result, by task. -/
  captured : Nat → IterOrder (Sigma fun _ : Address => Account)
  graph : IterOrder (Nat × List Nat)
  inDegree : IterOrder (Nat × Nat)

/-- "Collect the state changes". -/
def captureAccounts : List Address → StateChanges → Exec StateChanges
  | [], stateChanges => pure stateChanges
  | address :: addresses, stateChanges => do
    match ← getAccount address with
    | some account => captureAccounts addresses (stateChanges.insert address account)
    | none => captureAccounts addresses stateChanges

/-- `execute_task`. -/
def executeTask (env : Env) (orders : HashOrders) (task : ExecutionTask) : Exec ExecutionResult := do
  let receipt ← (executeSingleTransaction env (orders.changes task.id) task.transaction).attempt
  let stateChanges ← captureAccounts ((orders.writeSet task.id).arrange task.writeSet) ∅
  pure { taskId := task.id, receipt, stateChanges }

/-- "Apply the state changes". -/
def writeBack (entries : List (Sigma fun _ : Address => Account)) (accounts : Accounts) :
    Accounts :=
  entries.foldl (fun accounts e => Function.update accounts e.1 (some e.2)) accounts

/-- "Collect the results". -/
def collectResults (orders : HashOrders) : List ExecutionResult → Accounts →
    List TransactionReceipt × Accounts
  | [], accounts => ([], accounts)
  | result :: results, accounts =>
    match result.receipt with
    | .ok receipt =>
      let entries := (orders.captured result.taskId).arrange result.stateChanges.entries
      let rest := collectResults orders results (writeBack entries accounts)
      (receipt :: rest.1, rest.2)
    | .error _ => collectResults orders results accounts

/-- `execute_parallel_batch`, batch after batch, with `workerCount` workers at most. -/
def batchRounds (env : Env) (orders : HashOrders) (workerCount : Nat) :
    Rounds ExecutionTask Address Account StateMachineError ExecutionResult Unit
      (List TransactionReceipt) Empty where
  workers n := min workerCount n
  code _ task := executeTask env orders task
  collect sent accounts receipts :=
    let (batchReceipts, accounts) := collectResults orders (sent.filterMap Except.toOption) accounts
    (.ok (receipts ++ batchReceipts), accounts)

/-- The batches that `execute_batch` goes through. -/
def executionOrder (orders : HashOrders) (accounts : Accounts) (transactions : List Transaction) :
    List (List ExecutionTask) :=
  let tasks := analyzeTransactions accounts transactions
  topologicalSort orders.graph orders.inDegree tasks (buildDependencyGraph tasks)

/-- The start of `execute_batch`. -/
def executeBatch (orders : HashOrders) (accounts : Accounts) (transactions : List Transaction) :
    RoundState ExecutionTask Address Account StateMachineError ExecutionResult
      (List TransactionReceipt) Empty :=
  Rounds.enter accounts [] (executionOrder orders accounts transactions)

/-! ## A task -/

theorem captureAccounts_confined {R W : Address → Prop} {addresses : List Address}
    (h : ∀ address ∈ addresses, R address) (accounts : Accounts) :
    ∀ stateChanges : StateChanges,
      (captureAccounts addresses stateChanges).Confined R W accounts := by
  induction addresses with
  | nil => exact fun _ => trivial
  | cons address addresses ih =>
    obtain ⟨haddress, hrest⟩ := List.forall_mem_cons.mp h
    intro stateChanges
    refine ⟨haddress, ?_⟩
    cases accounts address with
    | none => exact ih hrest _
    | some account => exact ih hrest _

theorem accesses_captureAccounts (addresses : List Address) (accounts : Accounts) :
    ∀ stateChanges : StateChanges,
      (captureAccounts addresses stateChanges).accesses accounts = addresses.length := by
  induction addresses with
  | nil => exact fun _ => rfl
  | cons address addresses ih =>
    intro stateChanges
    refine congrArg (· + 1) ?_
    cases accounts address with
    | none => exact ih _
    | some account => exact ih _

/-- What is read back is there. -/
theorem run_captureAccounts (addresses : List Address) (accounts : Accounts) :
    ∀ stateChanges : StateChanges, ∃ captured : StateChanges,
      (captureAccounts addresses stateChanges).run accounts = (.ok captured, accounts) ∧
      ∀ address account, captured.lookup address = some account →
        stateChanges.lookup address = some account ∨
          address ∈ addresses ∧ accounts address = some account := by
  induction addresses with
  | nil => exact fun stateChanges => ⟨stateChanges, rfl, fun _ _ h => Or.inl h⟩
  | cons head addresses ih =>
    intro stateChanges
    have hstep : (captureAccounts (head :: addresses) stateChanges).run accounts
        = (match accounts head with
          | some account => captureAccounts addresses (stateChanges.insert head account)
          | none => captureAccounts addresses stateChanges).run accounts := rfl
    rw [hstep]
    match hhead : accounts head with
    | none =>
      obtain ⟨captured, hrun, hcaptured⟩ := ih stateChanges
      exact ⟨captured, hrun, fun a b h => (hcaptured a b h).imp_right fun h =>
        ⟨List.mem_cons_of_mem _ h.1, h.2⟩⟩
    | some account =>
      obtain ⟨captured, hrun, hcaptured⟩ := ih (stateChanges.insert head account)
      refine ⟨captured, hrun, fun a b h => ?_⟩
      cases hcaptured a b h with
      | inr hmem => exact Or.inr ⟨List.mem_cons_of_mem _ hmem.1, hmem.2⟩
      | inl hlookup =>
        rcases lookup_insert_eq_some.mp hlookup with ⟨ha, hb⟩ | ⟨_, hold⟩
        · exact Or.inr ⟨ha ▸ List.mem_cons_self .., by rw [ha, hhead, hb]⟩
        · exact Or.inl hold

/-- What a task gives when it runs alone. -/
def executeTaskAlone (env : Env) (orders : HashOrders) (task : ExecutionTask) :
    Accounts → Outcome StateMachineError ExecutionResult × Accounts :=
  (executeTask env orders task).run

/-- What a result says about its transaction. -/
def ExecutionResult.outcome (result : ExecutionResult) :
    Outcome StateMachineError TransactionReceipt :=
  match result.receipt with
  | .ok receipt => .ok receipt
  | .error e => .err e

/-- What the outcome of a task says about its transaction. -/
def transactionOutcome : Outcome StateMachineError ExecutionResult →
    Outcome StateMachineError TransactionReceipt
  | .ok result => result.outcome
  | .err e => .err e
  | .panicked => .panicked

section Task

variable (env : Env) (orders : HashOrders) (task : ExecutionTask) (accounts : Accounts)

/-- A task executes its transaction, and reads back what is then in its write set. -/
theorem executeTaskAlone_eq :
    transactionOutcome (executeTaskAlone env orders task accounts).1
        = (executeAlone env task.transaction accounts).1 ∧
      (executeTaskAlone env orders task accounts).2
        = (executeAlone env task.transaction accounts).2 ∧
      ∀ result, (executeTaskAlone env orders task accounts).1 = .ok result →
        ∀ address account, result.stateChanges.lookup address = some account →
          address ∈ task.writeSet ∧
            (executeAlone env task.transaction accounts).2 address = some account := by
  have hrun : (executeSingleTransaction env (orders.changes task.id) task.transaction).run accounts
      = executeAlone env task.transaction accounts :=
    run_executeSingleTransaction env _ task.transaction accounts
  unfold executeTaskAlone executeTask
  rw [Prog.run_bind, Prog.run_attempt, hrun]
  obtain ⟨o, after⟩ := executeAlone env task.transaction accounts
  obtain ⟨captured, hcapture, hcaptured⟩ :=
    run_captureAccounts ((orders.writeSet task.id).arrange task.writeSet) after ∅
  -- What is read back is what the transaction has left in the write set.
  have hread : ∀ address account, captured.lookup address = some account →
      address ∈ task.writeSet ∧ after address = some account := by
    intro address account hlookup
    cases hcaptured address account hlookup with
    | inl hempty => cases hempty
    | inr hmem => exact ⟨((orders.writeSet task.id).perm _).mem_iff.mp hmem.1, hmem.2⟩
  cases o with
  | panicked => exact ⟨rfl, rfl, fun result h => nomatch h⟩
  | ok receipt =>
    dsimp only [Outcome.attempted]
    rw [Prog.run_bind, hcapture]
    refine ⟨rfl, rfl, fun result h => ?_⟩
    cases h
    exact hread
  | err e =>
    dsimp only [Outcome.attempted]
    rw [Prog.run_bind, hcapture]
    refine ⟨rfl, rfl, fun result h => ?_⟩
    cases h
    exact hread

end Task

/-- One after the other, tasks give what their transactions give. -/
theorem serially_executeTaskAlone (env : Env) (orders : HashOrders) (tasks : List ExecutionTask) :
    ∀ accounts : Accounts,
      (serially (executeTaskAlone env orders) tasks accounts).1.map transactionOutcome
          = (serially (executeAlone env) (tasks.map (·.transaction)) accounts).1 ∧
        (serially (executeTaskAlone env orders) tasks accounts).2
          = (serially (executeAlone env) (tasks.map (·.transaction)) accounts).2 := by
  induction tasks with
  | nil => exact fun accounts => ⟨rfl, rfl⟩
  | cons task tasks ih =>
    intro accounts
    obtain ⟨houtcome, hmemory, -⟩ := executeTaskAlone_eq env orders task accounts
    obtain ⟨houtcomes, hmemories⟩ := ih (executeTaskAlone env orders task accounts).2
    rw [hmemory] at houtcomes hmemories
    simp only [serially, List.map_cons]
    rw [hmemory, houtcomes, hmemories, houtcome]
    exact ⟨rfl, rfl⟩

/-- The accounts that a task reads or writes. -/
def ExecutionTask.Touches (env : Env) (task : ExecutionTask) (address : Address) : Prop :=
  task.transaction.Touches env address ∨ address ∈ task.writeSet

theorem executeTask_footprints (env : Env) (orders : HashOrders) :
    Footprints (fun (_ : Unit) => executeTask env orders) (executeTaskAlone env orders)
      (ExecutionTask.Touches env) where
  run _ _ _ := rfl
  confined _ task accounts := by
    have hexecute := executeSingleTransaction_confined env task.transaction accounts
      (orders.changes task.id)
    have hread : ∀ address ∈ (orders.writeSet task.id).arrange task.writeSet,
        task.Touches env address := fun address hmem =>
      Or.inr (((orders.writeSet task.id).perm _).mem_iff.mp hmem)
    exact (hexecute.mono (fun _ => Or.inl) fun _ => Or.inl).attempt.bind fun _ _ _ =>
      (captureAccounts_confined hread _ _).bind fun _ _ _ => trivial

theorem accesses_executeTask (env : Env) (orders : HashOrders) (task : ExecutionTask)
    (accounts : Accounts) :
    (executeTask env orders task).accesses accounts ≤ 6 + task.writeSet.length := by
  refine Prog.accesses_bind_le ?_ fun receipt m _ => ?_
  · rw [Prog.accesses_attempt]
    exact accesses_executeSingleTransaction env _ accounts _
  · refine Prog.accesses_bind_le (j := 0) ?_ fun _ _ _ => Nat.le_refl 0
    rw [accesses_captureAccounts, ((orders.writeSet task.id).perm _).length_eq]

/-! ## A batch -/

/-- Accounts that are written back as they are stay as they are. -/
theorem writeBack_eq {accounts : Accounts} {entries : List (Sigma fun _ : Address => Account)}
    (h : ∀ e ∈ entries, accounts e.1 = some e.2) : writeBack entries accounts = accounts := by
  unfold writeBack
  induction entries with
  | nil => rfl
  | cons e entries ih =>
    obtain ⟨he, hrest⟩ := List.forall_mem_cons.mp h
    rw [List.foldl_cons, ← he, Function.update_eq_self, ih hrest]

theorem collectResults_eq (orders : HashOrders) {results : List ExecutionResult}
    {accounts : Accounts} (h : ∀ result ∈ results, ∀ address account,
      result.stateChanges.lookup address = some account → accounts address = some account) :
    collectResults orders results accounts
      = (results.filterMap fun result => result.receipt.toOption, accounts) := by
  induction results with
  | nil => rfl
  | cons result results ih =>
    obtain ⟨hresult, hrest⟩ := List.forall_mem_cons.mp h
    unfold collectResults
    match hreceipt : result.receipt with
    | .error e =>
      rw [List.filterMap_cons, hreceipt]
      exact ih hrest
    | .ok receipt =>
      have hentries : ∀ e ∈ (orders.captured result.taskId).arrange result.stateChanges.entries,
          accounts e.1 = some e.2 := fun e he =>
        hresult e.1 e.2 (AList.mem_lookup_iff.mpr ((IterOrder.perm _ _).mem_iff.mp he))
      dsimp only
      rw [writeBack_eq hentries, ih hrest, List.filterMap_cons, hreceipt]
      rfl

/-- The receipts in the results of some tasks. -/
theorem filterMap_value (outcomes : List (Outcome StateMachineError ExecutionResult)) :
    ((outcomes.filterMap Outcome.result).filterMap Except.toOption).filterMap
        (fun result => result.receipt.toOption)
      = (outcomes.map transactionOutcome).filterMap Outcome.value := by
  induction outcomes with
  | nil => rfl
  | cons o outcomes ih =>
    rw [List.map_cons, List.filterMap_cons (f := Outcome.value), ← ih]
    cases o with
    | panicked => rfl
    | err e => rfl
    | ok result =>
      unfold transactionOutcome ExecutionResult.outcome
      match hreceipt : result.receipt with
      | .ok receipt =>
        simp only [List.filterMap_cons, Outcome.result, Except.toOption, hreceipt, Outcome.value]
      | .error e =>
        simp only [List.filterMap_cons, Outcome.result, Except.toOption, hreceipt, Outcome.value]

/-- What was read back after a batch is what is there at its end. -/
theorem captured_of_batch {env : Env} {orders : HashOrders} {batch : List ExecutionTask}
    (hapart : batch.Pairwise (Apart (ExecutionTask.Touches env))) {accounts : Accounts}
    {result : ExecutionResult}
    (hresult : .ok result ∈ (serially (executeTaskAlone env orders) batch accounts).1)
    {address : Address} {account : Account}
    (hlookup : result.stateChanges.lookup address = some account) :
    (serially (executeTaskAlone env orders) batch accounts).2 address = some account := by
  obtain ⟨houtcomes, hmemories, -⟩ := (executeTask_footprints env orders).serially_eq accounts batch
    accounts hapart fun _ _ _ _ => rfl
  rw [houtcomes] at hresult
  obtain ⟨task, htask, hrun⟩ := List.mem_map.mp hresult
  obtain ⟨-, hmemory, hcaptured⟩ := executeTaskAlone_eq env orders task accounts
  obtain ⟨hmem, haccount⟩ := hcaptured result hrun address account hlookup
  rw [← hmemories task htask address (Or.inr hmem), hmemory]
  exact haccount

section Rounds

variable {env : Env} {orders : HashOrders} {workerCount : Nat}

/-- Collecting the results of a batch gives its receipts, and writing the accounts back
changes nothing. -/
theorem finish_batch {batch : List ExecutionTask}
    (hapart : batch.Pairwise (Apart (ExecutionTask.Touches env))) {accounts : Accounts}
    {pool : Pool ExecutionTask Address Account StateMachineError ExecutionResult}
    (hmemory : pool.memory = (serially (executeTaskAlone env orders) batch accounts).2)
    (hsent : pool.sent.Perm
      ((serially (executeTaskAlone env orders) batch accounts).1.filterMap Outcome.result))
    (rest : List (List ExecutionTask)) (collected : List TransactionReceipt) :
    ∃ receipts, (batchRounds env orders workerCount).finish pool rest collected
        = Rounds.enter (serially (executeAlone env) (batch.map (·.transaction)) accounts).2
            (collected ++ receipts) rest ∧
      receipts.Perm ((serially (executeAlone env) (batch.map (·.transaction)) accounts).1.filterMap
        Outcome.value) := by
  obtain ⟨houtcomes, hmemories⟩ := serially_executeTaskAlone env orders batch accounts
  have hcollect : collectResults orders (pool.sent.filterMap Except.toOption) pool.memory
      = ((pool.sent.filterMap Except.toOption).filterMap fun result => result.receipt.toOption,
        pool.memory) := by
    refine collectResults_eq orders fun result hmem address account hlookup => ?_
    obtain ⟨x, hx, hok⟩ := List.mem_filterMap.mp hmem
    obtain ⟨o, ho, hresult⟩ := List.mem_filterMap.mp (hsent.subset hx)
    have heq : o = .ok result := by
      cases o with
      | ok a =>
        cases hresult
        cases hok
        rfl
      | err e =>
        cases hresult
        cases hok
      | panicked => cases hresult
    rw [hmemory]
    exact captured_of_batch hapart (heq ▸ ho) hlookup
  refine ⟨(pool.sent.filterMap Except.toOption).filterMap fun result => result.receipt.toOption,
    ?_, ((hsent.filterMap _).filterMap _).trans (.of_eq ?_)⟩
  · unfold Rounds.finish batchRounds
    dsimp only
    rw [hcollect, hmemory, hmemories]
  · rw [filterMap_value, houtcomes]

/-- One batch. -/
theorem inevitable_batch (hworkers : 0 < workerCount) {batch : List ExecutionTask}
    (hne : batch ≠ [])
    (hapart : batch.Pairwise (Apart (ExecutionTask.Touches env))) {accounts : Accounts}
    (hpanic : .panicked ∉
      (serially (executeAlone env) (batch.map (·.transaction)) accounts).1)
    {rest : List (List ExecutionTask)} {collected : List TransactionReceipt}
    {P : RoundState ExecutionTask Address Account StateMachineError ExecutionResult
      (List TransactionReceipt) Empty → Prop}
    (hrest : ∀ receipts : List TransactionReceipt,
      receipts.Perm ((serially (executeAlone env) (batch.map (·.transaction)) accounts).1.filterMap
        Outcome.value) →
      Inevitable (batchRounds env orders workerCount).Next P (Rounds.enter
        (serially (executeAlone env) (batch.map (·.transaction)) accounts).2
        (collected ++ receipts) rest)) :
    Inevitable (batchRounds env orders workerCount).Next P
      (Rounds.enter accounts collected (batch :: rest)) := by
  have hlength : 0 < min workerCount batch.length :=
    Nat.lt_min.mpr ⟨hworkers, List.length_pos_iff.mpr hne⟩
  have haccesses : ∀ (_ : Unit), ∀ task ∈ batch, ∀ m,
      (executeTask env orders task).accesses m ≤ 6 + (batch.map (·.writeSet.length)).sum := by
    intro _ task hmem m
    refine Nat.le_trans (accesses_executeTask env orders task m) (Nat.add_le_add_left ?_ 6)
    exact List.le_sum_of_mem (List.mem_map_of_mem hmem)
  have hpanic' : .panicked ∉ (serially (executeTaskAlone env orders) batch accounts).1 := by
    intro hmem
    rw [← (serially_executeTaskAlone env orders batch accounts).1] at hpanic
    exact hpanic (List.mem_map.mpr ⟨.panicked, hmem, rfl⟩)
  refine Rounds.inevitable_round (r := batchRounds env orders workerCount)
    (executeTask_footprints env orders) haccesses hlength hapart hpanic' fun pool hmemory hsent => ?_
  obtain ⟨receipts, hfinish, hperm⟩ := finish_batch hapart hmemory hsent rest collected
  rw [hfinish]
  exact hrest receipts hperm

variable (orders) in
/-- All batches, one after the other. -/
theorem inevitable_batches (hworkers : 0 < workerCount) (batches : List (List ExecutionTask)) :
    ∀ (accounts : Accounts) (collected : List TransactionReceipt),
      (∀ batch ∈ batches, batch ≠ [] ∧ batch.Pairwise (Apart (ExecutionTask.Touches env))) →
      .panicked ∉ (serially (executeAlone env) (batches.flatten.map (·.transaction)) accounts).1 →
      Inevitable (batchRounds env orders workerCount).Next
        (fun s => ∃ receipts, s = .ended (serially (executeAlone env)
              (batches.flatten.map (·.transaction)) accounts).2 (.ok receipts) ∧
          receipts.Perm (collected ++ (serially (executeAlone env)
              (batches.flatten.map (·.transaction)) accounts).1.filterMap Outcome.value))
        (Rounds.enter accounts collected batches) := by
  induction batches with
  | nil =>
    intro accounts collected _ _
    refine .now ⟨collected, rfl, .of_eq ?_⟩
    exact (List.append_nil collected).symm
  | cons batch batches ih =>
    intro accounts collected hbatches hpanic
    obtain ⟨⟨hne, hapart⟩, hbatches⟩ := List.forall_mem_cons.mp hbatches
    rw [List.flatten_cons, List.map_append, serially_append] at hpanic ⊢
    refine inevitable_batch hworkers hne hapart (fun h => hpanic (List.mem_append_left _ h))
      fun receipts hperm => ?_
    have hrest := ih _ (collected ++ receipts) hbatches fun h => hpanic (List.mem_append_right _ h)
    refine hrest.mono fun s hs => ?_
    obtain ⟨all, rfl, hall⟩ := hs
    refine ⟨all, rfl, hall.trans ?_⟩
    rw [List.filterMap_append, List.append_assoc]
    exact (hperm.append_right _).append_left _

end Rounds

/-! ## The whole list -/

/-- Tasks that do not conflict, of transactions that can change places, are apart. -/
theorem apart_of_independent {env : Env} {a b : ExecutionTask} (ha : a.Analyzed env)
    (hb : b.Analyzed env) (hconflict : hasConflict a b = false)
    (h : a.transaction.Independent env b.transaction) : Apart (ExecutionTask.Touches env) a b := by
  have htargets : a.transaction.target env ≠ b.transaction.target env := by
    intro he
    -- A common recipient is in both write sets.
    obtain ⟨hra, hrb⟩ := h.2.2.2 he
    obtain ⟨address, hra⟩ := Option.ne_none_iff_exists'.mp hra
    obtain ⟨address', hrb⟩ := Option.ne_none_iff_exists'.mp hrb
    unfold Transaction.target at he
    rw [hra, hrb] at he
    obtain rfl : address = address' := he
    have hdisjoint : isDisjoint a.writeSet b.writeSet = true := by
      unfold hasConflict at hconflict
      rw [Bool.or_eq_false_iff, Bool.or_eq_false_iff, Bool.not_eq_false'] at hconflict
      exact hconflict.1.1
    exact isDisjoint_iff.mp hdisjoint address (ha.recipient _ hra) (hb.recipient _ hrb)
  have htouches : ∀ {task : ExecutionTask} {k : Address}, task.Analyzed env →
      task.Touches env k → task.transaction.Touches env k := fun htask hk =>
    hk.elim id (htask.touches _)
  exact fun k hka hkb => h.apart htargets k (htouches ha hka) (htouches hb hkb)

/-- Transactions that can change places are executed as in the serial run, with any
orders of iteration, any number of workers and any interleaving. -/
theorem executeBatch_eq_serial {env : Env} (orders : HashOrders)
    (serialOrder : IterOrder (Sigma fun _ : Address => Account)) {workerCount : Nat}
    {accounts : Accounts} {transactions : List Transaction} (hworkers : 0 < workerCount)
    (hpanic : .panicked ∉ (executeSerially env serialOrder transactions accounts).1)
    (hindependent : transactions.Pairwise (Transaction.Independent env)) :
    Inevitable (batchRounds env orders workerCount).Next
      (fun s => ∃ receipts,
        s = .ended (executeSerially env serialOrder transactions accounts).2 (.ok receipts) ∧
        receipts.Perm
          ((executeSerially env serialOrder transactions accounts).1.filterMap Outcome.value))
      (executeBatch orders accounts transactions) := by
  rw [executeSerially_eq] at hpanic ⊢
  have hids := analyzeTransactions_ids accounts transactions
  have htransactions := analyzeTransactions_transactions accounts transactions
  have hanalyzed := analyzed_analyzeTransactions accounts transactions env
  obtain ⟨hperm, hbatches⟩ := topologicalSort_spec orders.graph orders.inDegree hids
  have hconflictFree := topologicalSort_conflictFree orders.graph orders.inDegree hids
  unfold executeBatch executionOrder
  dsimp only
  generalize topologicalSort orders.graph orders.inDegree (analyzeTransactions accounts transactions)
    (buildDependencyGraph (analyzeTransactions accounts transactions)) = batches
    at hperm hbatches hconflictFree ⊢
  -- The batches hold the transactions in another order.
  have hpermTx : (batches.flatten.map (·.transaction)).Perm transactions :=
    (hperm.map _).trans (.of_eq htransactions)
  have hindependent' : (batches.flatten.map (·.transaction)).Pairwise
      (Transaction.Independent env) :=
    hpermTx.symm.pairwise hindependent fun {_ _} => Transaction.Independent.symm
  have hapart : ∀ batch ∈ batches,
      batch ≠ [] ∧ batch.Pairwise (Apart (ExecutionTask.Touches env)) := by
    intro batch hbatch
    refine ⟨(hbatches batch hbatch).1, ?_⟩
    have hmem : ∀ task ∈ batch, task.Analyzed env := fun task htask =>
      hanalyzed task (hperm.subset (List.mem_flatten_of_mem hbatch htask))
    have hpairs := (List.pairwise_flatten.mp (List.pairwise_map.mp hindependent')).1 batch hbatch
    exact ((hconflictFree batch hbatch).and hpairs).imp_of_mem fun ha hb h =>
      apart_of_independent (hmem _ ha) (hmem _ hb) h.1 h.2
  obtain ⟨houtcomes, hmemory⟩ := serially_perm (fun _ _ => Transaction.Independent.symm)
    (fun s t m => executeAlone_swap s t m) hpermTx.symm accounts hindependent hpanic
  have hbatches' := inevitable_batches orders hworkers batches accounts [] hapart
    fun h => hpanic (houtcomes.mem_iff.mp h)
  refine hbatches'.mono fun s hs => ?_
  obtain ⟨receipts, rfl, hreceipts⟩ := hs
  rw [hmemory]
  exact ⟨receipts, rfl, hreceipts.trans (houtcomes.filterMap _)⟩

/-- The maps in the order in which they are held. -/
def sampleHashOrders : HashOrders :=
  { changes := fun _ => sampleOrder, writeSet := fun _ => sampleOrder
    captured := fun _ => sampleOrder, graph := sampleOrder, inDegree := sampleOrder }

/-- Alice and Bob both pay Carol. -/
theorem executeBatch_eq_serial_carol :
    Inevitable (batchRounds sampleEnv sampleHashOrders 16).Next
      (fun s => ∃ receipts,
        s = .ended (executeSerially sampleEnv sampleOrder
          [sampleTransfer alice carol 5, sampleTransfer bob carol 7] sampleAccounts).2
          (.ok receipts) ∧
        receipts.Perm ((executeSerially sampleEnv sampleOrder
          [sampleTransfer alice carol 5, sampleTransfer bob carol 7] sampleAccounts).1.filterMap
            Outcome.value))
      (executeBatch sampleHashOrders sampleAccounts
        [sampleTransfer alice carol 5, sampleTransfer bob carol 7]) :=
  executeBatch_eq_serial sampleHashOrders sampleOrder (by decide) (by decide +kernel)
    (by decide +kernel)

/-- One worker, through a batch of one task with `n` accesses. -/
def sampleBatch (n : Nat) : List (RoundAction Unit) :=
  .worker (.recv ()) :: (List.replicate n (.worker (.act 0)) ++ [.join])

/-- Bob pays Carol and then Dave with the same nonce. In the serial run Carol gets the
money; here the later transaction comes first, and Dave gets it. -/
theorem executeBatch_reorders :
    ¬ Inevitable (batchRounds sampleEnv sampleHashOrders 16).Next
      (fun s => ∃ receipts,
        s = .ended (executeSerially sampleEnv sampleOrder
          [sampleTransfer bob carol 7, sampleTransfer bob dave 7] sampleAccounts).2
          (.ok receipts) ∧
        receipts.Perm ((executeSerially sampleEnv sampleOrder
          [sampleTransfer bob carol 7, sampleTransfer bob dave 7] sampleAccounts).1.filterMap
            Outcome.value))
      (executeBatch sampleHashOrders sampleAccounts
        [sampleTransfer bob carol 7, sampleTransfer bob dave 7]) := by
  intro h
  obtain ⟨receipts, heq, -⟩ := Rounds.holds_of_replay
    (fun s hs => by obtain ⟨receipts, rfl, -⟩ := hs; exact ⟨_, _, rfl⟩)
    (sampleBatch 9 ++ sampleBatch 4) _ h rfl
  injection heq with hmemory _
  have hdave := congrFun hmemory dave
  revert hdave
  decide +kernel

end InterBit.StateMachine
