import InterBit.StateMachine.Executor

/-!
# Arithmetic that is checked everywhere

`execute_single_transaction` in which every operation panics that does not fit its type: also the
subtractions and products that `Executor` has without a check, since what comes before them in the
source excludes it. `executeSingleTransaction_eq` says that it does: the program is the same.
-/

namespace InterBit.StateMachine

open InterBit.Lib

/-- The same build with overflow checks. -/
def checked (env : Env) : Env := { env with overflowChecks := true }

/-- `a - b` on `u64`; `none` is a panic. -/
def subU64 (a b : U64) : Option U64 := if b.toNat ≤ a.toNat then some (a - b) else none

theorem add64_of_lt {env : Env} {a b : U64} (h : a.toNat + b.toNat < 2 ^ 64) :
    ∃ c, env.add64 a b = some c ∧ c.toNat = a.toNat + b.toNat := by
  refine ⟨a + b, if_neg fun hno => Nat.not_le_of_lt h hno.2, ?_⟩
  rw [BitVec.toNat_add, Nat.mod_eq_of_lt h]

theorem mul64_of_lt {env : Env} {a b : U64} (h : a.toNat * b.toNat < 2 ^ 64) :
    ∃ c, env.mul64 a b = some c ∧ c.toNat = a.toNat * b.toNat := by
  refine ⟨a * b, if_neg fun hno => Nat.not_le_of_lt h hno.2, ?_⟩
  rw [BitVec.toNat_mul, Nat.mod_eq_of_lt h]

/-- The estimate for data that are not too long. -/
theorem estimateContractGas_of_lt {env : Env} {data : List UInt8}
    (h : 32000 + 68 * data.length < 2 ^ 64) :
    ∃ gas, estimateContractGas env data = some gas ∧ gas.toNat = 32000 + 68 * data.length := by
  have hlength : (BitVec.ofNat 64 data.length : U64).toNat * (68 : U64).toNat
      = 68 * data.length := by
    rw [BitVec.toNat_ofNat, Nat.mod_eq_of_lt (by omega), Nat.mul_comm]
    rfl
  obtain ⟨product, hproduct, hp⟩ := @mul64_of_lt env (BitVec.ofNat 64 data.length) 68 (by omega)
  rw [hlength] at hp
  have hsum : (32000 : U64).toNat + product.toNat = 32000 + 68 * data.length := by
    rw [hp]
    rfl
  obtain ⟨gas, hgas, hg⟩ := @add64_of_lt env 32000 product (by omega)
  refine ⟨gas, ?_, hg.trans hsum⟩
  unfold estimateContractGas
  rw [hproduct]
  exact hgas

/-- The gas of a call with data that are not too long. -/
theorem callGas_of_lt {env : Env} {data : List UInt8} (h : 53000 + 68 * data.length < 2 ^ 64) :
    ∃ gas, (do env.add64 21000 (← estimateContractGas env data)) = some gas ∧
      gas.toNat = 53000 + 68 * data.length := by
  obtain ⟨estimate, hestimate, he⟩ := @estimateContractGas_of_lt env data (by omega)
  have hsum : (21000 : U64).toNat + estimate.toNat = 53000 + 68 * data.length := by
    rw [he, show (21000 : U64).toNat = 21000 from rfl]
    omega
  obtain ⟨gas, hgas, hg⟩ := @add64_of_lt env 21000 estimate (by omega)
  rw [hestimate]
  exact ⟨gas, hgas, hg.trans hsum⟩

/-- The gas of a new contract. -/
theorem creationGas_of_lt {env : Env} {data : List UInt8}
    (h : 85000 + 136 * data.length < 2 ^ 64) :
    ∃ gas, (do env.add64 21000 (← env.mul64 (← estimateContractGas env data) 2)) = some gas ∧
      gas.toNat = 85000 + 136 * data.length := by
  obtain ⟨estimate, hestimate, he⟩ := @estimateContractGas_of_lt env data (by omega)
  have hproduct : estimate.toNat * (2 : U64).toNat = 64000 + 136 * data.length := by
    rw [he, show (2 : U64).toNat = 2 from rfl]
    omega
  obtain ⟨doubled, hdoubled, hd⟩ := @mul64_of_lt env estimate 2 (by omega)
  have hsum : (21000 : U64).toNat + doubled.toNat = 85000 + 136 * data.length := by
    rw [hd, hproduct, show (21000 : U64).toNat = 21000 from rfl]
    omega
  obtain ⟨gas, hgas, hg⟩ := @add64_of_lt env 21000 doubled (by omega)
  refine ⟨gas, ?_, hg.trans hsum⟩
  rw [hestimate]
  show (env.mul64 estimate 2).bind _ = _
  rw [hdoubled]
  exact hgas

namespace Checked

/-- `total_cost`. -/
def totalCost (tx : Transaction) : Option U256 := do
  let gasCost ← mulU256 (tx.gasLimit.setWidth 256) (tx.gasPrice.setWidth 256)
  addU256 (tx.value.setWidth 256) gasCost

/-- `validate_transaction`. -/
def validateTransaction (tx : Transaction) : Exec Unit := do
  Prog.require tx.verifySignature (.invalidTransaction "Invalid signature")
  let account ← Prog.orFail .stateNotFound (← getAccount tx.sender)
  Prog.require (account.nonce = tx.nonce) (.invalidTransaction "Invalid nonce")
  let totalCost ← Prog.orPanic (totalCost tx)
  Prog.require (¬ account.balance < totalCost) .insufficientBalance
  Prog.require (¬ tx.gasLimit < 21000) (.invalidTransaction "Gas limit too low")

/-- The part of `execute_single_transaction` under "process the recipient". -/
def processRecipient (env : Env) (tx : Transaction) (fromAccount : Account)
    (stateChanges : StateChanges) : Exec Pending :=
  match tx.recipient with
  | some address => do
    if ← isContract address then
      let gasUsed ← Prog.orPanic (do
        (checked env).add64 21000 (← estimateContractGas (checked env) tx.data))
      Prog.require (¬ gasUsed > tx.gasLimit) .gasLimitExceeded
      let toAccount ← creditAccount address tx.value
      pure { stateChanges := stateChanges.insert address toAccount, gasUsed,
             logs := ["Contract executed: " ++ debugBytes address] }
    else
      let toAccount ← creditAccount address tx.value
      pure { stateChanges := stateChanges.insert address toAccount, gasUsed := 21000, logs := [] }
  | none => do
    let gasUsed ← Prog.orPanic (do
      (checked env).add64 21000
        (← (checked env).mul64 (← estimateContractGas (checked env) tx.data) 2))
    Prog.require (¬ gasUsed > tx.gasLimit) .gasLimitExceeded
    let nonce ← Prog.orPanic (subU64 fromAccount.nonce 1)
    let contractAddress := calculateContractAddress env tx.sender nonce
    let contractAccount : Account :=
      { (default : Account) with
        balance := tx.value.setWidth 256, codeHash := some (hashCode env tx.data) }
    pure { stateChanges := stateChanges.insert contractAddress contractAccount, gasUsed,
           logs := ["Contract created: " ++ debugBytes contractAddress] }

/-- The part under "refund the unused gas". -/
def refundGas (tx : Transaction) (gasUsed : U64) (stateChanges : StateChanges) :
    Exec StateChanges := do
  let gasRefund ← Prog.orPanic (subU64 tx.gasLimit gasUsed)
  if gasRefund > 0 then
    let fromAccount ← Prog.orPanic (stateChanges.lookup tx.sender)
    let refund ← Prog.orPanic (mulU256 (gasRefund.setWidth 256) (tx.gasPrice.setWidth 256))
    let balance ← Prog.orPanic (addU256 fromAccount.balance refund)
    pure (stateChanges.insert tx.sender { fromAccount with balance })
  else pure stateChanges

/-- `execute_single_transaction` up to the loop that applies the state changes. -/
def prepareTransaction (env : Env) (tx : Transaction) :
    Exec (StateChanges × TransactionReceipt) := do
  validateTransaction tx
  let fromAccount ← Prog.orFail .stateNotFound (← getAccount tx.sender)
  let totalCost ← Prog.orPanic (totalCost tx)
  Prog.require (¬ fromAccount.balance < totalCost) .insufficientBalance
  let balance ← Prog.orPanic (subU256 fromAccount.balance totalCost)
  let nonce ← Prog.orPanic ((checked env).add64 fromAccount.nonce 1)
  let fromAccount := { fromAccount with balance, nonce }
  let pending ← processRecipient env tx fromAccount (AList.insert tx.sender fromAccount ∅)
  let stateChanges ← refundGas tx pending.gasUsed pending.stateChanges
  pure (stateChanges,
    { transactionHash := tx.hash env, sender := tx.sender, recipient := tx.recipient,
      gasUsed := pending.gasUsed, status := true, logs := pending.logs })

/-- `execute_single_transaction`; `order` is the iteration order of `state_changes`. -/
def executeSingleTransaction (env : Env) (order : IterOrder (Sigma fun _ : Address => Account))
    (tx : Transaction) : Exec TransactionReceipt := do
  let (stateChanges, receipt) ← prepareTransaction env tx
  applyChanges (order.arrange stateChanges.entries)
  pure receipt

/-! ## The checks that never fail -/

theorem mulU256_gas (gas : U64) (price : U128) :
    mulU256 (gas.setWidth 256) (price.setWidth 256)
      = some (gas.setWidth 256 * price.setWidth 256) := by
  refine mulU256_eq.mpr ?_
  rw [Transaction.gas_mul_toNat, BitVec.toNat_setWidth, BitVec.toNat_setWidth,
    Nat.mod_eq_of_lt (Nat.lt_of_lt_of_le gas.isLt (by decide)),
    Nat.mod_eq_of_lt (Nat.lt_of_lt_of_le price.isLt (by decide))]

theorem totalCost_eq (tx : Transaction) : totalCost tx = some tx.totalCost := by
  have hsum : addU256 (tx.value.setWidth 256) tx.gasCost = some tx.totalCost := by
    refine addU256_eq.mpr ?_
    rw [tx.totalCost_toNat, Transaction.gasCost, Transaction.gas_mul_toNat,
      Transaction.value_toNat]
  unfold totalCost
  rw [mulU256_gas]
  exact hsum

theorem validateTransaction_eq (tx : Transaction) :
    validateTransaction tx = InterBit.StateMachine.validateTransaction tx := by
  unfold validateTransaction InterBit.StateMachine.validateTransaction
  simp only [totalCost_eq, Prog.orPanic, Prog.bind_ret]

/-- A transaction passes validation only with the gas of a transfer. -/
theorem yields_validateTransaction (tx : Transaction) :
    (InterBit.StateMachine.validateTransaction tx).Yields fun _ => ¬ tx.gasLimit < 21000 := by
  unfold InterBit.StateMachine.validateTransaction
  exact (Prog.yields_true _).bind fun _ _ => (Prog.yields_true _).bind fun _ _ =>
    (Prog.yields_true _).bind fun _ _ => (Prog.yields_true _).bind fun _ _ =>
      (Prog.yields_true _).bind fun _ _ => Prog.yields_require _ _

section Recipient

variable (env : Env) {tx : Transaction} {fromAccount : Account} {stateChanges : StateChanges}

/-- The sender's nonce has just been incremented. -/
theorem processRecipient_eq (hnonce : 1 ≤ fromAccount.nonce.toNat) :
    processRecipient env tx fromAccount stateChanges
      = InterBit.StateMachine.processRecipient (checked env) tx fromAccount stateChanges := by
  unfold processRecipient InterBit.StateMachine.processRecipient
  cases tx.recipient with
  | some address => rfl
  | none =>
    have hsub : subU64 fromAccount.nonce 1 = some (fromAccount.nonce - 1) := if_pos hnonce
    dsimp only
    rw [hsub]
    rfl

/-- A transaction with the gas of a transfer does not use more than it has. -/
theorem yields_processRecipient (hgas : ¬ tx.gasLimit < 21000) :
    (InterBit.StateMachine.processRecipient env tx fromAccount stateChanges).Yields
      fun pending => pending.gasUsed.toNat ≤ tx.gasLimit.toNat := by
  unfold InterBit.StateMachine.processRecipient
  cases tx.recipient with
  | some address =>
    dsimp only
    refine (Prog.yields_true _).bind fun isContract _ => ?_
    cases isContract with
    | true =>
      exact (Prog.yields_true _).bind fun gasUsed _ =>
        (Prog.yields_require _ _).bind fun _ hused =>
          (Prog.yields_true _).bind fun _ _ => Nat.le_of_not_lt hused
    | false => exact (Prog.yields_true _).bind fun _ _ => Nat.le_of_not_lt hgas
  | none =>
    exact (Prog.yields_true _).bind fun gasUsed _ =>
      (Prog.yields_require _ _).bind fun _ hused => Nat.le_of_not_lt hused

theorem refundGas_eq {gasUsed : U64} (hused : gasUsed.toNat ≤ tx.gasLimit.toNat) :
    refundGas tx gasUsed stateChanges
      = InterBit.StateMachine.refundGas tx gasUsed stateChanges := by
  have hsub : subU64 tx.gasLimit gasUsed = some (tx.gasLimit - gasUsed) := if_pos hused
  unfold refundGas InterBit.StateMachine.refundGas
  rw [hsub]
  simp only [mulU256_gas, Prog.orPanic, Prog.bind_ret]

end Recipient

theorem one_le_of_add64 {env : Env} {a b : U64} (h : (checked env).add64 a 1 = some b) :
    1 ≤ b.toNat := by
  obtain ⟨rfl, hfits⟩ := Build.add64_eq_some h
  have hlt : a.toNat + 1 < 2 ^ 64 := hfits rfl
  rw [BitVec.toNat_add, show (1 : U64).toNat = 1 from rfl, Nat.mod_eq_of_lt hlt]
  exact Nat.le_add_left 1 _

theorem prepareTransaction_eq (env : Env) (tx : Transaction) :
    prepareTransaction env tx = InterBit.StateMachine.prepareTransaction (checked env) tx := by
  unfold prepareTransaction InterBit.StateMachine.prepareTransaction
  rw [validateTransaction_eq, totalCost_eq]
  refine (yields_validateTransaction tx).bind_congr fun _ hgas => ?_
  refine (Prog.yields_true _).bind_congr fun _ _ => ?_
  refine (Prog.yields_true _).bind_congr fun fromAccount _ => ?_
  simp only [Prog.orPanic, Prog.bind_ret]
  refine (Prog.yields_require _ _).bind_congr fun _ hbalance => ?_
  have hdebit : subU256 fromAccount.balance tx.totalCost
      = some (fromAccount.balance - tx.totalCost) := if_pos (Nat.le_of_not_lt hbalance)
  rw [hdebit]
  refine (Prog.yields_orPanic _).bind_congr fun nonce hnonce => ?_
  rw [processRecipient_eq env (one_le_of_add64 hnonce)]
  refine (yields_processRecipient (checked env) hgas).bind_congr fun pending hused => ?_
  rw [refundGas_eq hused]
  rfl

/-- The executor of a build with overflow checks checks everything. -/
theorem executeSingleTransaction_eq (env : Env)
    (order : IterOrder (Sigma fun _ : Address => Account)) (tx : Transaction) :
    executeSingleTransaction env order tx
      = InterBit.StateMachine.executeSingleTransaction (checked env) order tx := by
  unfold executeSingleTransaction
  rw [prepareTransaction_eq]
  rfl

end Checked

end InterBit.StateMachine
