import InterBit.StateMachine.Executor

/-!
# What a successful transaction does

`Settlement env accounts tx` holds the values that `execute_single_transaction`
computes when it succeeds, together with the checks that it has passed: the
sender's account, the target (the recipient, or the address of the new contract),
what is written there, the gas and the refund. `executeSingleTransaction_ok` says
that every success has one, and that the new accounts are `Settlement.final`.

`state_changes` is one map, and the target is inserted after the debited sender.
So where the target is the sender, the debit and the new nonce are overwritten
before they are ever stored: `Settlement.senderBase`.
-/

namespace InterBit.StateMachine

open InterBit.Lib

/-- What `processRecipient` computes from the accounts it reads: the target, the
account written there, the gas used and the logs. -/
inductive Credited (env : Env) (accounts : Accounts) (tx : Transaction) (nonce : U64) :
    Address → Account → U64 → List String → Prop
  | call {address : Address} {estimate gasUsed : U64} {balance : U256} :
      tx.recipient = some address → hasCode (accounts address) = true →
      estimateContractGas env tx.data = some estimate →
      env.add64 21000 estimate = some gasUsed → gasUsed.toNat ≤ tx.gasLimit.toNat →
      addU256 ((accounts address).getD default).balance (tx.value.setWidth 256) = some balance →
      Credited env accounts tx nonce address { (accounts address).getD default with balance }
        gasUsed ["Contract executed: " ++ debugBytes address]
  | transfer {address : Address} {balance : U256} :
      tx.recipient = some address → hasCode (accounts address) = false →
      addU256 ((accounts address).getD default).balance (tx.value.setWidth 256) = some balance →
      Credited env accounts tx nonce address { (accounts address).getD default with balance }
        21000 []
  | create {estimate doubled gasUsed : U64} :
      tx.recipient = none → estimateContractGas env tx.data = some estimate →
      env.mul64 estimate 2 = some doubled → env.add64 21000 doubled = some gasUsed →
      gasUsed.toNat ≤ tx.gasLimit.toNat →
      Credited env accounts tx nonce (calculateContractAddress env tx.sender (nonce - 1))
        { (default : Account) with
          balance := tx.value.setWidth 256, codeHash := some (hashCode env tx.data) }
        gasUsed
        ["Contract created: " ++ debugBytes (calculateContractAddress env tx.sender (nonce - 1))]

variable {accounts m : Accounts} {tx : Transaction} {stateChanges : StateChanges} {env : Env}

theorem creditAccount_ok {address : Address} {value : U128} {account : Account}
    (h : (creditAccount address value).run accounts = (.ok account, m)) :
    ∃ balance, addU256 ((accounts address).getD default).balance (value.setWidth 256)
        = some balance ∧ account = { (accounts address).getD default with balance } := by
  unfold creditAccount at h
  rw [getAccount_bind] at h
  obtain ⟨balance, hb, h⟩ := Prog.run_orPanic_ok h
  cases h
  exact ⟨balance, hb, rfl⟩

theorem processRecipient_ok {fromAccount : Account} {pending : Pending}
    (h : (processRecipient env tx fromAccount stateChanges).run accounts = (.ok pending, m)) :
    ∃ target account, Credited env accounts tx fromAccount.nonce target account pending.gasUsed
        pending.logs ∧ pending.stateChanges = stateChanges.insert target account := by
  unfold processRecipient at h
  split at h
  next address hto =>
    rw [isContract_bind] at h
    simp only [Prog.run] at h
    split at h
    next hcode =>
      obtain ⟨gasUsed, hgas, h⟩ := Prog.run_orPanic_ok h
      obtain ⟨hle, h⟩ := Prog.run_require_ok h
      obtain ⟨account, m₁, hcredit, h⟩ := Prog.run_bind_ok h
      obtain ⟨balance, hb, rfl⟩ := creditAccount_ok hcredit
      obtain ⟨estimate, he, hg⟩ := Option.bind_eq_some_iff.mp hgas
      cases h
      exact ⟨address, _, .call hto hcode he hg (Nat.le_of_not_lt hle) hb, rfl⟩
    next hcode =>
      obtain ⟨account, m₁, hcredit, h⟩ := Prog.run_bind_ok h
      obtain ⟨balance, hb, rfl⟩ := creditAccount_ok hcredit
      cases h
      exact ⟨address, _, .transfer hto (Bool.not_eq_true _ ▸ hcode) hb, rfl⟩
  next hto =>
    obtain ⟨gasUsed, hgas, h⟩ := Prog.run_orPanic_ok h
    obtain ⟨hle, h⟩ := Prog.run_require_ok h
    obtain ⟨estimate, he, hgas⟩ := Option.bind_eq_some_iff.mp hgas
    obtain ⟨doubled, hd, hg⟩ := Option.bind_eq_some_iff.mp hgas
    cases h
    exact ⟨_, _, .create hto he hd hg (Nat.le_of_not_lt hle), rfl⟩

/-- The sender's account in `state_changes` gets the refund. -/
theorem refundGas_ok {gasUsed : U64} {stateChanges stateChanges' : StateChanges} {base : Account}
    (hbase : stateChanges.lookup tx.sender = some base)
    (h : (refundGas tx gasUsed stateChanges).run accounts = (.ok stateChanges', m)) :
    ∃ balance : U256,
      balance.toNat = base.balance.toNat + (tx.gasLimit - gasUsed).toNat * tx.gasPrice.toNat ∧
      ∀ address, stateChanges'.lookup address
        = if address = tx.sender then some { base with balance } else stateChanges.lookup address := by
  unfold refundGas at h
  dsimp only at h
  split at h
  next =>
    obtain ⟨account, ha, h⟩ := Prog.run_orPanic_ok h
    obtain ⟨balance, hb, h⟩ := Prog.run_orPanic_ok h
    cases h
    rw [hbase] at ha
    obtain rfl := Option.some.inj ha
    refine ⟨balance, ?_, fun address => ?_⟩
    · rw [addU256_eq_some hb, Transaction.gas_mul_toNat]
    · split
      next he =>
        subst he
        exact AList.lookup_insert _
      next hne => exact AList.lookup_insert_ne hne
  next hzero =>
    cases h
    refine ⟨base.balance, ?_, fun address => ?_⟩
    · have hz : (tx.gasLimit - gasUsed).toNat = 0 := Nat.eq_zero_of_not_pos hzero
      rw [hz, Nat.zero_mul, Nat.add_zero]
    · split
      next he =>
        subst he
        exact hbase
      next => rfl

/-- A transaction's computation, with the checks that it passes. -/
structure Settlement (env : Env) (accounts : Accounts) (tx : Transaction) where
  /-- The sender's account. -/
  account : Account
  nonce : U64
  /-- The recipient, or the address of the new contract. -/
  target : Address
  /-- The account written there. -/
  credited : Account
  gasUsed : U64
  logs : List String
  /-- The sender's balance after the refund. -/
  balance : U256
  found : accounts tx.sender = some account
  signed : tx.verifySignature = true
  nonce_eq : account.nonce = tx.nonce
  covered : tx.totalCost.toNat ≤ account.balance.toNat
  gasLimit_ge : 21000 ≤ tx.gasLimit.toNat
  next_nonce : env.add64 account.nonce 1 = some nonce
  credit : Credited env accounts tx nonce target credited gasUsed logs
  refund : balance.toNat
    = (if target = tx.sender then credited.balance else account.balance - tx.totalCost).toNat
      + (tx.gasLimit - gasUsed).toNat * tx.gasPrice.toNat

namespace Settlement

variable {env : Env} {accounts : Accounts} {tx : Transaction}

/-- The sender's account in `state_changes` before the refund: the debited one,
unless the target's account has replaced it. -/
def senderBase (s : Settlement env accounts tx) : Account :=
  if s.target = tx.sender then s.credited
  else { s.account with balance := s.account.balance - tx.totalCost, nonce := s.nonce }

/-- The accounts afterwards. -/
def final (s : Settlement env accounts tx) : Accounts :=
  Function.update (Function.update accounts s.target (some s.credited)) tx.sender
    (some { s.senderBase with balance := s.balance })

/-- The state changes that make these accounts. -/
def changes (s : Settlement env accounts tx) (address : Address) : Option Account :=
  if address = tx.sender then some { s.senderBase with balance := s.balance }
  else if address = s.target then some s.credited
  else none

/-- The receipt. -/
def receipt (s : Settlement env accounts tx) : TransactionReceipt :=
  { transactionHash := tx.hash env, sender := tx.sender, recipient := tx.recipient,
    gasUsed := s.gasUsed, status := true, logs := s.logs }

end Settlement

theorem validateTransaction_ok (h : (validateTransaction tx).run accounts = (.ok (), m)) :
    ∃ account, accounts tx.sender = some account ∧ tx.verifySignature = true ∧
      account.nonce = tx.nonce ∧ tx.totalCost.toNat ≤ account.balance.toNat ∧
      21000 ≤ tx.gasLimit.toNat := by
  unfold validateTransaction at h
  obtain ⟨hsig, h⟩ := Prog.run_require_ok h
  rw [getAccount_bind] at h
  obtain ⟨account, ha, h⟩ := Prog.run_orFail_ok h
  obtain ⟨hnonce, h⟩ := Prog.run_require_ok h
  obtain ⟨hcost, h⟩ := Prog.run_require_ok h
  unfold Prog.require at h
  split at h
  next hgas => exact ⟨account, ha, hsig, hnonce, Nat.le_of_not_lt hcost, Nat.le_of_not_lt hgas⟩
  next => cases h

/-- A transaction that gets as far as its state changes has a settlement. -/
theorem prepareTransaction_settles {receipt : TransactionReceipt}
    (h : (prepareTransaction env tx).run accounts = (.ok (stateChanges, receipt), m)) :
    ∃ s : Settlement env accounts tx,
      (∀ address, stateChanges.lookup address = s.changes address) ∧ receipt = s.receipt := by
  unfold prepareTransaction at h
  obtain ⟨⟨⟩, hvalid, h⟩ := (validateTransaction_readOnly tx).run_bind_ok h
  obtain ⟨account, hfound, hsig, hnonce, hcost, hgas⟩ := validateTransaction_ok hvalid
  rw [getAccount_bind] at h
  obtain ⟨account', hfound', h⟩ := Prog.run_orFail_ok h
  obtain rfl : account = account' := Option.some.inj (hfound.symm.trans hfound')
  obtain ⟨-, h⟩ := Prog.run_require_ok h
  obtain ⟨nonce, hnext, h⟩ := Prog.run_orPanic_ok h
  obtain ⟨pending, hpending, h⟩ := (processRecipient_readOnly _ _ _ _).run_bind_ok h
  obtain ⟨target, credited, hcredit, hchanges⟩ := processRecipient_ok hpending
  obtain ⟨changes, hrefund, h⟩ := (refundGas_readOnly _ _ _).run_bind_ok h
  cases h
  -- The sender's entry: the target's account, if the target is the sender.
  have hbase : pending.stateChanges.lookup tx.sender = some (if target = tx.sender then credited
      else { account with balance := account.balance - tx.totalCost, nonce := nonce }) := by
    rw [hchanges]
    split
    next he =>
      subst he
      exact AList.lookup_insert _
    next hne => rw [AList.lookup_insert_ne (Ne.symm hne), AList.lookup_insert]
  obtain ⟨balance, hbalance, hlookup⟩ := refundGas_ok hbase hrefund
  refine ⟨{
    account, nonce, target, credited, gasUsed := pending.gasUsed, logs := pending.logs, balance
    found := hfound, signed := hsig, nonce_eq := hnonce, covered := hcost, gasLimit_ge := hgas
    next_nonce := hnext, credit := hcredit
    refund := ?_ }, fun address => ?_, rfl⟩
  · rw [hbalance]
    split <;> rfl
  · rw [hlookup]
    unfold Settlement.changes Settlement.senderBase
    by_cases hs : address = tx.sender
    · rw [if_pos hs, if_pos hs]
    · rw [if_neg hs, if_neg hs, hchanges]
      by_cases ht : address = target
      · rw [if_pos ht, ht, AList.lookup_insert]
      · rw [if_neg ht, AList.lookup_insert_ne ht, AList.lookup_insert_ne hs, AList.lookup_empty]

theorem Settlement.changes_or {accounts : Accounts} (s : Settlement env accounts tx)
    (address : Address) :
    (s.changes address).or (accounts address) = s.final address := by
  unfold changes final
  by_cases hs : address = tx.sender
  · rw [if_pos hs, hs, Function.update_self]
    rfl
  · rw [if_neg hs, Function.update_of_ne hs]
    by_cases ht : address = s.target
    · rw [if_pos ht, ht, Function.update_self]
      rfl
    · rw [if_neg ht, Function.update_of_ne ht]
      rfl

theorem prepareTransaction_ok {receipt : TransactionReceipt}
    (h : (prepareTransaction env tx).run accounts = (.ok (stateChanges, receipt), m)) :
    ∃ s : Settlement env accounts tx, stateChanges.over accounts = s.final ∧ receipt = s.receipt := by
  obtain ⟨s, hchanges, hreceipt⟩ := prepareTransaction_settles h
  refine ⟨s, funext fun address => ?_, hreceipt⟩
  unfold StateChanges.over
  rw [hchanges, s.changes_or]

/-- A transaction that returns `Ok`. -/
theorem executeSingleTransaction_ok {order : IterOrder (Sigma fun _ : Address => Account)}
    {accounts accounts' : Accounts} {receipt : TransactionReceipt}
    (h : (executeSingleTransaction env order tx).run accounts = (.ok receipt, accounts')) :
    ∃ s : Settlement env accounts tx, accounts' = s.final ∧ receipt = s.receipt := by
  rw [run_executeSingleTransaction] at h
  match hp : (prepareTransaction env tx).run accounts with
  | (.ok (stateChanges, r), m) =>
    rw [hp] at h
    obtain ⟨s, hover, hr⟩ := prepareTransaction_ok hp
    cases h
    exact ⟨s, hover, hr⟩
  | (.err e, m) =>
    rw [hp] at h
    cases h
  | (.panicked, m) =>
    rw [hp] at h
    cases h

/-- A transaction that does not leaves the accounts as they are. -/
theorem executeSingleTransaction_not_ok {order : IterOrder (Sigma fun _ : Address => Account)}
    {accounts : Accounts}
    (h : ∀ receipt, ((executeSingleTransaction env order tx).run accounts).1 ≠ .ok receipt) :
    ((executeSingleTransaction env order tx).run accounts).2 = accounts := by
  rw [run_executeSingleTransaction] at h ⊢
  match hp : (prepareTransaction env tx).run accounts with
  | (.ok (stateChanges, receipt), m) =>
    rw [hp] at h
    exact absurd rfl (h receipt)
  | (.err e, m) => rfl
  | (.panicked, m) => rfl

end InterBit.StateMachine
