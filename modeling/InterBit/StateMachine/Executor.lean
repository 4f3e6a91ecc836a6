import Mathlib.Data.List.AList
import InterBit.Lib.Program
import InterBit.StateMachine.Transaction

/-!
# `execute_single_transaction`

The transaction executor of `state_machine/executor.rs` as a program over the
accounts. Each `get_account` is one read, each `set_account` one write; everything
that a transaction changes is collected in `state_changes` and written at the end,
so `execute_single_transaction` is `prepareTransaction`, which only reads, and then
`applyChanges`.

`prepareTransaction_ok` says what a transaction that succeeds has read and what it
is going to write. `executeSingleTransaction_ok` puts the writes on top.
-/

namespace InterBit.StateMachine

open InterBit.Lib

/-- Programs over the accounts. -/
abbrev Exec := Prog Address Account StateMachineError

/-- The accounts as `get_account` returns them. -/
abbrev Accounts := Memory Address Account

/-- `StateDB::get_account`, as one read. -/
def getAccount (address : Address) : Exec (Option Account) := .read address .ret

/-- `StateDB::set_account`, as one write. -/
def setAccount (address : Address) (account : Account) : Exec Unit := .write address account (.ret ())

/-- Whether there is code at an address where `account` is. -/
def hasCode (account : Option Account) : Bool := account.any (·.codeHash.isSome)

/-- `is_contract`. -/
def isContract (address : Address) : Exec Bool := do
  pure (hasCode (← getAccount address))

/-- `validate_transaction`. -/
def validateTransaction (tx : Transaction) : Exec Unit := do
  Prog.require tx.verifySignature (.invalidTransaction "Invalid signature")
  let account ← Prog.orFail .stateNotFound (← getAccount tx.sender)
  Prog.require (account.nonce = tx.nonce) (.invalidTransaction "Invalid nonce")
  Prog.require (¬ account.balance < tx.totalCost) .insufficientBalance
  Prog.require (¬ tx.gasLimit < 21000) (.invalidTransaction "Gas limit too low")

/-- `estimate_contract_gas`; `none` is a panic. -/
def estimateContractGas (env : Env) (data : List UInt8) : Option U64 := do
  env.add64 32000 (← env.mul64 (BitVec.ofNat 64 data.length) 68)

/-- `calculate_contract_address`: the last 20 bytes of a hash. -/
def calculateContractAddress (env : Env) (creator : Address) (nonce : U64) : Address :=
  (env.sha256 (creator.toList ++ toBeBytes 8 nonce)).drop 12

/-- `hash_code`. -/
def hashCode (env : Env) (code : List UInt8) : H256 := env.sha256 code

/-- The map `state_changes`. -/
abbrev StateChanges := AList (fun _ : Address => Account)

/-- What `execute_single_transaction` has in hand after it has dealt with the
recipient. -/
structure Pending where
  stateChanges : StateChanges
  gasUsed : U64
  logs : List String

/-- The account at `address` with `value` added. -/
def creditAccount (address : Address) (value : U128) : Exec Account := do
  let toAccount := (← getAccount address).getD default
  let balance ← Prog.orPanic (addU256 toAccount.balance (value.setWidth 256))
  pure { toAccount with balance }

/-- The part of `execute_single_transaction` under "process the recipient";
`fromAccount` is the debited sender. -/
def processRecipient (env : Env) (tx : Transaction) (fromAccount : Account)
    (stateChanges : StateChanges) : Exec Pending :=
  match tx.recipient with
  | some address => do
    if ← isContract address then
      let gasUsed ← Prog.orPanic (do env.add64 21000 (← estimateContractGas env tx.data))
      Prog.require (¬ gasUsed > tx.gasLimit) .gasLimitExceeded
      let toAccount ← creditAccount address tx.value
      pure { stateChanges := stateChanges.insert address toAccount, gasUsed,
             logs := ["Contract executed: " ++ debugBytes address] }
    else
      let toAccount ← creditAccount address tx.value
      pure { stateChanges := stateChanges.insert address toAccount, gasUsed := 21000, logs := [] }
  | none => do
    let gasUsed ← Prog.orPanic (do
      env.add64 21000 (← env.mul64 (← estimateContractGas env tx.data) 2))
    Prog.require (¬ gasUsed > tx.gasLimit) .gasLimitExceeded
    let contractAddress := calculateContractAddress env tx.sender (fromAccount.nonce - 1)
    let contractAccount : Account :=
      { (default : Account) with
        balance := tx.value.setWidth 256, codeHash := some (hashCode env tx.data) }
    pure { stateChanges := stateChanges.insert contractAddress contractAccount, gasUsed,
           logs := ["Contract created: " ++ debugBytes contractAddress] }

/-- The part under "refund the unused gas". -/
def refundGas (tx : Transaction) (gasUsed : U64) (stateChanges : StateChanges) :
    Exec StateChanges :=
  let gasRefund := tx.gasLimit - gasUsed
  if gasRefund > 0 then do
    let fromAccount ← Prog.orPanic (stateChanges.lookup tx.sender)
    let balance ← Prog.orPanic
      (addU256 fromAccount.balance (gasRefund.setWidth 256 * tx.gasPrice.setWidth 256))
    pure (stateChanges.insert tx.sender { fromAccount with balance })
  else pure stateChanges

/-- `execute_single_transaction` up to the loop that applies the state changes. -/
def prepareTransaction (env : Env) (tx : Transaction) :
    Exec (StateChanges × TransactionReceipt) := do
  validateTransaction tx
  let fromAccount ← Prog.orFail .stateNotFound (← getAccount tx.sender)
  Prog.require (¬ fromAccount.balance < tx.totalCost) .insufficientBalance
  let nonce ← Prog.orPanic (env.add64 fromAccount.nonce 1)
  let fromAccount := { fromAccount with balance := fromAccount.balance - tx.totalCost, nonce }
  let pending ← processRecipient env tx fromAccount (AList.insert tx.sender fromAccount ∅)
  let stateChanges ← refundGas tx pending.gasUsed pending.stateChanges
  pure (stateChanges,
    { transactionHash := tx.hash env, sender := tx.sender, recipient := tx.recipient,
      gasUsed := pending.gasUsed, status := true, logs := pending.logs })

/-- An order in which a hash map is iterated over. -/
structure IterOrder (α : Type) where
  arrange : List α → List α
  perm : ∀ entries, (arrange entries).Perm entries

/-- The loop that applies the state changes. -/
def applyChanges : List (Sigma fun _ : Address => Account) → Exec Unit
  | [] => pure ()
  | ⟨address, account⟩ :: entries => do
    setAccount address account
    applyChanges entries

/-- `execute_single_transaction`; `order` is the iteration order of `state_changes`. -/
def executeSingleTransaction (env : Env) (order : IterOrder (Sigma fun _ : Address => Account))
    (tx : Transaction) : Exec TransactionReceipt := do
  let (stateChanges, receipt) ← prepareTransaction env tx
  applyChanges (order.arrange stateChanges.entries)
  pure receipt

/-! ## What a transaction reads -/

theorem getAccount_bind {α : Type} (address : Address) (f : Option Account → Exec α) :
    (getAccount address >>= f) = .read address f := rfl

theorem isContract_bind {α : Type} (address : Address) (f : Bool → Exec α) :
    (isContract address >>= f) = .read address fun account => f (hasCode account) := rfl

theorem validateTransaction_readOnly (tx : Transaction) : (validateTransaction tx).ReadOnly :=
  (Prog.readOnly_require _ _).bind fun _ v => (Prog.readOnly_orFail _ v).bind fun _ =>
    (Prog.readOnly_require _ _).bind fun _ => (Prog.readOnly_require _ _).bind fun _ =>
      Prog.readOnly_require _ _

theorem creditAccount_readOnly (address : Address) (value : U128) :
    (creditAccount address value).ReadOnly := fun _ =>
  (Prog.readOnly_orPanic _).bind fun _ => trivial

theorem processRecipient_readOnly (env : Env) (tx : Transaction) (fromAccount : Account)
    (stateChanges : StateChanges) :
    (processRecipient env tx fromAccount stateChanges).ReadOnly := by
  unfold processRecipient
  split
  next address _ =>
    rw [isContract_bind]
    intro account
    dsimp only
    split
    next => exact (Prog.readOnly_orPanic _).bind fun _ => (Prog.readOnly_require _ _).bind fun _ =>
      (creditAccount_readOnly _ _).bind fun _ => trivial
    next => exact (creditAccount_readOnly _ _).bind fun _ => trivial
  next => exact (Prog.readOnly_orPanic _).bind fun _ => (Prog.readOnly_require _ _).bind fun _ =>
    trivial

theorem refundGas_readOnly (tx : Transaction) (gasUsed : U64) (stateChanges : StateChanges) :
    (refundGas tx gasUsed stateChanges).ReadOnly := by
  unfold refundGas
  dsimp only
  split
  next => exact (Prog.readOnly_orPanic _).bind fun _ => (Prog.readOnly_orPanic _).bind fun _ =>
    trivial
  next => trivial

theorem prepareTransaction_readOnly (env : Env) (tx : Transaction) :
    (prepareTransaction env tx).ReadOnly :=
  (validateTransaction_readOnly tx).bind fun _ v => (Prog.readOnly_orFail _ v).bind fun _ =>
    (Prog.readOnly_require _ _).bind fun _ => (Prog.readOnly_orPanic _).bind fun _ =>
      (processRecipient_readOnly _ _ _ _).bind fun _ => (refundGas_readOnly _ _ _).bind fun _ =>
        trivial

/-! ## What a transaction writes -/

/-- The accounts with the state changes written over them. -/
def StateChanges.over (stateChanges : StateChanges) (accounts : Accounts) : Accounts :=
  fun address => (stateChanges.lookup address).or (accounts address)

theorem run_applyChanges (entries : List (Sigma fun _ : Address => Account)) :
    entries.NodupKeys → ∀ accounts : Accounts,
      (applyChanges entries).run accounts
        = (.ok (), fun address => (entries.dlookup address).or (accounts address)) := by
  induction entries with
  | nil =>
    intro _ accounts
    rfl
  | cons entry entries ih =>
    obtain ⟨key, account⟩ := entry
    intro hnodup accounts
    obtain ⟨hkey, hrest⟩ := List.nodupKeys_cons.mp hnodup
    have hrun := ih hrest (Function.update accounts key (some account))
    refine hrun.trans (congrArg (Prod.mk _) (funext fun address => ?_))
    by_cases ha : address = key
    · subst ha
      rw [List.dlookup_eq_none.mpr hkey, List.dlookup_cons_eq, Function.update_self]
      rfl
    · rw [List.dlookup_cons_ne _ _ ha, Function.update_of_ne ha]

/-- The whole transaction, in whatever order it writes. -/
theorem run_executeSingleTransaction (env : Env)
    (order : IterOrder (Sigma fun _ : Address => Account)) (tx : Transaction)
    (accounts : Accounts) :
    (executeSingleTransaction env order tx).run accounts
      = match (prepareTransaction env tx).run accounts with
        | (.ok (stateChanges, receipt), _) => (.ok receipt, stateChanges.over accounts)
        | (.err e, _) => (.err e, accounts)
        | (.panicked, _) => (.panicked, accounts) := by
  have hread := (prepareTransaction_readOnly env tx).run accounts
  unfold executeSingleTransaction
  rw [Prog.run_bind]
  match hp : (prepareTransaction env tx).run accounts with
  | (.ok (stateChanges, receipt), m) =>
    rw [hp] at hread
    cases hread
    dsimp only
    have hperm := order.perm stateChanges.entries
    have hnodup : (order.arrange stateChanges.entries).NodupKeys :=
      (List.perm_nodupKeys hperm).mpr stateChanges.nodupKeys
    rw [Prog.run_bind, run_applyChanges _ hnodup]
    refine congrArg (Prod.mk _) (funext fun address => ?_)
    rw [List.perm_dlookup address hnodup hperm]
    rfl
  | (.err e, m) =>
    rw [hp] at hread
    cases hread
    rfl
  | (.panicked, m) =>
    rw [hp] at hread
    cases hread
    rfl

/-! ## Sample accounts and transactions -/

def alice : Address := Vector.replicate 20 1
def bob : Address := Vector.replicate 20 2
def carol : Address := Vector.replicate 20 3
def dave : Address := Vector.replicate 20 4

/-- A signed first transfer of `value` at gas price 1. -/
def sampleTransfer (sender recipient : Address) (value : U128) : Transaction :=
  { nonce := 0, sender, recipient := some recipient, value, data := [], gasLimit := 21000,
    gasPrice := 1,
    signature := { v := 27, r := Vector.replicate 32 1, s := Vector.replicate 32 1 } }

/-- SHA-256 on the samples that are hashed. -/
def sampleDigests : List (List UInt8 × H256) :=
  [
    ((sampleTransfer alice alice 5).hashInput,
      #v[0x8c, 0xf3, 0x89, 0x69, 0xa4, 0x0f, 0xd2, 0x6d, 0x54, 0xdf, 0xc3,
        0x54, 0x1f, 0x01, 0xf0, 0x9a, 0xd9, 0x31, 0xb3, 0x9a, 0x51, 0x20,
        0xff, 0xec, 0xbc, 0xca, 0x9f, 0xa8, 0x4b, 0x2b, 0x96, 0x8f]),
    ((sampleTransfer alice carol 5).hashInput,
      #v[0x7b, 0x7c, 0x2a, 0xdf, 0xce, 0x48, 0x30, 0x98, 0x74, 0x3f, 0x27,
        0xc6, 0xe4, 0x45, 0xa5, 0x42, 0x55, 0x78, 0x0a, 0xc2, 0x34, 0x55,
        0x59, 0x21, 0xce, 0xe1, 0xeb, 0xcc, 0x39, 0x47, 0x75, 0x93]),
    ((sampleTransfer bob carol 7).hashInput,
      #v[0x19, 0x06, 0x65, 0x22, 0x61, 0x79, 0x49, 0x82, 0xe7, 0xb9, 0x4b,
        0x50, 0x86, 0xc3, 0x7d, 0xcd, 0x21, 0x13, 0x03, 0x83, 0x49, 0x55,
        0xe1, 0x63, 0x40, 0x29, 0x60, 0x09, 0x49, 0x7f, 0xde, 0xee]),
    ((sampleTransfer bob dave 7).hashInput,
      #v[0xb0, 0xaf, 0x5a, 0xd2, 0x38, 0x90, 0xc1, 0xd1, 0x43, 0x14, 0x04,
        0x58, 0x1d, 0x60, 0x61, 0x3e, 0x6a, 0xd5, 0xbb, 0xbf, 0x63, 0x12,
        0xfb, 0x62, 0xc0, 0x57, 0x18, 0x4b, 0xbc, 0x81, 0x69, 0x3c])
  ]

/-- A build with overflow checks. -/
def sampleEnv : Env :=
  { sha256 := fun input => (sampleDigests.lookup input).getD (Vector.replicate 32 0)
    overflowChecks := true }

/-- Alice and Bob have 100000 each. -/
def sampleAccounts : Accounts := fun address =>
  if address = alice ∨ address = bob then some { (default : Account) with balance := 100000 }
  else none

/-- The entries in the order in which the map holds them. -/
def sampleOrder {α : Type} : IterOrder α := { arrange := id, perm := fun _ => .refl _ }

end InterBit.StateMachine
