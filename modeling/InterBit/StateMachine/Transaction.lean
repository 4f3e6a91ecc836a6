import InterBit.Core.Bytes

/-!
# Accounts, transactions, receipts

The records of `state_machine/transaction.rs` and `state_machine/state.rs`, and
the errors of `state_machine/mod.rs`. The wall-clock field `execution_time_us` of
a receipt is left out.
-/

namespace InterBit.StateMachine

/-- `struct Account`. -/
structure Account where
  nonce : U64
  balance : U256
  storageRoot : H256
  codeHash : Option H256
  deriving DecidableEq

/-- `Account::default()`. -/
instance : Inhabited Account :=
  ⟨{ nonce := 0, balance := 0, storageRoot := Vector.replicate 32 0, codeHash := none }⟩

/-- `struct TransactionSignature`. -/
structure TransactionSignature where
  v : UInt8
  r : Vector UInt8 32
  s : Vector UInt8 32
  deriving DecidableEq

/-- `struct Transaction`; `sender` and `recipient` are the fields `from` and `to`. -/
structure Transaction where
  nonce : U64
  sender : Address
  recipient : Option Address
  value : U128
  data : List UInt8
  gasLimit : U64
  gasPrice : U128
  signature : TransactionSignature
  deriving DecidableEq

/-- `struct TransactionReceipt`. -/
structure TransactionReceipt where
  transactionHash : H256
  sender : Address
  recipient : Option Address
  gasUsed : U64
  status : Bool
  logs : List String
  deriving DecidableEq

/-- `enum StateMachineError`. -/
inductive StateMachineError where
  | invalidTransaction (message : String)
  | insufficientBalance
  | gasLimitExceeded
  | stateNotFound
  | executionFailed (message : String)
  | storageError (message : String)
  deriving DecidableEq, Repr

namespace Transaction

/-- What `Transaction::hash` feeds to the hasher. -/
def hashInput (tx : Transaction) : List UInt8 :=
  toBeBytes 8 tx.nonce ++ tx.sender.toList ++ (tx.recipient.map (·.toList)).getD [] ++
    toBeBytes 16 tx.value ++ tx.data ++ toBeBytes 8 tx.gasLimit ++ toBeBytes 16 tx.gasPrice

/-- `Transaction::hash`. -/
def hash (env : Env) (tx : Transaction) : H256 := env.sha256 tx.hashInput

/-- `verify_signature`. -/
def verifySignature (tx : Transaction) : Bool :=
  !tx.signature.r.toList.all (· == 0) && !tx.signature.s.toList.all (· == 0)

/-- `gas_cost`. A product of 64 and 128 bits fits into 256. -/
def gasCost (tx : Transaction) : U256 := tx.gasLimit.setWidth 256 * tx.gasPrice.setWidth 256

/-- `total_cost`. -/
def totalCost (tx : Transaction) : U256 := tx.value.setWidth 256 + tx.gasCost

theorem gas_mul_toNat (gas : U64) (price : U128) :
    (gas.setWidth 256 * price.setWidth 256 : U256).toNat = gas.toNat * price.toNat := by
  have hg := gas.isLt
  have hp := price.isLt
  have hlt : gas.toNat * price.toNat < 2 ^ 256 :=
    Nat.lt_of_lt_of_le (Nat.mul_lt_mul'' hg hp) (by decide)
  rw [BitVec.toNat_mul, BitVec.toNat_setWidth, BitVec.toNat_setWidth,
    Nat.mod_eq_of_lt (Nat.lt_of_lt_of_le hg (by decide)),
    Nat.mod_eq_of_lt (Nat.lt_of_lt_of_le hp (by decide)), Nat.mod_eq_of_lt hlt]

theorem value_toNat (value : U128) : (value.setWidth 256 : U256).toNat = value.toNat := by
  rw [BitVec.toNat_setWidth, Nat.mod_eq_of_lt (Nat.lt_of_lt_of_le value.isLt (by decide))]

theorem totalCost_toNat (tx : Transaction) :
    tx.totalCost.toNat = tx.value.toNat + tx.gasLimit.toNat * tx.gasPrice.toNat := by
  have hv := tx.value.isLt
  have hlt : tx.gasLimit.toNat * tx.gasPrice.toNat < 2 ^ 192 :=
    Nat.lt_of_lt_of_le (Nat.mul_lt_mul'' tx.gasLimit.isLt tx.gasPrice.isLt) (by decide)
  rw [totalCost, gasCost, BitVec.toNat_add, gas_mul_toNat, value_toNat, Nat.mod_eq_of_lt]
  omega

end Transaction

end InterBit.StateMachine
