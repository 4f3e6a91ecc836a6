import InterBit.Core.Keccak
import Mathlib.Data.List.AList

/-!
# What the rollups and the data availability layer share

The data of `layer2/mod.rs`.
-/

namespace InterBit.Layer2

/-- `enum Layer2Error`. -/
inductive Layer2Error where
  | rollupNotInitialized
  | invalidTransaction
  | batchNotFound
  | challengePeriodNotExpired
  | invalidProof
  | insufficientBond
  | channelNotFound
  | dataNotAvailable
  | compressionError
  | verificationFailed
  deriving DecidableEq

/-- How a call ends; `none` is a panic. -/
abbrev Outcome (α : Type) := Option (Except Layer2Error α)

/-- `enum StorageType`. -/
inductive StorageType where
  | onChain
  | ipfs
  | celestia
  | eigenDA
  | custom

/-- `struct DataAvailabilityConfig`, without the replication factor. -/
structure DataAvailabilityConfig where
  storageType : StorageType
  compressionEnabled : Bool
  erasureCodingEnabled : Bool

/-- `struct Layer2Config`, as far as the rollups use it. -/
structure Layer2Config where
  batchSize : Nat
  challengePeriodBlocks : U64
  minBondAmount : U256

/-- `struct Transaction`. -/
structure Transaction where
  id : H256
  sender : Address
  recipient : Address
  value : U256
  data : List UInt8
  nonce : U64
  gasPrice : U256
  gasLimit : U64
  signature : List UInt8
  requiresInstantFinality : Bool
  deriving DecidableEq

/-- `enum BatchState`. -/
inductive BatchState where
  | pending
  | submitted
  | challenged
  | finalized
  | invalid
  deriving DecidableEq

/-- `struct ExecutionStep`, without the storage. -/
structure ExecutionStep where
  pc : U64
  opcode : UInt8
  stack : List U256
  memory : List UInt8
  deriving DecidableEq

/-- `struct FraudProof`. -/
structure FraudProof where
  batchId : H256
  invalidStateRoot : H256
  correctStateRoot : H256
  witnessData : List UInt8
  executionTrace : List ExecutionStep
  deriving DecidableEq

end InterBit.Layer2
