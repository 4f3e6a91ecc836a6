import InterBit.Core.Keccak
import Mathlib.Data.List.AList

/-!
# What the bridges share

The data of `cross_chain/mod.rs` that the bridge, the channels and the light clients share.
-/

namespace InterBit.CrossChain

/-- `enum CrossChainError`. -/
inductive CrossChainError where
  | chainNotSupported
  | invalidProof
  | transferNotFound
  | transferNotVerified
  | amountTooLow
  | amountTooHigh
  | relayerError (message : String)
  | bridgeError (message : String)
  | lightClientError (message : String)
  deriving DecidableEq

/-- How a call ends; `none` is a panic. -/
abbrev Outcome (α : Type) := Option (Except CrossChainError α)

/-- `enum ConsensusType`. -/
inductive ConsensusType where
  | proofOfWork
  | proofOfStake
  | delegatedProofOfStake
  | proofOfAuthority
  | bft
  deriving DecidableEq

/-- `enum ChainType`. -/
inductive ChainType where
  | evm
  | cosmos
  | substrate
  | solana
  | bitcoin
  deriving DecidableEq

/-- `struct ChainInfo`, as far as the manager and a light client use it. -/
structure ChainInfo where
  chainId : U64
  chainType : ChainType
  consensusType : ConsensusType
  averageBlockTime : U64

/-- `struct MerkleProof`. -/
structure MerkleProof where
  blockHeight : U64
  txHash : H256
  merklePath : List H256
  merkleRoot : H256

/-- `struct BridgeConfig`, as far as locking uses it. -/
structure BridgeConfig where
  minTransferAmount : U256
  maxTransferAmount : U256

end InterBit.CrossChain
