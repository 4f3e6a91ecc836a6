import InterBit.Core.Keccak

/-!
# Protected transactions

The data of `dex/mev_protection/mod.rs` that the schemes of protection share.
-/

namespace InterBit.Mev

/-- `enum ProtectionType`. -/
inductive ProtectionType where
  | batchAuction
  | thresholdEncrypted
  | privatePool
  | commitReveal
  | none
  deriving DecidableEq

/-- `struct ProtectedTransaction`. -/
structure ProtectedTransaction where
  txHash : H256
  sender : Address
  nonce : U64
  gasPrice : U256
  data : List UInt8
  protectionType : ProtectionType
  timestamp : U64
  deriving DecidableEq

/-- `enum MevProtectionError`. -/
inductive MevProtectionError where
  | batchAuctionFailed (message : String)
  | encryptionFailed (message : String)
  | decryptionFailed (message : String)
  | thresholdNotMet
  | revealTimeout
  | invalidCommitment
  | privatePoolAccessDenied
  deriving DecidableEq

/-- How a call ends; `none` is a panic. -/
abbrev Outcome (α : Type) := Option (Except MevProtectionError α)

end InterBit.Mev
