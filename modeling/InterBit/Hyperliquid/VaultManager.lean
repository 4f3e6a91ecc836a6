import InterBit.Defi.Types

/-!
# Vaults

`hyperliquid/vault_integration.rs`: each call is one step, and a panic leaves what has been done
before it. What the connector says about the account, the ids that are drawn and the readings of
the clock are arguments.
-/

namespace InterBit.Hyperliquid

open InterBit.Defi (U32 saturatingSub toNat_saturatingSub)

/-- `enum HyperliquidError`. -/
inductive HyperliquidError where
  | apiError (message : String)
  | connectionError
  | invalidSymbol
  | insufficientBalance
  | invalidLeverage
  | orderNotFound
  | positionNotFound
  | spotTradingDisabled
  | vaultTradingDisabled
  | rateLimitExceeded
  | unauthorized
  | networkError
  deriving DecidableEq

/-- How a call ends; `none` is a panic. -/
abbrev Outcome (α : Type) := Option (Except HyperliquidError α)

/-- `enum VaultStrategy`. -/
inductive VaultStrategy where
  | marketMaking
  | arbitrage
  | trendFollowing
  | deltaNeutral
  | yield
  | mixed
  | custom (name : String)
  deriving DecidableEq

/-- `struct HyperliquidVault`. -/
structure HyperliquidVault where
  address : Address
  name : String
  description : String
  manager : Address
  totalValueLocked : U256
  sharePrice : U256
  totalShares : U256
  performanceFee : U32
  managementFee : U32
  minDeposit : U256
  lockPeriod : U64
  strategyType : VaultStrategy
  createdAt : U64
  lastRebalance : U64
  deriving DecidableEq

/-- `struct VaultDeposit`. -/
structure VaultDeposit where
  vaultAddress : Address
  depositor : Address
  amount : U256
  sharesReceived : U256
  sharePrice : U256
  timestamp : U64
  unlockTime : U64
  txHash : H256
  deriving DecidableEq

/-- `struct VaultManager`, without the connector and the cache of the performance. -/
structure VaultManager where
  vaults : AList fun _ : Address => HyperliquidVault
  userDeposits : AList fun _ : Address => List VaultDeposit

/-- What a new vault is made from. -/
structure VaultTerms where
  manager : Address
  name : String
  description : String
  strategyType : VaultStrategy
  performanceFee : U32
  managementFee : U32
  minDeposit : U256
  lockPeriod : U64
  deriving DecidableEq

/-- `generate_vault_address`: the first bytes of the name. -/
def generateVaultAddress (name : String) : Address :=
  Vector.ofFn fun i => name.toUTF8.data.toList.getD i 0

/-- `calculate_shares_for_deposit`; `none` is a panic. -/
def calculateSharesForDeposit (vault : HyperliquidVault) (amount : U256) : Option U256 :=
  if vault.totalShares = 0 then some amount
  else mulDivU256 amount vault.totalShares vault.totalValueLocked

/-- `calculate_withdrawal_amount`; `none` is a panic. -/
def calculateWithdrawalAmount (vault : HyperliquidVault) (shares : U256) : Option U256 :=
  if vault.totalShares = 0 then some 0
  else mulDivU256 shares vault.totalValueLocked vault.totalShares

/-- The fee on a withdrawal, and what is left; `none` is a panic. -/
def withdrawalFee (vault : HyperliquidVault) (amount : U256) : Option (U256 × U256) := do
  let performanceFee ← mulDivU256 amount (vault.performanceFee.setWidth 256) 10000
  let amountAfterFees ← subU256 amount performanceFee
  return (performanceFee, amountAfterFees)

/-- A deposit is added to a vault, first to the value and then to the shares; `none` is a panic. -/
def HyperliquidVault.credit (vault : HyperliquidVault) (amount shares : U256) :
    HyperliquidVault × Option Unit :=
  match addU256 vault.totalValueLocked amount with
  | none => (vault, none)
  | some totalValueLocked =>
    let vault := { vault with totalValueLocked }
    match addU256 vault.totalShares shares with
    | none => (vault, none)
    | some totalShares => ({ vault with totalShares }, some ())

/-- A withdrawal is taken from a vault. -/
def HyperliquidVault.debit (vault : HyperliquidVault) (amount shares : U256) : HyperliquidVault :=
  { vault with
    totalValueLocked := saturatingSub vault.totalValueLocked amount
    totalShares := saturatingSub vault.totalShares shares }

/-- The sum of the shares of some deposits; `none` is a panic. -/
def sumShares (deposits : List VaultDeposit) : Option U256 :=
  deposits.foldlM (fun sum deposit => addU256 sum deposit.sharesReceived) 0

namespace VaultManager

/-- `VaultManager::new`. -/
def new : VaultManager := ⟨∅, ∅⟩

/-- A vault is replaced. -/
def setVault (manager : VaultManager) (vaultAddress : Address) (vault : HyperliquidVault) :
    VaultManager :=
  { manager with vaults := manager.vaults.insert vaultAddress vault }

/-- The deposits of an account, if there are any. -/
def depositsOf (manager : VaultManager) (account : Address) : List VaultDeposit :=
  (manager.userDeposits.lookup account).getD []

/-- `get_user_shares`; `none` is a panic. -/
def getUserShares (manager : VaultManager) (account vaultAddress : Address) : Option U256 :=
  sumShares ((manager.depositsOf account).filter (·.vaultAddress = vaultAddress))

/-- `create_vault`. -/
def createVault (manager : VaultManager) (terms : VaultTerms) (createdAt lastRebalance : Seconds) :
    VaultManager × Outcome Address :=
  if (5000 : U32) < terms.performanceFee then
    (manager, some (.error (.apiError "Performance fee too high")))
  else if (500 : U32) < terms.managementFee then
    (manager, some (.error (.apiError "Management fee too high")))
  else
    let vaultAddress := generateVaultAddress terms.name
    (manager.setVault vaultAddress {
      address := vaultAddress
      name := terms.name
      description := terms.description
      manager := terms.manager
      totalValueLocked := 0
      sharePrice := 1000000
      totalShares := 0
      performanceFee := terms.performanceFee
      managementFee := terms.managementFee
      minDeposit := terms.minDeposit
      lockPeriod := terms.lockPeriod
      strategyType := terms.strategyType
      createdAt := createdAt.val
      lastRebalance := lastRebalance.val }, some (.ok vaultAddress))

/-- The record of a deposit that a vault takes; `none` is a panic. -/
def newDeposit (env : Env) (vault : HyperliquidVault) (account vaultAddress : Address)
    (amount : U256) (txHash : H256) (now : Seconds) : Option VaultDeposit := do
  let sharesReceived ← calculateSharesForDeposit vault amount
  let unlockTime ← env.add64 now.val vault.lockPeriod
  return {
    vaultAddress
    depositor := account
    amount
    sharesReceived
    sharePrice := vault.sharePrice
    timestamp := now.val
    unlockTime
    txHash }

/-- What `deposit` checks and computes before it writes. -/
def depositing (env : Env) (manager : VaultManager) (account vaultAddress : Address) (amount : U256)
    (balance : Outcome U256) (txHash : H256) (now : Seconds) : Outcome VaultDeposit :=
  match manager.vaults.lookup vaultAddress with
  | none => some (.error (.apiError "Vault not found"))
  | some vault =>
    if amount < vault.minDeposit then some (.error (.apiError "Amount below minimum deposit"))
    else
      -- the connector is only asked now
      match balance with
      | none => none
      | some (.error error) => some (.error error)
      | some (.ok balance) =>
        if balance < amount then some (.error .insufficientBalance)
        else (newDeposit env vault account vaultAddress amount txHash now).map .ok

/-- The record of a deposit goes to those of the account. -/
def recordDeposit (manager : VaultManager) (deposit : VaultDeposit) : VaultManager :=
  { manager with
    userDeposits := manager.userDeposits.insert deposit.depositor
      (manager.depositsOf deposit.depositor ++ [deposit]) }

/-- The vault of a deposit is credited, if it is there; `none` is a panic. -/
def creditVault (manager : VaultManager) (deposit : VaultDeposit) : VaultManager × Option Unit :=
  match manager.vaults.lookup deposit.vaultAddress with
  | none => (manager, some ())
  | some vault =>
    let (vault, credited) := vault.credit deposit.amount deposit.sharesReceived
    (manager.setVault deposit.vaultAddress vault, credited)

/-- `deposit`, with what the connector says about the balance of the account. -/
def deposit (env : Env) (manager : VaultManager) (account vaultAddress : Address) (amount : U256)
    (balance : Outcome U256) (txHash : H256) (now : Seconds) : VaultManager × Outcome H256 :=
  match manager.depositing env account vaultAddress amount balance txHash now with
  | none => (manager, none)
  | some (.error error) => (manager, some (.error error))
  | some (.ok deposit) =>
    let (manager, credited) := (manager.recordDeposit deposit).creditVault deposit
    (manager, credited.map fun _ => .ok deposit.txHash)

/-- What `withdraw` checks and computes before it writes: the amount that leaves the vault. -/
def withdrawing (manager : VaultManager) (account vaultAddress : Address) (shares : U256)
    (now : Seconds) : Outcome U256 :=
  match manager.vaults.lookup vaultAddress with
  | none => some (.error (.apiError "Vault not found"))
  | some vault =>
    match manager.getUserShares account vaultAddress with
    | none => none
    | some userShares =>
      if userShares < shares then some (.error (.apiError "Insufficient shares"))
      else
        match manager.userDeposits.lookup account with
        | none => some (.error (.apiError "No deposits found"))
        | some deposits =>
          -- any deposit that is not locked will do
          if deposits.any fun deposit =>
              deposit.vaultAddress = vaultAddress ∧ deposit.unlockTime ≤ now.val then
            match calculateWithdrawalAmount vault shares with
            | none => none
            | some amount => (withdrawalFee vault amount).map fun _ => .ok amount
          else some (.error (.apiError "Shares still locked"))

/-- The vault pays. -/
def debitVault (manager : VaultManager) (vaultAddress : Address) (amount shares : U256) :
    VaultManager :=
  match manager.vaults.lookup vaultAddress with
  | none => manager
  | some vault => manager.setVault vaultAddress (vault.debit amount shares)

/-- A deposit that a withdrawal leaves. -/
def Stays (vaultAddress : Address) (shares : U256) (deposit : VaultDeposit) : Bool :=
  deposit.vaultAddress ≠ vaultAddress ∨ shares < deposit.sharesReceived

/-- The deposits in a vault that have no more shares than are withdrawn are gone. -/
def retainDeposits (manager : VaultManager) (account vaultAddress : Address) (shares : U256) :
    VaultManager :=
  match manager.userDeposits.lookup account with
  | none => manager
  | some deposits =>
    { manager with
      userDeposits :=
        manager.userDeposits.insert account (deposits.filter (Stays vaultAddress shares)) }

/-- `withdraw`. -/
def withdraw (manager : VaultManager) (account vaultAddress : Address) (shares : U256)
    (txHash : H256) (now : Seconds) : VaultManager × Outcome H256 :=
  match manager.withdrawing account vaultAddress shares now with
  | none => (manager, none)
  | some (.error error) => (manager, some (.error error))
  | some (.ok amount) =>
    ((manager.debitVault vaultAddress amount shares).retainDeposits account vaultAddress shares,
      some (.ok txHash))

end VaultManager

end InterBit.Hyperliquid
