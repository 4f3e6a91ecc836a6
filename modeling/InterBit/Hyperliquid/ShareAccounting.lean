import InterBit.Hyperliquid.VaultManager
import InterBit.Lib.Assoc
import InterBit.Lib.Trace

/-!
# The shares of a vault and of its depositors

A vault counts its shares, and each deposit has its own. A withdrawal takes the shares that it burns
from the vault, but from the deposits it takes those that have no more shares than that, with all
their shares. `accounted_iff`: the counts agree along a run exactly if these are the same at every
withdrawal that gets through, and no deposit overflows its vault.
-/

namespace InterBit.Hyperliquid

open InterBit.Defi InterBit.Lib

/-- The shares of some deposits. -/
def sharesOf (deposits : List VaultDeposit) : Nat :=
  (deposits.map fun deposit => deposit.sharesReceived.toNat).sum

/-- The shares of some deposits in a vault. -/
def sharesIn (vaultAddress : Address) (deposits : List VaultDeposit) : Nat :=
  sharesOf (deposits.filter (·.vaultAddress = vaultAddress))

/-- The manager, all deposits that have been recorded, the shares that an account has burned in a
vault, and the last reading of the clock. -/
structure VaultSession where
  manager : VaultManager
  made : List VaultDeposit
  burned : Address → Address → Nat
  clock : U64

/-- A call. -/
inductive VaultAction where
  | create (terms : VaultTerms) (createdAt lastRebalance : Seconds)
  | deposit (account vaultAddress : Address) (amount : U256) (balance : Outcome U256)
      (txHash : H256) (now : Seconds)
  | withdraw (account vaultAddress : Address) (shares : U256) (txHash : H256) (now : Seconds)

namespace VaultManager

/-- The shares of all deposits in a vault. -/
def recorded (manager : VaultManager) (vaultAddress : Address) : Nat :=
  weigh (sharesIn vaultAddress) manager.userDeposits

/-- The deposits of an account that a withdrawal removes. -/
def removed (manager : VaultManager) (account vaultAddress : Address) (shares : U256) :
    List VaultDeposit :=
  (manager.depositsOf account).filter fun deposit => !Stays vaultAddress shares deposit

/-- Each vault has as many shares as its deposits. -/
def Balanced (manager : VaultManager) : Prop :=
  ∀ vaultAddress vault, manager.vaults.lookup vaultAddress = some vault →
    vault.totalShares.toNat = manager.recorded vaultAddress

end VaultManager

namespace VaultSession

open VaultManager

/-- `VaultManager::new`. -/
def new : VaultSession := ⟨.new, [], fun _ _ => 0, 0⟩

/-- Shares are burned. -/
def burn (session : VaultSession) (account vaultAddress : Address) (shares : U256) :
    Address → Address → Nat := fun account' vaultAddress' =>
  session.burned account' vaultAddress'
    + if account' = account ∧ vaultAddress' = vaultAddress then shares.toNat else 0

/-- One call. -/
def next (env : Env) (session : VaultSession) : VaultAction → VaultSession
  | .create terms createdAt lastRebalance =>
    { session with manager := (session.manager.createVault terms createdAt lastRebalance).1 }
  | .deposit account vaultAddress amount balance txHash now =>
    let manager :=
      (session.manager.deposit env account vaultAddress amount balance txHash now).1
    match session.manager.depositing env account vaultAddress amount balance txHash now with
    | some (.ok deposit) =>
      { session with manager, made := session.made ++ [deposit], clock := now.val }
    | _ => { session with manager, clock := now.val }
  | .withdraw account vaultAddress shares txHash now =>
    match session.manager.withdraw account vaultAddress shares txHash now with
    | (manager, some (.ok _)) =>
      { session with manager, burned := session.burn account vaultAddress shares, clock := now.val }
    | (manager, _) => { session with manager, clock := now.val }

/-- The shares that the deposits of an account have created in a vault. -/
def created (session : VaultSession) (account vaultAddress : Address) : Nat :=
  sharesIn vaultAddress (session.made.filter (·.depositor = account))

/-- After the call each vault has as many shares as its deposits, and nobody has burned more shares
in a vault than its deposits have created. -/
def Accounted (env : Env) (session : VaultSession) (action : VaultAction) : Prop :=
  (session.next env action).manager.Balanced ∧
    ∀ account vaultAddress, (session.next env action).burned account vaultAddress
      ≤ (session.next env action).created account vaultAddress

/-- A withdrawal that gets through burns the shares of the deposits that it removes, and a deposit
that gets some shares does not overflow its vault. -/
def Exact (env : Env) (session : VaultSession) : VaultAction → Prop
  | .create _ _ _ => True
  | .deposit account vaultAddress amount balance txHash now =>
    ∀ deposit vault,
      session.manager.depositing env account vaultAddress amount balance txHash now
        = some (.ok deposit) →
      session.manager.vaults.lookup vaultAddress = some vault →
        deposit.sharesReceived = 0 ∨
          (vault.totalValueLocked.toNat + amount.toNat < 2 ^ 256 ∧
            vault.totalShares.toNat + deposit.sharesReceived.toNat < 2 ^ 256)
  | .withdraw account vaultAddress shares _ now =>
    ∀ amount, session.manager.withdrawing account vaultAddress shares now = some (.ok amount) →
      sharesOf (session.manager.removed account vaultAddress shares) = shares.toNat

/-- The vaults that are created have distinct addresses. -/
def Distinct (session : VaultSession) : VaultAction → Prop
  | .create terms createdAt lastRebalance =>
    ∀ address, (session.manager.createVault terms createdAt lastRebalance).2 = some (.ok address) →
      session.manager.vaults.lookup address = none
  | _ => True

/-- What an account has created in a vault is recorded or burned. -/
def Kept (session : VaultSession) : Prop :=
  ∀ account vaultAddress, session.created account vaultAddress
    = sharesIn vaultAddress (session.manager.depositsOf account)
      + session.burned account vaultAddress

/-- All shares are kept, and the deposits have their vaults. -/
structure Tracked (session : VaultSession) : Prop where
  kept : session.Kept
  hosted : ∀ vaultAddress, session.manager.vaults.lookup vaultAddress = none →
    session.manager.recorded vaultAddress = 0

end VaultSession

/-! ## Sums of shares -/

@[simp] theorem sharesOf_nil : sharesOf [] = 0 := rfl

theorem sharesOf_append (deposits deposits' : List VaultDeposit) :
    sharesOf (deposits ++ deposits') = sharesOf deposits + sharesOf deposits' := by
  rw [sharesOf, List.map_append, List.sum_append]
  rfl

theorem sharesIn_append (vaultAddress : Address) (deposits deposits' : List VaultDeposit) :
    sharesIn vaultAddress (deposits ++ deposits')
      = sharesIn vaultAddress deposits + sharesIn vaultAddress deposits' := by
  rw [sharesIn, List.filter_append, sharesOf_append]
  rfl

/-- A deposit counts in its own vault only. -/
theorem sharesIn_singleton (vaultAddress : Address) (deposit : VaultDeposit) :
    sharesIn vaultAddress [deposit]
      = if deposit.vaultAddress = vaultAddress then deposit.sharesReceived.toNat else 0 := by
  unfold sharesIn
  split
  next h =>
    rw [List.filter_cons_of_pos (by simpa using h)]
    exact Nat.add_zero _
  next h =>
    rw [List.filter_cons_of_neg (by simpa using h)]
    rfl

/-- The deposits that are selected and the others have all the shares. -/
theorem sharesOf_filter_add (p : VaultDeposit → Bool) (deposits : List VaultDeposit) :
    sharesOf (deposits.filter p) + sharesOf (deposits.filter fun deposit => !p deposit)
      = sharesOf deposits := by
  induction deposits with
  | nil => rfl
  | cons deposit deposits ih =>
    have hcons : ∀ rest, sharesOf (deposit :: rest)
        = deposit.sharesReceived.toNat + sharesOf rest := fun _ => rfl
    cases hp : p deposit with
    | true =>
      rw [List.filter_cons_of_pos hp, List.filter_cons_of_neg (by simp [hp]), hcons, hcons]
      omega
    | false =>
      rw [List.filter_cons_of_neg (by simp [hp]), List.filter_cons_of_pos (by simp [hp]), hcons,
        hcons]
      omega

theorem foldlM_shares {deposits : List VaultDeposit} : ∀ {start sum : U256},
    deposits.foldlM (fun sum deposit => addU256 sum deposit.sharesReceived) start = some sum →
      sum.toNat = start.toNat + sharesOf deposits := by
  induction deposits with
  | nil =>
    intro start sum h
    rw [← Option.some.inj h]
    rfl
  | cons deposit deposits ih =>
    intro start sum h
    rw [List.foldlM_cons] at h
    obtain ⟨first, hfirst, hrest⟩ := Option.bind_eq_some_iff.mp h
    rw [ih hrest, addU256_eq.mp hfirst, Nat.add_assoc]
    rfl

theorem sumShares_eq_some {deposits : List VaultDeposit} {sum : U256}
    (h : sumShares deposits = some sum) : sum.toNat = sharesOf deposits :=
  (foldlM_shares h).trans (Nat.zero_add _)

/-- What a withdrawal removes is in its vault. -/
theorem sharesIn_removed (vaultAddress vaultAddress' : Address) (shares : U256)
    (deposits : List VaultDeposit) :
    sharesIn vaultAddress' (deposits.filter fun deposit =>
        !VaultManager.Stays vaultAddress shares deposit)
      = if vaultAddress' = vaultAddress then
          sharesOf (deposits.filter fun deposit => !VaultManager.Stays vaultAddress shares deposit)
        else 0 := by
  have hin : ∀ deposit ∈ deposits.filter fun deposit =>
      !VaultManager.Stays vaultAddress shares deposit, deposit.vaultAddress = vaultAddress := by
    intro deposit hmem
    have hgone := (List.mem_filter.mp hmem).2
    simp only [VaultManager.Stays, Bool.not_eq_true', decide_eq_false_iff_not, not_or,
      not_not] at hgone
    exact hgone.1
  unfold sharesIn
  split
  next h =>
    rw [List.filter_eq_self.mpr fun deposit hmem => by simpa [h] using hin deposit hmem]
  next h =>
    have hnone : List.filter (fun deposit : VaultDeposit => deposit.vaultAddress = vaultAddress')
        (deposits.filter fun deposit => !VaultManager.Stays vaultAddress shares deposit) = [] := by
      refine List.filter_eq_nil_iff.mpr fun deposit hmem hsame => h ?_
      exact (of_decide_eq_true hsame).symm.trans (hin deposit hmem)
    rw [hnone, sharesOf_nil]

/-- What stays and what is removed are all. -/
theorem sharesIn_stays (vaultAddress vaultAddress' : Address) (shares : U256)
    (deposits : List VaultDeposit) :
    sharesIn vaultAddress' (deposits.filter (VaultManager.Stays vaultAddress shares))
        + (if vaultAddress' = vaultAddress then
            sharesOf (deposits.filter fun deposit =>
              !VaultManager.Stays vaultAddress shares deposit) else 0)
      = sharesIn vaultAddress' deposits := by
  rw [← sharesIn_removed]
  unfold sharesIn
  rw [List.filter_comm, List.filter_comm (p := fun deposit : VaultDeposit =>
    decide (deposit.vaultAddress = vaultAddress'))]
  exact sharesOf_filter_add _ _

/-! ## What the calls do to the shares -/

/-- A credit raises the shares if nothing overflows. -/
theorem HyperliquidVault.totalShares_credit (vault : HyperliquidVault) (amount shares : U256) :
    (vault.credit amount shares).1.totalShares.toNat = vault.totalShares.toNat
      + if vault.totalValueLocked.toNat + amount.toNat < 2 ^ 256 ∧
            vault.totalShares.toNat + shares.toNat < 2 ^ 256 then shares.toNat else 0 := by
  unfold credit
  cases hvalue : addU256 vault.totalValueLocked amount with
  | none =>
    have hno := addU256_isSome.not.mp (Option.not_isSome_iff_eq_none.mpr hvalue)
    rw [if_neg fun h => hno h.1]
    rfl
  | some totalValueLocked =>
    have hvalue := addU256_isSome.mp (Option.isSome_iff_exists.mpr ⟨_, hvalue⟩)
    dsimp only
    cases hshares : addU256 vault.totalShares shares with
    | none =>
      have hno := addU256_isSome.not.mp (Option.not_isSome_iff_eq_none.mpr hshares)
      rw [if_neg fun h => hno h.2]
      rfl
    | some totalShares =>
      have hsum := addU256_eq.mp hshares
      have hshares := addU256_isSome.mp (Option.isSome_iff_exists.mpr ⟨_, hshares⟩)
      rw [if_pos ⟨hvalue, hshares⟩]
      exact hsum

namespace VaultManager

variable {manager : VaultManager} {env : Env}

variable {account vaultAddress : Address} {vault : HyperliquidVault}

/-- A deposit that is taken has what the call says, and its vault is there. -/
theorem depositing_spec {amount : U256} {balance : Outcome U256}
    {txHash : H256} {now : Seconds} {deposit : VaultDeposit}
    (h : manager.depositing env account vaultAddress amount balance txHash now
      = some (.ok deposit)) :
    ∃ vault, manager.vaults.lookup vaultAddress = some vault ∧
      deposit.vaultAddress = vaultAddress ∧ deposit.depositor = account ∧
      deposit.amount = amount := by
  unfold depositing at h
  cases hvault : manager.vaults.lookup vaultAddress with
  | none =>
    rw [hvault] at h
    cases h
  | some vault =>
    rw [hvault] at h
    dsimp only at h
    split at h
    next => cases h
    next =>
      rcases balance with _ | error | balance
      · cases h
      · cases h
      · dsimp only at h
        split at h
        next => cases h
        next =>
          obtain ⟨made, hmade, hok⟩ := Option.map_eq_some_iff.mp h
          obtain rfl := Except.ok.inj hok
          unfold newDeposit at hmade
          obtain ⟨shares, _, hmade⟩ := Option.bind_eq_some_iff.mp hmade
          obtain ⟨unlock, _, hmade⟩ := Option.bind_eq_some_iff.mp hmade
          obtain rfl := Option.some.inj hmade
          exact ⟨vault, rfl, rfl, rfl, rfl⟩

/-- A withdrawal that gets through has its vault, and the account has the shares. -/
theorem withdrawing_spec {shares amount : U256} {now : Seconds}
    (h : manager.withdrawing account vaultAddress shares now = some (.ok amount)) :
    ∃ vault deposits, manager.vaults.lookup vaultAddress = some vault ∧
      manager.userDeposits.lookup account = some deposits ∧
      shares.toNat ≤ sharesIn vaultAddress (manager.depositsOf account) := by
  unfold withdrawing at h
  cases hvault : manager.vaults.lookup vaultAddress with
  | none =>
    rw [hvault] at h
    cases h
  | some vault =>
    rw [hvault] at h
    dsimp only at h
    cases huser : manager.getUserShares account vaultAddress with
    | none =>
      rw [huser] at h
      cases h
    | some userShares =>
      rw [huser] at h
      dsimp only at h
      split at h
      next => cases h
      next hle =>
        cases hdeposits : manager.userDeposits.lookup account with
        | none =>
          rw [hdeposits] at h
          cases h
        | some deposits =>
          refine ⟨vault, deposits, rfl, rfl, ?_⟩
          rw [sharesIn, ← sumShares_eq_some huser]
          exact BitVec.le_def.mp (BitVec.not_lt.mp hle)

/-- The deposits of one account are replaced. -/
theorem recorded_insert (manager : VaultManager) (account vaultAddress : Address)
    (deposits : List VaultDeposit) :
    weigh (sharesIn vaultAddress) (manager.userDeposits.insert account deposits)
        + sharesIn vaultAddress (manager.depositsOf account)
      = manager.recorded vaultAddress + sharesIn vaultAddress deposits := by
  have hold : weightAt (sharesIn vaultAddress) manager.userDeposits account
      = sharesIn vaultAddress (manager.depositsOf account) := by
    unfold weightAt depositsOf
    cases manager.userDeposits.lookup account with
    | none => rfl
    | some old => rfl
  have hsplit := weigh_eq_weightAt (sharesIn vaultAddress) manager.userDeposits account
  rw [weigh_insert, recorded, hsplit, hold]
  omega

theorem depositsOf_insert (manager : VaultManager) (account account' : Address)
    (deposits : List VaultDeposit) :
    depositsOf { manager with userDeposits := manager.userDeposits.insert account deposits } account'
      = if account' = account then deposits else manager.depositsOf account' := by
  unfold depositsOf
  split
  next h => rw [h, AList.lookup_insert, Option.getD_some]
  next h => rw [AList.lookup_insert_ne h]

@[simp] theorem userDeposits_creditVault (manager : VaultManager) (deposit : VaultDeposit) :
    (manager.creditVault deposit).1.userDeposits = manager.userDeposits := by
  unfold creditVault
  split
  next => rfl
  next => rfl

@[simp] theorem userDeposits_debitVault (manager : VaultManager) (vaultAddress : Address)
    (amount shares : U256) :
    (manager.debitVault vaultAddress amount shares).userDeposits = manager.userDeposits := by
  unfold debitVault
  split
  next => rfl
  next => rfl

@[simp] theorem vaults_retainDeposits (manager : VaultManager) (account vaultAddress : Address)
    (shares : U256) :
    (manager.retainDeposits account vaultAddress shares).vaults = manager.vaults := by
  unfold retainDeposits
  split
  next => rfl
  next => rfl

theorem recorded_recordDeposit (manager : VaultManager) (deposit : VaultDeposit)
    (vaultAddress : Address) :
    (manager.recordDeposit deposit).recorded vaultAddress = manager.recorded vaultAddress
      + if deposit.vaultAddress = vaultAddress then deposit.sharesReceived.toNat else 0 := by
  have hinsert := manager.recorded_insert deposit.depositor vaultAddress
    (manager.depositsOf deposit.depositor ++ [deposit])
  rw [sharesIn_append, sharesIn_singleton] at hinsert
  show weigh (sharesIn vaultAddress) (manager.userDeposits.insert _ _) = _
  omega

theorem recorded_creditVault (manager : VaultManager) (deposit : VaultDeposit)
    (vaultAddress : Address) :
    (manager.creditVault deposit).1.recorded vaultAddress = manager.recorded vaultAddress := by
  rw [recorded, userDeposits_creditVault]
  rfl

theorem vaults_creditVault {deposit : VaultDeposit} {vault : HyperliquidVault}
    (h : manager.vaults.lookup deposit.vaultAddress = some vault) :
    (manager.creditVault deposit).1.vaults = manager.vaults.insert deposit.vaultAddress
      (vault.credit deposit.amount deposit.sharesReceived).1 := by
  unfold creditVault
  rw [h]
  rfl

/-- A deposit keeps the balance exactly if it gets no shares or nothing overflows. -/
theorem Balanced.deposit_iff (h : manager.Balanced) {deposit : VaultDeposit}
    (hvault : manager.vaults.lookup deposit.vaultAddress = some vault) :
    ((manager.recordDeposit deposit).creditVault deposit).1.Balanced ↔
      deposit.sharesReceived = 0 ∨
        (vault.totalValueLocked.toNat + deposit.amount.toNat < 2 ^ 256 ∧
          vault.totalShares.toNat + deposit.sharesReceived.toNat < 2 ^ 256) := by
  have hshares := vault.totalShares_credit deposit.amount deposit.sharesReceived
  have hvaults := @vaults_creditVault (manager.recordDeposit deposit) _ _ hvault
  have hzero : deposit.sharesReceived = 0 ↔ deposit.sharesReceived.toNat = 0 := by
    rw [← BitVec.toNat_inj]
    rfl
  have hold := h _ _ hvault
  unfold Balanced
  rw [hvaults, hzero]
  simp only [recorded_creditVault, recorded_recordDeposit]
  constructor
  · intro hbalanced
    have hnew := hbalanced deposit.vaultAddress _ (AList.lookup_insert _)
    rw [if_pos rfl, hshares] at hnew
    split at hnew
    next hfits => exact Or.inr hfits
    next => exact Or.inl (by omega)
  · intro hfits vaultAddress vault' hlookup
    obtain ⟨rfl, rfl⟩ | ⟨hne, hlookup⟩ := lookup_insert_eq_some.mp hlookup
    · rw [if_pos rfl, hshares]
      split
      next => omega
      next hno =>
        obtain hzero | hfits := hfits
        · omega
        · exact absurd hfits hno
    · rw [if_neg (Ne.symm hne)]
      exact h _ _ hlookup

/-- Debiting a vault records nothing. -/
theorem recorded_debitVault (manager : VaultManager) (vaultAddress vaultAddress' : Address)
    (amount shares : U256) :
    (manager.debitVault vaultAddress amount shares).recorded vaultAddress'
      = manager.recorded vaultAddress' := by
  rw [recorded, userDeposits_debitVault]
  rfl

/-- A withdrawal takes the shares of what it removes from the records. -/
theorem recorded_retainDeposits {account : Address} {deposits : List VaultDeposit}
    (h : manager.userDeposits.lookup account = some deposits) (vaultAddress vaultAddress' : Address)
    (shares : U256) :
    (manager.retainDeposits account vaultAddress shares).recorded vaultAddress'
        + (if vaultAddress' = vaultAddress then
            sharesOf (manager.removed account vaultAddress shares) else 0)
      = manager.recorded vaultAddress' := by
  have hdeposits : manager.depositsOf account = deposits := by
    rw [depositsOf, h, Option.getD_some]
  have hinsert := manager.recorded_insert account vaultAddress'
    (deposits.filter (Stays vaultAddress shares))
  have hstays := sharesIn_stays vaultAddress vaultAddress' shares deposits
  rw [hdeposits] at hinsert
  rw [removed, hdeposits]
  have hretain : (manager.retainDeposits account vaultAddress shares).recorded vaultAddress'
      = weigh (sharesIn vaultAddress')
        (manager.userDeposits.insert account (deposits.filter (Stays vaultAddress shares))) := by
    unfold retainDeposits recorded
    rw [h]
  omega

theorem vaults_debitVault {vaultAddress : Address}
    (h : manager.vaults.lookup vaultAddress = some vault) (amount shares : U256) :
    (manager.debitVault vaultAddress amount shares).vaults
      = manager.vaults.insert vaultAddress (vault.debit amount shares) := by
  unfold debitVault
  rw [h]
  rfl

/-- The records of an account are among all. -/
theorem sharesIn_le_recorded (manager : VaultManager) (account vaultAddress : Address) :
    sharesIn vaultAddress (manager.depositsOf account) ≤ manager.recorded vaultAddress := by
  have hinsert := manager.recorded_insert account vaultAddress []
  have hnil : sharesIn vaultAddress [] = 0 := rfl
  omega

/-- A withdrawal keeps the balance exactly if it burns what it removes. -/
theorem Balanced.withdraw_iff (h : manager.Balanced) {shares : U256} {deposits : List VaultDeposit}
    (hvault : manager.vaults.lookup vaultAddress = some vault)
    (hdeposits : manager.userDeposits.lookup account = some deposits)
    (hle : shares.toNat ≤ sharesIn vaultAddress (manager.depositsOf account)) (amount : U256) :
    ((manager.debitVault vaultAddress amount shares).retainDeposits account vaultAddress
        shares).Balanced ↔
      sharesOf (manager.removed account vaultAddress shares) = shares.toNat := by
  have hold := h _ _ hvault
  have hin := manager.sharesIn_le_recorded account vaultAddress
  have hdebit : (vault.debit amount shares).totalShares.toNat
      = vault.totalShares.toNat - shares.toNat := toNat_saturatingSub _ _
  have hremoved : (manager.debitVault vaultAddress amount shares).removed account vaultAddress shares
      = manager.removed account vaultAddress shares := by
    rw [removed, depositsOf, userDeposits_debitVault]
    rfl
  have hrecorded := fun vaultAddress' => @recorded_retainDeposits
    (manager.debitVault vaultAddress amount shares) account deposits
    (by rw [userDeposits_debitVault, hdeposits]) vaultAddress vaultAddress' shares
  simp only [recorded_debitVault, hremoved] at hrecorded
  unfold Balanced
  rw [vaults_retainDeposits, vaults_debitVault hvault]
  constructor
  · intro hbalanced
    have hnew := hbalanced vaultAddress _ (AList.lookup_insert _)
    have hself := hrecorded vaultAddress
    rw [if_pos rfl] at hself
    omega
  · intro hburned vaultAddress' vault' hlookup
    have hafter := hrecorded vaultAddress'
    obtain ⟨rfl, rfl⟩ | ⟨hne, hlookup⟩ := lookup_insert_eq_some.mp hlookup
    · rw [if_pos rfl] at hafter
      omega
    · rw [if_neg hne] at hafter
      have hother := h _ _ hlookup
      omega

end VaultManager

namespace VaultSession

open VaultManager

variable {session : VaultSession} {env : Env}

/-! ## What the calls do to the session -/

/-- Either a deposit is recorded, or nothing happens. -/
theorem next_deposit (env : Env) (session : VaultSession) (account vaultAddress : Address)
    (amount : U256) (balance : Outcome U256) (txHash : H256) (now : Seconds) :
    (∃ deposit, session.manager.depositing env account vaultAddress amount balance txHash now
          = some (.ok deposit) ∧
        session.next env (.deposit account vaultAddress amount balance txHash now)
          = { session with
              manager := ((session.manager.recordDeposit deposit).creditVault deposit).1
              made := session.made ++ [deposit]
              clock := now.val }) ∨
      (∀ deposit, session.manager.depositing env account vaultAddress amount balance txHash now
          ≠ some (.ok deposit)) ∧
        session.next env (.deposit account vaultAddress amount balance txHash now)
          = { session with clock := now.val } := by
  rcases hchecked : session.manager.depositing env account vaultAddress amount balance txHash now
    with _ | error | deposit
  · exact Or.inr ⟨nofun, by simp only [next, VaultManager.deposit, hchecked]⟩
  · exact Or.inr ⟨nofun, by simp only [next, VaultManager.deposit, hchecked]⟩
  · exact Or.inl ⟨deposit, rfl, by simp only [next, VaultManager.deposit, hchecked]⟩

/-- Either a withdrawal gets through, or nothing happens. -/
theorem next_withdraw (env : Env) (session : VaultSession) (account vaultAddress : Address)
    (shares : U256) (txHash : H256) (now : Seconds) :
    (∃ amount, session.manager.withdrawing account vaultAddress shares now = some (.ok amount) ∧
        session.next env (.withdraw account vaultAddress shares txHash now)
          = { session with
              manager := (session.manager.debitVault vaultAddress amount shares).retainDeposits
                account vaultAddress shares
              burned := session.burn account vaultAddress shares
              clock := now.val }) ∨
      (∀ amount, session.manager.withdrawing account vaultAddress shares now
          ≠ some (.ok amount)) ∧
        session.next env (.withdraw account vaultAddress shares txHash now)
          = { session with clock := now.val } := by
  rcases hchecked : session.manager.withdrawing account vaultAddress shares now
    with _ | error | amount
  · exact Or.inr ⟨nofun, by simp only [next, withdraw, hchecked]⟩
  · exact Or.inr ⟨nofun, by simp only [next, withdraw, hchecked]⟩
  · exact Or.inl ⟨amount, rfl, by simp only [next, withdraw, hchecked]⟩

/-- Either a vault is created, or nothing happens. -/
theorem next_create (env : Env) (session : VaultSession) (terms : VaultTerms)
    (createdAt lastRebalance : Seconds) :
    (∃ vault, (session.manager.createVault terms createdAt lastRebalance).2
          = some (.ok (generateVaultAddress terms.name)) ∧ vault.totalShares = 0 ∧
        session.next env (.create terms createdAt lastRebalance)
          = { session with
              manager := session.manager.setVault (generateVaultAddress terms.name) vault }) ∨
      session.next env (.create terms createdAt lastRebalance) = session := by
  unfold next createVault
  dsimp only
  split
  next => exact Or.inr rfl
  next =>
    split
    next => exact Or.inr rfl
    next => exact Or.inl ⟨_, rfl, rfl, rfl⟩

/-- A deposit is made and recorded: among the selected deposits, what is made and what is recorded
grow by the same. -/
theorem selected_record (p : VaultDeposit → Bool) (deposit : VaultDeposit)
    (account vaultAddress : Address) :
    sharesIn vaultAddress (((session.made ++ [deposit]).filter (·.depositor = account)).filter p)
        + sharesIn vaultAddress ((session.manager.depositsOf account).filter p)
      = sharesIn vaultAddress ((session.made.filter (·.depositor = account)).filter p)
        + sharesIn vaultAddress
          ((((session.manager.recordDeposit deposit).creditVault deposit).1.depositsOf
            account).filter p) := by
  have hdeposits := session.manager.depositsOf_insert deposit.depositor account
    (session.manager.depositsOf deposit.depositor ++ [deposit])
  have hcredited : ((session.manager.recordDeposit deposit).creditVault deposit).1.depositsOf account
      = (session.manager.recordDeposit deposit).depositsOf account := by
    rw [depositsOf, userDeposits_creditVault]
    rfl
  rw [hcredited]
  unfold recordDeposit
  rw [hdeposits, List.filter_append, List.filter_append, sharesIn_append]
  by_cases haccount : account = deposit.depositor
  · subst haccount
    rw [if_pos rfl, List.filter_append, sharesIn_append,
      List.filter_cons_of_pos (a := deposit) (decide_eq_true rfl), List.filter_nil]
    omega
  · rw [if_neg haccount, List.filter_cons_of_neg (by simpa using Ne.symm haccount),
      List.filter_nil]
    rfl

variable {deposits : List VaultDeposit} {vault : HyperliquidVault}

/-- A withdrawal removes some of the recorded deposits that are selected. -/
theorem selected_retain (p : VaultDeposit → Bool) {account : Address}
    (hdeposits : session.manager.userDeposits.lookup account = some deposits)
    (vaultAddress : Address) (shares amount : U256) (account' vaultAddress' : Address) :
    sharesIn vaultAddress' ((((session.manager.debitVault vaultAddress amount shares).retainDeposits
          account vaultAddress shares).depositsOf account').filter p)
        + (if account' = account ∧ vaultAddress' = vaultAddress then
            sharesOf ((session.manager.removed account vaultAddress shares).filter p) else 0)
      = sharesIn vaultAddress' ((session.manager.depositsOf account').filter p) := by
  have hlookup : (session.manager.debitVault vaultAddress amount shares).userDeposits.lookup account
      = some deposits := by rw [userDeposits_debitVault, hdeposits]
  have hold : session.manager.depositsOf account = deposits := by
    rw [depositsOf, hdeposits, Option.getD_some]
  have hnew : ((session.manager.debitVault vaultAddress amount shares).retainDeposits account
      vaultAddress shares).depositsOf account'
        = if account' = account then deposits.filter (Stays vaultAddress shares)
          else session.manager.depositsOf account' := by
    unfold retainDeposits
    rw [hlookup]
    dsimp only
    rw [depositsOf_insert, depositsOf, userDeposits_debitVault]
    rfl
  rw [hnew]
  by_cases haccount : account' = account
  · subst haccount
    have hstays := sharesIn_stays vaultAddress vaultAddress' shares (deposits.filter p)
    rw [List.filter_comm, List.filter_comm (q := p)] at hstays
    rw [if_pos rfl, if_congr (and_iff_right rfl) rfl rfl, removed, hold]
    exact hstays
  · rw [if_neg haccount, if_neg fun h => haccount h.1]
    rfl

/-- A deposit that is recorded is kept. -/
theorem Kept.record (h : session.Kept) (deposit : VaultDeposit) (clock : U64) :
    ({ session with
        manager := ((session.manager.recordDeposit deposit).creditVault deposit).1
        made := session.made ++ [deposit]
        clock } : VaultSession).Kept := by
  intro account vaultAddress
  have hkept := h account vaultAddress
  have hrecord := session.selected_record (fun _ => true) deposit account vaultAddress
  simp only [List.filter_true] at hrecord
  unfold created at hkept ⊢
  dsimp only
  omega

/-- A withdrawal is kept if it burns what it removes. -/
theorem Kept.retain (h : session.Kept) {account vaultAddress : Address} {shares : U256}
    (hdeposits : session.manager.userDeposits.lookup account = some deposits)
    (hexact : sharesOf (session.manager.removed account vaultAddress shares) = shares.toNat)
    (amount : U256) (clock : U64) :
    ({ session with
        manager := (session.manager.debitVault vaultAddress amount shares).retainDeposits account
          vaultAddress shares
        burned := session.burn account vaultAddress shares
        clock } : VaultSession).Kept := by
  intro account' vaultAddress'
  have hkept := h account' vaultAddress'
  have hretain := selected_retain (fun _ => true) hdeposits vaultAddress shares amount account'
    vaultAddress'
  simp only [List.filter_true, hexact] at hretain
  have hburned : session.burn account vaultAddress shares account' vaultAddress'
      = session.burned account' vaultAddress'
        + if account' = account ∧ vaultAddress' = vaultAddress then shares.toNat else 0 := rfl
  unfold created at hkept ⊢
  dsimp only
  omega

/-- A deposit that is recorded is tracked. -/
theorem Tracked.record (h : session.Tracked) {deposit : VaultDeposit}
    (hvault : session.manager.vaults.lookup deposit.vaultAddress = some vault) (clock : U64) :
    ({ session with
        manager := ((session.manager.recordDeposit deposit).creditVault deposit).1
        made := session.made ++ [deposit]
        clock } : VaultSession).Tracked := by
  constructor
  · exact h.kept.record deposit clock
  · intro vaultAddress hnone
    have hvaults := @vaults_creditVault (session.manager.recordDeposit deposit) _ _ hvault
    dsimp only at hnone ⊢
    rw [hvaults] at hnone
    obtain ⟨hne, hnone⟩ := lookup_insert_eq_none.mp hnone
    rw [recorded_creditVault, recorded_recordDeposit, if_neg (Ne.symm hne)]
    exact h.hosted vaultAddress hnone

/-- A withdrawal that burns what it removes is tracked. -/
theorem Tracked.retain (h : session.Tracked) {account vaultAddress : Address} {shares : U256}
    (hvault : session.manager.vaults.lookup vaultAddress = some vault)
    (hdeposits : session.manager.userDeposits.lookup account = some deposits)
    (hexact : sharesOf (session.manager.removed account vaultAddress shares) = shares.toNat)
    (amount : U256) (clock : U64) :
    ({ session with
        manager := (session.manager.debitVault vaultAddress amount shares).retainDeposits account
          vaultAddress shares
        burned := session.burn account vaultAddress shares
        clock } : VaultSession).Tracked := by
  have hlookup : (session.manager.debitVault vaultAddress amount shares).userDeposits.lookup account
      = some deposits := by rw [userDeposits_debitVault, hdeposits]
  constructor
  · exact h.kept.retain hdeposits hexact amount clock
  · intro vaultAddress' hnone
    dsimp only at hnone ⊢
    rw [vaults_retainDeposits, vaults_debitVault hvault] at hnone
    obtain ⟨hne, hnone⟩ := lookup_insert_eq_none.mp hnone
    have hrecorded := recorded_retainDeposits hlookup vaultAddress vaultAddress' shares
    rw [if_neg hne, recorded_debitVault, h.hosted vaultAddress' hnone] at hrecorded
    exact hrecorded

/-- A vault that is created at a new address has no shares, and no deposits. -/
theorem Tracked.create (h : session.Tracked) (hbalanced : session.manager.Balanced)
    {vaultAddress : Address} (hzero : vault.totalShares = 0)
    (hnew : session.manager.vaults.lookup vaultAddress = none) :
    ({ session with manager := session.manager.setVault vaultAddress vault } :
        VaultSession).Tracked ∧
      (session.manager.setVault vaultAddress vault).Balanced := by
  refine ⟨⟨h.kept, fun vaultAddress' hnone => ?_⟩, fun vaultAddress' vault' hlookup => ?_⟩
  · refine h.hosted vaultAddress' ?_
    by_cases hsame : vaultAddress' = vaultAddress
    · rw [hsame, hnew]
    · exact (AList.lookup_insert_ne hsame).symm.trans hnone
  · obtain ⟨rfl, rfl⟩ | ⟨_, hlookup⟩ := lookup_insert_eq_some.mp hlookup
    · rw [hzero]
      exact (h.hosted _ hnew).symm
    · exact hbalanced vaultAddress' vault' hlookup

/-- A call keeps the balance exactly if it is exact. -/
theorem Tracked.balanced_next_iff (h : session.Tracked) (hbalanced : session.manager.Balanced)
    {action : VaultAction} (hdistinct : session.Distinct action) :
    (session.next env action).manager.Balanced ↔ session.Exact env action := by
  cases action with
  | create terms createdAt lastRebalance =>
    refine iff_of_true ?_ trivial
    obtain ⟨vault, hcreated, hzero, hnext⟩ | hnext :=
      session.next_create env terms createdAt lastRebalance
    · rw [hnext]
      exact (h.create hbalanced hzero (hdistinct _ hcreated)).2
    · rw [hnext]
      exact hbalanced
  | deposit account vaultAddress amount balance txHash now =>
    -- The condition is about calls that get through; the others change nothing.
    obtain ⟨deposit, hchecked, hnext⟩ | ⟨hno, hnext⟩ :=
      session.next_deposit env account vaultAddress amount balance txHash now
    · obtain ⟨vault, hvault, rfl, _, rfl⟩ := depositing_spec hchecked
      rw [hnext]
      refine (hbalanced.deposit_iff hvault).trans ⟨fun hfits deposit' vault' h₁ h₂ => ?_, fun h => ?_⟩
      · obtain rfl := Except.ok.inj (Option.some.inj (hchecked.symm.trans h₁))
        obtain rfl := Option.some.inj (hvault.symm.trans h₂)
        exact hfits
      · exact h deposit vault hchecked hvault
    · rw [hnext]
      exact iff_of_true hbalanced fun deposit _ hchecked => absurd hchecked (hno deposit)
  | withdraw account vaultAddress shares txHash now =>
    obtain ⟨amount, hchecked, hnext⟩ | ⟨hno, hnext⟩ :=
      session.next_withdraw env account vaultAddress shares txHash now
    · obtain ⟨vault, deposits, hvault, hdeposits, hle⟩ := withdrawing_spec hchecked
      rw [hnext]
      exact (hbalanced.withdraw_iff hvault hdeposits hle amount).trans
        ⟨fun hexact _ _ => hexact, fun hexact => hexact amount hchecked⟩
    · rw [hnext]
      exact iff_of_true hbalanced fun amount hchecked => absurd hchecked (hno amount)

/-- Every exact call is tracked. -/
theorem Tracked.next (h : session.Tracked) (hbalanced : session.manager.Balanced)
    {action : VaultAction} (hdistinct : session.Distinct action)
    (hexact : session.Exact env action) : (session.next env action).Tracked := by
  cases action with
  | create terms createdAt lastRebalance =>
    obtain ⟨vault, hcreated, hzero, hnext⟩ | hnext :=
      session.next_create env terms createdAt lastRebalance
    · rw [hnext]
      exact (h.create hbalanced hzero (hdistinct _ hcreated)).1
    · rw [hnext]
      exact h
  | deposit account vaultAddress amount balance txHash now =>
    obtain ⟨deposit, hchecked, hnext⟩ | ⟨_, hnext⟩ :=
      session.next_deposit env account vaultAddress amount balance txHash now
    · obtain ⟨vault, hvault, rfl, _, _⟩ := depositing_spec hchecked
      rw [hnext]
      exact h.record hvault now.val
    · rw [hnext]
      exact ⟨h.kept, h.hosted⟩
  | withdraw account vaultAddress shares txHash now =>
    obtain ⟨amount, hchecked, hnext⟩ | ⟨_, hnext⟩ :=
      session.next_withdraw env account vaultAddress shares txHash now
    · obtain ⟨vault, deposits, hvault, hdeposits, _⟩ := withdrawing_spec hchecked
      rw [hnext]
      exact h.retain hvault hdeposits (hexact amount hchecked) amount now.val
    · rw [hnext]
      exact ⟨h.kept, h.hosted⟩

/-- Along a run that creates vaults at distinct addresses the shares are accounted for exactly if
each withdrawal burns the shares of the deposits that it removes, and no deposit overflows. -/
theorem accounted_iff (env : Env) (actions : List VaultAction)
    (hdistinct : Always (next env) Distinct new actions) :
    Always (next env) (Accounted env) new actions ↔ Always (next env) (Exact env) new actions := by
  refine @always_iff_of _ _ _ _ _ (fun session => session.Tracked ∧ session.manager.Balanced) _ _ _
    hdistinct ⟨⟨fun _ _ => rfl, fun _ _ => rfl⟩, fun _ _ h => nomatch h⟩ ?_ ?_
  · intro session action ⟨h, hbalanced⟩ hdistinct hexact
    exact ⟨h.next hbalanced hdistinct hexact, (h.balanced_next_iff hbalanced hdistinct).mpr hexact⟩
  · intro session action ⟨h, hbalanced⟩ hdistinct
    constructor
    · intro haccounted
      exact (h.balanced_next_iff hbalanced hdistinct).mp haccounted.1
    · intro hexact
      refine ⟨(h.balanced_next_iff hbalanced hdistinct).mpr hexact, fun account vaultAddress => ?_⟩
      -- what is burned and what is still recorded are all that has been created
      have hkept := (h.next hbalanced hdistinct hexact).kept account vaultAddress
      exact Nat.le_trans (Nat.le_add_left ..) (Nat.le_of_eq hkept.symm)

/-! ### Samples -/

/-- A build without overflow checks. -/
def sampleEnv : Env where
  sha256 bytes := Vector.ofFn fun i => bytes.getD i 0
  overflowChecks := false

/-- A vault without a fee. -/
def sampleTerms (lockPeriod : U64) : VaultTerms where
  manager := Vector.replicate 20 9
  name := "v"
  description := ""
  strategyType := .mixed
  performanceFee := 0
  managementFee := 0
  minDeposit := 1
  lockPeriod

/-- A deposit of some amount into the vault. -/
def sampleDeposit (amount : U256) (now : Seconds) : VaultAction :=
  .deposit (Vector.replicate 20 1) (generateVaultAddress "v") amount (some (.ok 1000))
    (Vector.replicate 32 5) now

/-- A withdrawal of some shares. -/
def sampleWithdrawal (shares : U256) (now : Seconds) : VaultAction :=
  .withdraw (Vector.replicate 20 1) (generateVaultAddress "v") shares (Vector.replicate 32 6) now

/-- A deposit of a hundred, and withdrawals of some shares each. -/
def sampleRun (shares : List U256) : List VaultAction :=
  .create (sampleTerms 0) (.ofNat 0) (.ofNat 0) :: sampleDeposit 100 (.ofNat 0)
    :: shares.map fun shares => sampleWithdrawal shares (.ofNat 1)

theorem accounted_iff_whole :
    Always (next sampleEnv) (Accounted sampleEnv) new (sampleRun [100]) ↔
      Always (next sampleEnv) (Exact sampleEnv) new (sampleRun [100]) :=
  accounted_iff sampleEnv _ ⟨fun _ _ => rfl, trivial, trivial, trivial⟩

/-- Forty shares of a hundred are withdrawn three times: the deposit still has a hundred, and more
has been burned than there ever was. -/
theorem partialWithdrawals_unaccounted :
    Always (next sampleEnv) Distinct new (sampleRun [40, 40, 40]) ∧
      ¬ Always (next sampleEnv) (Accounted sampleEnv) new (sampleRun [40, 40, 40]) ∧
      ((sampleRun [40]).foldl (next sampleEnv) new).manager.recorded (generateVaultAddress "v")
        = 100 ∧
      (((sampleRun [40]).foldl (next sampleEnv) new).manager.vaults.lookup
        (generateVaultAddress "v")).map (·.totalShares) = some 60 ∧
      ((sampleRun [40, 40, 40]).foldl (next sampleEnv) new).burned (Vector.replicate 20 1)
        (generateVaultAddress "v") = 120 := by
  refine ⟨⟨fun _ _ => rfl, trivial, trivial, trivial, trivial, trivial⟩, fun h => ?_,
    by decide +kernel, by decide +kernel, by decide +kernel⟩
  have hle := h.2.2.2.2.1.2 (Vector.replicate 20 1) (generateVaultAddress "v")
  exact absurd hle (by decide +kernel)

end VaultSession

end InterBit.Hyperliquid
