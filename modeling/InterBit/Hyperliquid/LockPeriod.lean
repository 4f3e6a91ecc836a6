import InterBit.Hyperliquid.ShareAccounting

/-!
# The lock period of a vault

`withdraw` asks for enough shares among all deposits of the account in the vault, and for one
deposit that is not locked any more. So what it pays may be locked, and a deposit of which only a
part is withdrawn stays as it was. `unlocked_of_covered` says that nothing locked is paid as long as
each withdrawal burns no more shares than the deposits have that it removes and that are not locked.
-/

namespace InterBit.Hyperliquid.VaultSession

open InterBit.Lib VaultManager

variable {session : VaultSession} {env : Env}

/-- The deposit is not locked any more. -/
def isUnlocked (now : U64) (deposit : VaultDeposit) : Bool := deposit.unlockTime ≤ now

/-- A withdrawal that returns burns no more than the deposits of the account have created that are
not locked, less what it has burned before. -/
def Unlocked (session : VaultSession) : VaultAction → Prop
  | .withdraw account vaultAddress shares txHash now =>
    (∃ hash, (session.manager.withdraw account vaultAddress shares txHash now).2
        = some (.ok hash)) →
      shares.toNat + session.burned account vaultAddress
        ≤ sharesIn vaultAddress
          ((session.made.filter (·.depositor = account)).filter (isUnlocked now.val))
  | _ => True

/-- A withdrawal that gets through burns no more shares than the deposits have that it removes and
that are not locked. -/
def Covered (session : VaultSession) : VaultAction → Prop
  | .withdraw account vaultAddress shares _ now =>
    ∀ amount, session.manager.withdrawing account vaultAddress shares now = some (.ok amount) →
      shares.toNat ≤ sharesOf
        ((session.manager.removed account vaultAddress shares).filter (isUnlocked now.val))
  | _ => True

/-- The clock does not go back. -/
def Timely (session : VaultSession) : VaultAction → Prop
  | .create _ _ _ => True
  | .deposit _ _ _ _ _ now => session.clock ≤ now.val
  | .withdraw _ _ _ _ now => session.clock ≤ now.val

instance (session : VaultSession) : (action : VaultAction) → Decidable (session.Timely action)
  | .create _ _ _ => .isTrue trivial
  | .deposit _ _ _ _ _ now => inferInstanceAs (Decidable (session.clock ≤ now.val))
  | .withdraw _ _ _ _ now => inferInstanceAs (Decidable (session.clock ≤ now.val))

/-- From now on, the recorded deposits that are not locked and what has been burned are no more than
what has been made and is not locked. -/
def Matured (session : VaultSession) : Prop :=
  ∀ now, session.clock ≤ now → ∀ account vaultAddress,
    sharesIn vaultAddress ((session.manager.depositsOf account).filter (isUnlocked now))
        + session.burned account vaultAddress
      ≤ sharesIn vaultAddress
        ((session.made.filter (·.depositor = account)).filter (isUnlocked now))

theorem withdraw_ok_iff {account vaultAddress : Address} {shares : U256} {txHash : H256}
    {now : Seconds} :
    (∃ hash, (session.manager.withdraw account vaultAddress shares txHash now).2
        = some (.ok hash)) ↔
      ∃ amount, session.manager.withdrawing account vaultAddress shares now
        = some (.ok amount) := by
  unfold withdraw
  rcases session.manager.withdrawing account vaultAddress shares now with _ | error | amount
  · exact iff_of_false nofun nofun
  · exact iff_of_false nofun nofun
  · exact iff_of_true ⟨txHash, rfl⟩ ⟨amount, rfl⟩

/-- What is not locked will not be locked later. -/
theorem sharesOf_unlocked_le {now later : U64} (hlater : now ≤ later)
    (deposits : List VaultDeposit) :
    sharesOf (deposits.filter (isUnlocked now)) ≤ sharesOf (deposits.filter (isUnlocked later)) := by
  have hstill : deposits.filter (isUnlocked now)
      = (deposits.filter (isUnlocked later)).filter (isUnlocked now) := by
    rw [List.filter_filter]
    refine List.filter_congr fun deposit _ => ?_
    cases hnow : isUnlocked now deposit with
    | false => rfl
    | true =>
      exact (decide_eq_true (BitVec.le_trans (of_decide_eq_true hnow) hlater)).symm
  have hparts := sharesOf_filter_add (isUnlocked now) (deposits.filter (isUnlocked later))
  rw [← hstill] at hparts
  omega

/-- A withdrawal that is covered keeps what matures. -/
theorem Matured.retain (h : session.Matured) {account vaultAddress : Address} {shares : U256}
    {now : Seconds} {deposits : List VaultDeposit} (hnow : session.clock ≤ now.val)
    (hdeposits : session.manager.userDeposits.lookup account = some deposits)
    (hcovered : shares.toNat ≤ sharesOf
      ((session.manager.removed account vaultAddress shares).filter (isUnlocked now.val)))
    (amount : U256) :
    ({ session with
        manager := (session.manager.debitVault vaultAddress amount shares).retainDeposits account
          vaultAddress shares
        burned := session.burn account vaultAddress shares
        clock := now.val } : VaultSession).Matured := by
  intro later (hlater : now.val ≤ later) account' vaultAddress'
  have hmatured := h later (BitVec.le_trans hnow hlater) account' vaultAddress'
  have hretain := selected_retain (isUnlocked later) hdeposits vaultAddress shares amount account'
    vaultAddress'
  have hgone := sharesOf_unlocked_le hlater (session.manager.removed account vaultAddress shares)
  have hburned : session.burn account vaultAddress shares account' vaultAddress'
      = session.burned account' vaultAddress'
        + if account' = account ∧ vaultAddress' = vaultAddress then shares.toNat else 0 := rfl
  dsimp only
  rw [hburned]
  split
  next hsame =>
    rw [if_pos hsame] at hretain
    omega
  next hother =>
    rw [if_neg hother] at hretain
    omega

theorem Matured.next (h : session.Matured) {action : VaultAction} (htimely : session.Timely action)
    (hcovered : session.Covered action) : (session.next env action).Matured := by
  cases action with
  | create terms createdAt lastRebalance =>
    obtain ⟨vault, _, _, hnext⟩ | hnext := session.next_create env terms createdAt lastRebalance
    · rw [hnext]
      exact h
    · rw [hnext]
      exact h
  | deposit account vaultAddress amount balance txHash now =>
    obtain ⟨deposit, _, hnext⟩ | ⟨_, hnext⟩ :=
      session.next_deposit env account vaultAddress amount balance txHash now
    · rw [hnext]
      intro later hlater account' vaultAddress'
      have hmatured := h later (BitVec.le_trans htimely hlater) account' vaultAddress'
      have hrecord := session.selected_record (isUnlocked later) deposit account' vaultAddress'
      dsimp only
      omega
    · rw [hnext]
      exact fun later hlater => h later (BitVec.le_trans htimely hlater)
  | withdraw account vaultAddress shares txHash now =>
    obtain ⟨amount, hchecked, hnext⟩ | ⟨_, hnext⟩ :=
      session.next_withdraw env account vaultAddress shares txHash now
    · obtain ⟨_, deposits, _, hdeposits, _⟩ := withdrawing_spec hchecked
      rw [hnext]
      exact h.retain htimely hdeposits (hcovered amount hchecked) amount
    · rw [hnext]
      exact fun later hlater => h later (BitVec.le_trans htimely hlater)

theorem matured_new : new.Matured := fun _ _ _ _ => Nat.le_refl _

/-- What a covered withdrawal burns is recorded and not locked. -/
theorem Matured.unlocked (h : session.Matured) {action : VaultAction}
    (htimely : session.Timely action) (hcovered : session.Covered action) :
    session.Unlocked action := by
  cases action with
  | create | deposit => trivial
  | withdraw account vaultAddress shares txHash now =>
    intro hok
    obtain ⟨amount, hchecked⟩ := withdraw_ok_iff.mp hok
    obtain ⟨_, deposits, _, hdeposits, _⟩ := withdrawing_spec hchecked
    have hmatured := h now.val htimely account vaultAddress
    have hretain := selected_retain (isUnlocked now.val) hdeposits vaultAddress shares amount account
      vaultAddress
    rw [if_pos ⟨rfl, rfl⟩] at hretain
    have hburns := hcovered amount hchecked
    omega

/-- Along a run with covered withdrawals nothing locked is withdrawn. -/
theorem unlocked_of_covered (env : Env) (actions : List VaultAction)
    (htimely : Always (next env) Timely new actions)
    (hcovered : Always (next env) Covered new actions) :
    Always (next env) Unlocked new actions := by
  have hboth := hcovered.and htimely
  refine hboth.mono matured_new ?_ ?_
  · intro session action h ⟨hcovered, htimely⟩
    exact h.next htimely hcovered
  · intro session action h ⟨hcovered, htimely⟩
    exact h.unlocked htimely hcovered

/-! ### Samples -/

/-- A deposit of a hundred that is locked for ten seconds, another one, and a withdrawal. -/
def lockedRun (shares : U256) : List VaultAction :=
  [.create (sampleTerms 10) (.ofNat 0) (.ofNat 0), sampleDeposit 100 (.ofNat 0),
    sampleDeposit 150 (.ofNat 10), sampleWithdrawal shares (.ofNat 11)]

theorem unlocked_of_covered_first :
    Always (next sampleEnv) Unlocked new (lockedRun 100) := by
  refine unlocked_of_covered sampleEnv (lockedRun 100) (by decide +kernel)
    ⟨trivial, trivial, trivial, fun amount _ => ?_, trivial⟩
  decide +kernel

/-- The second deposit is still locked when it is withdrawn together with the first one. -/
theorem lockedDeposit_withdrawn :
    Always (next sampleEnv) Timely new (lockedRun 250) ∧
      ¬ Always (next sampleEnv) Unlocked new (lockedRun 250) := by
  refine ⟨by decide +kernel, fun h => ?_⟩
  have hle := h.2.2.2.1 ⟨Vector.replicate 32 6, by decide +kernel⟩
  exact absurd hle (by decide +kernel)

end InterBit.Hyperliquid.VaultSession
