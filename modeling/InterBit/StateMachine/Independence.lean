import InterBit.StateMachine.Footprint

/-!
# Transactions that can change places

Two transactions are independent if neither touches the other's sender and they
have a target in common only if both pay to it. `executeAlone_swap` says that they
can change places: payments to one account add up the same either way, as long as
no order panics.

What a payment gives depends on its recipient's account only through its code and
through the overflow of its balance. So errors carry over to another balance
(`executeAlone_err_of_payment`), and so does success, if the balance has room
(`executeAlone_ok_of_payment`).
-/

namespace InterBit.StateMachine

open InterBit.Lib

/-- Neither touches the other's sender, and a common target is a common recipient. -/
def Transaction.Independent (env : Env) (s t : Transaction) : Prop :=
  s.sender ≠ t.sender ∧ s.sender ≠ t.target env ∧ t.sender ≠ s.target env ∧
    (s.target env = t.target env → s.recipient ≠ none ∧ t.recipient ≠ none)

instance (env : Env) (s t : Transaction) : Decidable (s.Independent env t) :=
  inferInstanceAs (Decidable (_ ∧ _ ∧ _ ∧ (_ → _)))

theorem Transaction.Independent.symm {env : Env} {s t : Transaction} (h : s.Independent env t) :
    t.Independent env s :=
  ⟨h.1.symm, h.2.2.1, h.2.1, fun he => (h.2.2.2 he.symm).symm⟩

/-! ## Errors that do not depend on a balance -/

/-- An error of the program at the first accounts is one at the second. -/
def ErrsAlike {α : Type} (accounts accounts' : Accounts) (p : Exec α) : Prop :=
  ∀ e, (p.run accounts).1 = .err e → (p.run accounts').1 = .err e

/-- The program gives no error at all. -/
def NeverErrs {α : Type} (p : Exec α) : Prop := ∀ (m : Accounts) e, (p.run m).1 ≠ .err e

section Errors

variable {α β : Type} {accounts accounts' : Accounts} {p : Exec α} {f : α → Exec β}

variable {e : StateMachineError}

/-- An error is in the first part, or the first part returns. -/
theorem run_bind_err {m : Accounts} (h : ((p >>= f).run m).1 = .err e) :
    (p.run m).1 = .err e ∨ ∃ a m₁, p.run m = (.ok a, m₁) ∧ ((f a).run m₁).1 = .err e := by
  rw [Prog.run_bind] at h
  match hp : p.run m with
  | (.ok a, m₁) =>
    rw [hp] at h
    exact Or.inr ⟨a, m₁, rfl, h⟩
  | (.err e', m₁) =>
    rw [hp] at h
    cases h
    exact Or.inl rfl
  | (.panicked, m₁) =>
    rw [hp] at h
    cases h

theorem run_bind_of_err {m : Accounts} (h : (p.run m).1 = .err e) :
    ((p >>= f).run m).1 = .err e := by
  rw [Prog.run_bind]
  match hp : p.run m with
  | (.ok a, m₁) =>
    rw [hp] at h
    cases h
  | (.err e', m₁) =>
    rw [hp] at h
    cases h
    rfl
  | (.panicked, m₁) =>
    rw [hp] at h
    cases h

/-- The first part reads nothing that differs. -/
theorem ErrsAlike.bind (hread : p.ReadOnly) (hsame : (p.run accounts').1 = (p.run accounts).1)
    (hf : ∀ a, ErrsAlike accounts accounts' (f a)) : ErrsAlike accounts accounts' (p >>= f) := by
  intro e h
  cases run_bind_err h with
  | inl herr => exact run_bind_of_err (hsame.trans herr)
  | inr hok =>
    obtain ⟨a, m₁, hrun, hrest⟩ := hok
    have hm₁ := hread.run accounts
    rw [hrun] at hm₁ hsame
    obtain rfl : m₁ = accounts := hm₁
    have hrun' : p.run accounts' = (.ok a, accounts') := Prod.ext hsame (hread.run accounts')
    rw [Prog.run_bind, hrun']
    exact hf a e hrest

/-- The second part gives no errors. -/
theorem ErrsAlike.bind_neverErrs (hp : ErrsAlike accounts accounts' p) (hf : ∀ a, NeverErrs (f a)) :
    ErrsAlike accounts accounts' (p >>= f) := by
  intro e h
  cases run_bind_err h with
  | inl herr => exact run_bind_of_err (hp e herr)
  | inr hok =>
    obtain ⟨a, m₁, -, hrest⟩ := hok
    exact absurd hrest (hf a m₁ e)

theorem NeverErrs.alike (hp : NeverErrs p) : ErrsAlike accounts accounts' p :=
  fun e h => absurd h (hp accounts e)

theorem NeverErrs.bind (hp : NeverErrs p) (hf : ∀ a, NeverErrs (f a)) : NeverErrs (p >>= f) := by
  intro m e h
  cases run_bind_err h with
  | inl herr => exact hp m e herr
  | inr hok =>
    obtain ⟨a, m₁, -, hrest⟩ := hok
    exact hf a m₁ e hrest

theorem neverErrs_pure (a : α) : NeverErrs (pure a : Exec α) := fun _ _ h => nomatch h

/-- A panic is no error. -/
theorem neverErrs_orPanic (o : Option α) : NeverErrs (Prog.orPanic o : Exec α) := by
  cases o <;> exact fun _ _ h => nomatch h

theorem ErrsAlike.require_bind {c : Prop} [Decidable c] {f : Unit → Exec β}
    (hf : ErrsAlike accounts accounts' (f ())) :
    ErrsAlike accounts accounts' (Prog.require c e >>= f) := by
  refine .bind (Prog.readOnly_require c e) ?_ fun _ => hf
  unfold Prog.require
  split <;> rfl

theorem ErrsAlike.orFail_bind {o : Option α} (hf : ∀ a, ErrsAlike accounts accounts' (f a)) :
    ErrsAlike accounts accounts' (Prog.orFail e o >>= f) := by
  refine .bind (Prog.readOnly_orFail e o) ?_ hf
  cases o <;> rfl

theorem ErrsAlike.orPanic_bind {o : Option α} (hf : ∀ a, ErrsAlike accounts accounts' (f a)) :
    ErrsAlike accounts accounts' (Prog.orPanic o >>= f) := by
  refine .bind (Prog.readOnly_orPanic o) ?_ hf
  cases o <;> rfl

end Errors

section Payment

variable {env : Env} {tx : Transaction} {accounts accounts' : Accounts} {address : Address}

theorem creditAccount_neverErrs (value : U128) : NeverErrs (creditAccount address value) :=
  fun m e => (neverErrs_orPanic _).bind (fun _ => neverErrs_pure _) m e

/-- The refund may panic, but never fails. -/
theorem refundGas_neverErrs (gasUsed : U64) (stateChanges : StateChanges) :
    NeverErrs (refundGas tx gasUsed stateChanges) := by
  unfold refundGas
  dsimp only
  split
  next => exact (neverErrs_orPanic _).bind fun _ => (neverErrs_orPanic _).bind fun _ =>
    neverErrs_pure _
  next => exact neverErrs_pure _

/-- The recipient is asked for its code before its balance can matter. -/
theorem processRecipient_errsAlike {fromAccount : Account} {stateChanges : StateChanges}
    (hr : tx.recipient = some address)
    (hcode : hasCode (accounts' address) = hasCode (accounts address)) :
    ErrsAlike accounts accounts' (processRecipient env tx fromAccount stateChanges) := by
  unfold processRecipient
  rw [hr]
  dsimp only
  refine .bind (fun _ => trivial) (congrArg Outcome.ok hcode) fun code => ?_
  split
  next =>
    refine .orPanic_bind fun _ => .require_bind ?_
    exact ((creditAccount_neverErrs _).bind fun _ => neverErrs_pure _).alike
  next => exact ((creditAccount_neverErrs _).bind fun _ => neverErrs_pure _).alike

theorem prepareTransaction_errsAlike (hr : tx.recipient = some address)
    (hsender : accounts' tx.sender = accounts tx.sender)
    (hcode : hasCode (accounts' address) = hasCode (accounts address)) :
    ErrsAlike accounts accounts' (prepareTransaction env tx) := by
  have hagree : AgreeOn (· = tx.sender) accounts accounts' := fun k hk => by
    rw [show k = tx.sender from hk, hsender]
  have hconfined : (validateTransaction tx).Confined (· = tx.sender) (fun _ => False) accounts :=
    validateTransaction_confined rfl
  have hvalid := hconfined.run_congr hagree
  refine .bind (validateTransaction_readOnly tx) hvalid.1 fun _ => ?_
  refine .bind (fun _ => trivial) (congrArg Outcome.ok hsender) fun account => ?_
  exact .orFail_bind fun _ => .require_bind <| .orPanic_bind fun _ =>
    (processRecipient_errsAlike hr hcode).bind_neverErrs fun _ =>
      (refundGas_neverErrs _ _).bind fun _ => neverErrs_pure _

theorem executeAlone_fst (env : Env) (tx : Transaction) (accounts : Accounts) :
    (executeAlone env tx accounts).1 = match ((prepareTransaction env tx).run accounts).1 with
      | .ok (_, receipt) => .ok receipt
      | .err e => .err e
      | .panicked => .panicked := by
  unfold executeAlone
  match (prepareTransaction env tx).run accounts with
  | (.ok (stateChanges, receipt), m) => rfl
  | (.err e, m) => rfl
  | (.panicked, m) => rfl

/-- A payment that fails does so whatever its recipient's balance. -/
theorem executeAlone_err_of_payment (hr : tx.recipient = some address)
    (hsender : accounts' tx.sender = accounts tx.sender)
    (hcode : hasCode (accounts' address) = hasCode (accounts address)) {e : StateMachineError}
    (h : (executeAlone env tx accounts).1 = .err e) :
    (executeAlone env tx accounts').1 = .err e := by
  rw [executeAlone_fst] at h ⊢
  have hp : ((prepareTransaction env tx).run accounts).1 = .err e := by
    match hp : ((prepareTransaction env tx).run accounts).1 with
    | .ok (_, receipt) =>
      rw [hp] at h
      cases h
    | .err e' =>
      rw [hp] at h
      cases h
      rfl
    | .panicked =>
      rw [hp] at h
      cases h
  rw [prepareTransaction_errsAlike hr hsender hcode e hp]

/-! ## Success is a settlement -/

/-- A credit that fits. -/
theorem creditAccount_bind {α : Type} {value : U128} {balance : U256}
    (h : addU256 ((accounts address).getD default).balance (value.setWidth 256) = some balance)
    (f : Account → Exec α) :
    (creditAccount address value >>= f).run accounts
      = (f { (accounts address).getD default with balance }).run accounts := by
  unfold creditAccount
  rw [Prog.bind_assoc, getAccount_bind, Prog.run, Prog.bind_assoc, Prog.orPanic_bind_of h,
    Prog.pure_eq, Prog.bind_ret]

variable {logs : List String}

/-- The part about the recipient, when its account has been credited. -/
theorem Credited.run {fromAccount credited : Account} {target : Address} {gasUsed : U64}
    (h : Credited env accounts tx fromAccount.nonce target credited gasUsed logs)
    (stateChanges : StateChanges) :
    (processRecipient env tx fromAccount stateChanges).run accounts
      = (.ok { stateChanges := stateChanges.insert target credited, gasUsed, logs }, accounts) := by
  unfold processRecipient
  cases h with
  | call hto hcode hestimate hgas hle hbalance =>
    have hgas : (do env.add64 21000 (← estimateContractGas env tx.data)) = some gasUsed :=
      Option.bind_eq_some_iff.mpr ⟨_, hestimate, hgas⟩
    have hlimit : ¬ gasUsed > tx.gasLimit := Nat.not_lt.mpr hle
    rw [hto]
    dsimp only
    rw [isContract_bind, Prog.run, if_pos hcode, Prog.orPanic_bind_of hgas,
      Prog.require_bind_of hlimit, creditAccount_bind hbalance]
    rfl
  | transfer hto hcode hbalance =>
    rw [hto]
    dsimp only
    rw [isContract_bind, Prog.run, if_neg (by rw [hcode]; exact Bool.false_ne_true),
      creditAccount_bind hbalance]
    rfl
  | create hto hestimate hdoubled hgas hle =>
    have hgas : (do env.add64 21000 (← env.mul64 (← estimateContractGas env tx.data) 2))
        = some gasUsed :=
      Option.bind_eq_some_iff.mpr ⟨_, hestimate, Option.bind_eq_some_iff.mpr ⟨_, hdoubled, hgas⟩⟩
    have hlimit : ¬ gasUsed > tx.gasLimit := Nat.not_lt.mpr hle
    rw [hto]
    dsimp only
    rw [Prog.orPanic_bind_of hgas, Prog.require_bind_of hlimit]
    rfl

/-- The same payment, with another balance at its recipient. -/
theorem Credited.of_payment {nonce gasUsed : U64} {target : Address} {credited : Account}
    {balance : U256}
    (h : Credited env accounts tx nonce target credited gasUsed logs)
    (hr : tx.recipient = some address)
    (hcode : hasCode (accounts' address) = hasCode (accounts address))
    (hbalance : addU256 ((accounts' address).getD default).balance (tx.value.setWidth 256)
      = some balance) :
    Credited env accounts' tx nonce address { (accounts' address).getD default with balance }
      gasUsed logs := by
  cases h with
  | call hto hcode' hestimate hgas hle _ =>
    obtain rfl := Option.some.inj (hr.symm.trans hto)
    exact .call hr (hcode.trans hcode') hestimate hgas hle hbalance
  | transfer hto hcode' _ =>
    obtain rfl := Option.some.inj (hr.symm.trans hto)
    exact .transfer hr (hcode.trans hcode') hbalance
  | create hto _ _ _ _ =>
    rw [hr] at hto
    cases hto

/-- What a payment writes at its recipient. -/
theorem Credited.eq_of_recipient {nonce gasUsed : U64} {target : Address} {credited : Account}
    (h : Credited env accounts tx nonce target credited gasUsed logs)
    (hr : tx.recipient = some address) :
    target = address ∧ credited = { (accounts address).getD default with
      balance := ((accounts address).getD default).balance + tx.value.setWidth 256 } := by
  have hsum : ∀ {a b c : U256}, addU256 a b = some c → c = a + b := fun h => by
    refine BitVec.eq_of_toNat_eq ?_
    rw [addU256_eq_some h, BitVec.toNat_add, Nat.mod_eq_of_lt (addU256_eq_some h ▸ BitVec.isLt _)]
  cases h with
  | call hto _ _ _ _ hb =>
    obtain rfl := Option.some.inj (hr.symm.trans hto)
    rw [hsum hb]
    exact ⟨rfl, rfl⟩
  | transfer hto _ hb =>
    obtain rfl := Option.some.inj (hr.symm.trans hto)
    rw [hsum hb]
    exact ⟨rfl, rfl⟩
  | create hto _ _ _ _ =>
    rw [hr] at hto
    cases hto

variable (accounts) in
/-- A refund that fits goes to the sender. -/
theorem refundGas_run {gasUsed : U64} {stateChanges : StateChanges} {base : Account}
    (hbase : stateChanges.lookup tx.sender = some base)
    (hroom : base.balance.toNat + (tx.gasLimit - gasUsed).toNat * tx.gasPrice.toNat < 2 ^ 256) :
    ∃ changes, (refundGas tx gasUsed stateChanges).run accounts = (.ok changes, accounts) := by
  unfold refundGas
  dsimp only
  split
  next =>
    have hsum : addU256 base.balance
        ((tx.gasLimit - gasUsed).setWidth 256 * tx.gasPrice.setWidth 256)
        = some (base.balance + (tx.gasLimit - gasUsed).setWidth 256 * tx.gasPrice.setWidth 256) := by
      unfold addU256
      rw [Transaction.gas_mul_toNat, if_pos hroom]
    rw [Prog.orPanic_bind_of hbase, Prog.orPanic_bind_of hsum]
    exact ⟨_, rfl⟩
  next => exact ⟨_, rfl⟩

namespace Settlement

theorem not_insufficient (s : Settlement env accounts tx) : ¬ s.account.balance < tx.totalCost :=
  Nat.not_lt.mpr s.covered

/-- A settled transaction is valid. -/
theorem validate (s : Settlement env accounts tx) :
    (validateTransaction tx).run accounts = (.ok (), accounts) := by
  have hgas : ¬ tx.gasLimit < 21000 := Nat.not_lt.mpr s.gasLimit_ge
  unfold validateTransaction
  rw [Prog.require_bind_of s.signed, getAccount_bind, Prog.run, Prog.orFail_bind_of s.found,
    Prog.require_bind_of s.nonce_eq, Prog.require_bind_of s.not_insufficient, Prog.require, if_pos hgas]
  rfl

/-- A settlement is the run of a success. -/
theorem prepare (s : Settlement env accounts tx) :
    ∃ changes, (prepareTransaction env tx).run accounts = (.ok (changes, s.receipt), accounts) ∧
      ∀ address, changes.lookup address = s.changes address := by
  -- the sender's entry before the refund, which may have been overwritten by the target's
  have hbase : ((AList.insert tx.sender { s.account with
      balance := s.account.balance - tx.totalCost, nonce := s.nonce } ∅ : StateChanges).insert
        s.target s.credited).lookup tx.sender = some s.senderBase := by
    unfold senderBase
    split
    next he =>
      rw [← he]
      exact AList.lookup_insert _
    next hne => rw [AList.lookup_insert_ne (Ne.symm hne), AList.lookup_insert]
  have hbalance : s.balance.toNat = s.senderBase.balance.toNat
      + (tx.gasLimit - s.gasUsed).toNat * tx.gasPrice.toNat := by
    rw [s.refund]
    unfold senderBase
    split <;> rfl
  obtain ⟨changes, hchanges⟩ := refundGas_run accounts hbase
    (hbalance ▸ s.balance.isLt)
  obtain ⟨balance, hrefund, hlookup⟩ := refundGas_ok hbase hchanges
  -- two balances with the same value are the same
  obtain rfl : balance = s.balance := BitVec.eq_of_toNat_eq (hrefund.trans hbalance.symm)
  refine ⟨changes, ?_, fun address => ?_⟩
  · unfold prepareTransaction
    rw [Prog.run_bind, s.validate, getAccount_bind]
    dsimp only
    rw [Prog.run, Prog.orFail_bind_of s.found, Prog.require_bind_of s.not_insufficient,
      Prog.orPanic_bind_of s.next_nonce, Prog.run_bind, s.credit.run]
    dsimp only
    rw [Prog.run_bind, hchanges]
    rfl
  · rw [hlookup]
    unfold Settlement.changes
    by_cases hs : address = tx.sender
    · rw [if_pos hs, if_pos hs]
    · rw [if_neg hs, if_neg hs]
      by_cases ht : address = s.target
      · rw [if_pos ht, ht, AList.lookup_insert]
      · rw [if_neg ht, AList.lookup_insert_ne ht, AList.lookup_insert_ne hs, AList.lookup_empty]

theorem executeAlone_eq (s : Settlement env accounts tx) :
    executeAlone env tx accounts = (.ok s.receipt, s.final) := by
  obtain ⟨changes, hrun, hlookup⟩ := s.prepare
  unfold executeAlone
  rw [hrun]
  dsimp only
  refine congrArg (Prod.mk _) (funext fun address => ?_)
  unfold StateChanges.over
  rw [hlookup, s.changes_or]

variable (accounts') in
/-- A payment to another account, when only the recipient's balance has changed. -/
theorem of_payment (s : Settlement env accounts tx) (hr : tx.recipient = some address)
    (hne : address ≠ tx.sender) (hsender : accounts' tx.sender = accounts tx.sender)
    (hcode : hasCode (accounts' address) = hasCode (accounts address))
    (hroom : balanceOf accounts' address + tx.value.toNat < 2 ^ 256) :
    ∃ s' : Settlement env accounts' tx, s'.receipt = s.receipt ∧
      s'.final tx.sender = s.final tx.sender := by
  have hbalance : addU256 ((accounts' address).getD default).balance (tx.value.setWidth 256)
      = some (((accounts' address).getD default).balance + tx.value.setWidth 256) := by
    unfold addU256
    rw [Transaction.value_toNat]
    exact if_pos hroom
  have ht : s.target ≠ tx.sender := fun he => hne ((s.credit.of_recipient hr).1.symm.trans he)
  have hrefund := s.refund
  rw [if_neg ht] at hrefund
  refine ⟨{
    account := s.account, nonce := s.nonce, target := address, credited := _, gasUsed := s.gasUsed
    logs := s.logs, balance := s.balance
    found := hsender.trans s.found, signed := s.signed, nonce_eq := s.nonce_eq
    covered := s.covered, gasLimit_ge := s.gasLimit_ge, next_nonce := s.next_nonce
    credit := s.credit.of_payment hr hcode hbalance
    refund := by rw [if_neg hne]; exact hrefund }, rfl, ?_⟩
  rw [final_sender, final_sender, senderBase, senderBase, if_neg ht, if_neg hne]

/-- What a payment to another account leaves there. -/
theorem final_recipient (s : Settlement env accounts tx) (hr : tx.recipient = some address)
    (hne : address ≠ tx.sender) :
    s.final address = some { (accounts address).getD default with
      balance := ((accounts address).getD default).balance + tx.value.setWidth 256 } := by
  obtain ⟨ht, hcredited⟩ := s.credit.eq_of_recipient hr
  rw [← hcredited, ← ht]
  exact s.final_target (ht ▸ hne)

/-- A payment to another account leaves its code. -/
theorem hasCode_final_recipient (s : Settlement env accounts tx) (hr : tx.recipient = some address)
    (hne : address ≠ tx.sender) : hasCode (s.final address) = hasCode (accounts address) := by
  rw [s.final_recipient hr hne]
  cases accounts address <;> rfl

/-- A payment to another account fits into its balance. -/
theorem room (s : Settlement env accounts tx) (hr : tx.recipient = some address) :
    balanceOf accounts address + tx.value.toNat < 2 ^ 256 := by
  rw [← (s.credit.of_recipient hr).2.1]
  exact s.credited.balance.isLt

/-- And is added to it. -/
theorem balanceOf_final_recipient (s : Settlement env accounts tx)
    (hr : tx.recipient = some address) (hne : address ≠ tx.sender) :
    balanceOf s.final address = balanceOf accounts address + tx.value.toNat := by
  obtain ⟨ht, hbalance, -, -⟩ := s.credit.of_recipient hr
  rw [← hbalance, ← ht, balanceOf, s.final_target (ht ▸ hne), Option.getD_some]

end Settlement

end Payment

/-! ## Changing places -/

theorem Transaction.Independent.apart {env : Env} {s t : Transaction} (h : s.Independent env t)
    (ht : s.target env ≠ t.target env) : Apart (Transaction.Touches env) s t :=
  Transaction.apart_iff.mpr ⟨h.1, h.2.1, h.2.2.1.symm, ht⟩

section Payments

variable {env : Env} {s t : Transaction} {address : Address} {accounts : Accounts}

/-- A payment that fails does so before or after another payment to its recipient. -/
theorem executeAlone_err_iff (hs : s.recipient = some address) (ht : t.recipient = some address)
    (hsenders : s.sender ≠ t.sender) (hns : address ≠ s.sender) (hnt : address ≠ t.sender)
    (u : Settlement env accounts t) (e : StateMachineError) :
    (executeAlone env s u.final).1 = .err e ↔ (executeAlone env s accounts).1 = .err e := by
  have htarget : u.target = address := (u.credit.of_recipient ht).1
  have hsender : u.final s.sender = accounts s.sender :=
    u.final_of_ne hsenders fun he => hns (htarget.symm.trans he.symm)
  have hcode := u.hasCode_final_recipient ht hnt
  exact ⟨executeAlone_err_of_payment hs hsender.symm hcode.symm,
    executeAlone_err_of_payment hs hsender hcode⟩

/-- Two payments to one account that succeed add up. -/
theorem executeAlone_swap_ok (hs : s.recipient = some address) (ht : t.recipient = some address)
    (hsenders : s.sender ≠ t.sender) (hns : address ≠ s.sender) (hnt : address ≠ t.sender)
    (u : Settlement env accounts s) (v : Settlement env u.final t) :
    ∃ (v' : Settlement env accounts t) (u' : Settlement env v'.final s),
      v'.receipt = v.receipt ∧ u'.receipt = u.receipt ∧ u'.final = v.final := by
  have hut : u.target = address := (u.credit.of_recipient hs).1
  have hvt : v.target = address := (v.credit.of_recipient ht).1
  have hroom := v.room ht
  rw [u.balanceOf_final_recipient hs hns] at hroom
  have htsender : accounts t.sender = u.final t.sender :=
    (u.final_of_ne hsenders.symm fun he => hnt (hut.symm.trans he.symm)).symm
  obtain ⟨v', hv'receipt, hv'sender⟩ := v.of_payment accounts ht hnt htsender
    (u.hasCode_final_recipient hs hns).symm (by omega)
  have hv't : v'.target = address := (v'.credit.of_recipient ht).1
  have hssender : v'.final s.sender = accounts s.sender :=
    v'.final_of_ne hsenders fun he => hns (hv't.symm.trans he.symm)
  obtain ⟨u', hu'receipt, hu'sender⟩ := u.of_payment v'.final hs hns hssender
    (v'.hasCode_final_recipient ht hnt) (by rw [v'.balanceOf_final_recipient ht hnt]; omega)
  have hu't : u'.target = address := (u'.credit.of_recipient hs).1
  refine ⟨v', u', hv'receipt, hu'receipt, funext fun k => ?_⟩
  by_cases hks : k = s.sender
  · rw [hks, hu'sender, v.final_of_ne hsenders fun he => hns (hvt.symm.trans he.symm)]
  · by_cases hkt : k = t.sender
    · rw [hkt, u'.final_of_ne hsenders.symm fun he => hnt (hu't.symm.trans he.symm), hv'sender]
    · by_cases hka : k = address
      · rw [hka, u'.final_recipient hs hns, v.final_recipient ht hnt, v'.final_recipient ht hnt,
          u.final_recipient hs hns]
        simp only [Option.getD_some]
        rw [BitVec.add_assoc, BitVec.add_comm (t.value.setWidth 256), ← BitVec.add_assoc]
      · rw [u'.final_of_ne hks (hu't ▸ hka), v'.final_of_ne hkt (hv't ▸ hka),
          v.final_of_ne hkt (hvt ▸ hka), u.final_of_ne hks (hut ▸ hka)]

/-- Two payments to one account. -/
theorem executeAlone_swap_payments (hs : s.recipient = some address)
    (ht : t.recipient = some address) (hsenders : s.sender ≠ t.sender) (hns : address ≠ s.sender)
    (hnt : address ≠ t.sender)
    (hpanic : .panicked ∉ (serially (executeAlone env) [s, t] accounts).1) :
    (serially (executeAlone env) [t, s] accounts).1.Perm
        (serially (executeAlone env) [s, t] accounts).1 ∧
      (serially (executeAlone env) [t, s] accounts).2
        = (serially (executeAlone env) [s, t] accounts).2 := by
  -- whether one payment fails does not depend on the other one
  have herr := fun m (u : Settlement env m t) =>
    executeAlone_err_iff hs ht hsenders hns hnt u
  have herr' := fun m (u : Settlement env m s) =>
    executeAlone_err_iff ht hs hsenders.symm hnt hns u
  match hso : (executeAlone env s accounts).1 with
  | .panicked => exact absurd (hso ▸ List.mem_cons_self ..) hpanic
  | .err e =>
    have hs₁ := executeAlone_err hso
    match hto : (executeAlone env t accounts).1 with
    | .panicked =>
      rw [serially_pair hs₁ (Prod.ext hto rfl)] at hpanic
      exact absurd (List.mem_cons_of_mem _ (List.mem_cons_self ..)) hpanic
    | .err e' =>
      have ht₁ := executeAlone_err hto
      rw [serially_pair hs₁ ht₁, serially_pair ht₁ hs₁]
      exact ⟨.swap _ _ _, rfl⟩
    | .ok receipt =>
      obtain ⟨v, hv⟩ := executeAlone_ok hto
      have hs₂ := executeAlone_err ((herr _ v e).mpr hso)
      rw [serially_pair hs₁ hv, serially_pair hv hs₂]
      exact ⟨.swap _ _ _, rfl⟩
  | .ok receipt =>
    obtain ⟨u, hu⟩ := executeAlone_ok hso
    match hto : (executeAlone env t u.final).1 with
    | .panicked =>
      rw [serially_pair hu (Prod.ext hto rfl)] at hpanic
      exact absurd (List.mem_cons_of_mem _ (List.mem_cons_self ..)) hpanic
    | .err e =>
      have ht₁ := executeAlone_err ((herr' _ u e).mp hto)
      rw [serially_pair hu (executeAlone_err hto), serially_pair ht₁ hu]
      exact ⟨.swap _ _ _, rfl⟩
    | .ok receipt' =>
      obtain ⟨v, hv⟩ := executeAlone_ok hto
      -- both succeed, and their settlements commute
      obtain ⟨v', u', hv', hu', hfinal⟩ := executeAlone_swap_ok hs ht hsenders hns hnt u v
      rw [serially_pair hu hv, serially_pair v'.executeAlone_eq u'.executeAlone_eq, hv', hu',
        hfinal]
      exact ⟨.swap _ _ _, rfl⟩

end Payments

/-- Independent transactions can change places. -/
theorem executeAlone_swap {env : Env} (s t : Transaction) (accounts : Accounts)
    (h : s.Independent env t)
    (hpanic : .panicked ∉ (serially (executeAlone env) [s, t] accounts).1) :
    (serially (executeAlone env) [t, s] accounts).1.Perm
        (serially (executeAlone env) [s, t] accounts).1 ∧
      (serially (executeAlone env) [t, s] accounts).2
        = (serially (executeAlone env) [s, t] accounts).2 := by
  by_cases hne : s.target env = t.target env
  · obtain ⟨hsenders, hs, ht, hrecipients⟩ := h
    obtain ⟨hrs, hrt⟩ := hrecipients hne
    obtain ⟨address, hrs⟩ := Option.ne_none_iff_exists'.mp hrs
    obtain ⟨address', hrt⟩ := Option.ne_none_iff_exists'.mp hrt
    have hs' : s.target env = address := by rw [Transaction.target, hrs, Option.getD_some]
    have ht' : t.target env = address' := by rw [Transaction.target, hrt, Option.getD_some]
    obtain rfl : address' = address := ht'.symm.trans (hne.symm.trans hs')
    exact executeAlone_swap_payments hrs hrt hsenders (fun he => hs (he.symm.trans ht'.symm))
      (fun he => ht (he.symm.trans hs'.symm)) hpanic
  · exact (executeSingleTransaction_footprints env).serially_swap (h.apart hne) accounts

end InterBit.StateMachine
