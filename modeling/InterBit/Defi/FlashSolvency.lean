import InterBit.Defi.FlashLoan
import InterBit.Lib.Assoc
import InterBit.Lib.Trace

/-!
# What a pool has and what it should have

`add_liquidity`, `remove_liquidity` and the sections of `execute_loan` in any order, so that a loan
may be under way while others start or end. A repayment raises the available balance by all that is
repaid and the total by the fee only. So the session keeps account, for each token, of what has been
lent and of what the credits have brought beyond what the total got, and `Ledger` says that the
balances differ by just that. `loans_solvent_iff`: the pools are solvent along a run exactly if
nowhere more has come in than has been lent.
-/

namespace InterBit.Defi

open InterBit.Lib

/-- How far a loan is. -/
inductive LoanStage where
  /-- The callback runs. -/
  | lent
  /-- The callback has returned and the repayment has been looked at. -/
  | checked (repaid : Bool)
  /-- The call is over. -/
  | over (repaid : Bool)
  deriving DecidableEq

/-- The loan has been paid back. -/
def LoanStage.isRepaid : LoanStage → Bool
  | .lent => false
  | .checked repaid | .over repaid => repaid

/-- A call of `execute_loan` that has been given its loan. -/
structure LoanCall where
  loan : FlashLoan
  stage : LoanStage
  deriving DecidableEq

/-- The provider, the loans that have been given, and for each token what the credits have brought
beyond what the total balance got. -/
structure LoanSession where
  provider : FlashLoanProvider
  calls : AList fun _ : H256 => LoanCall
  received : H256 → Nat

/-- A call, or a section of one. -/
inductive LoanAction where
  | add (token : H256) (amount : U256)
  | remove (token : H256) (amount : U256)
  | lend (request : LoanRequest) (loanId : H256) (now : Seconds)
  /-- The callback of a loan ends. -/
  | called (loanId : H256) (callbackResult : Outcome U256)
  | settle (loanId : H256) (now : Seconds)

/-- What a credit adds to the available balance beyond what it adds to the total. -/
def LiquidityPool.surplus (pool : LiquidityPool) (paid earned : U256) : Nat :=
  match addU256 pool.availableBalance paid, addU256 pool.totalBalance earned with
  | none, _ => 0
  -- the panic comes half-way
  | some _, none => paid.toNat
  | some _, some _ => paid.toNat - earned.toNat

namespace FlashLoanProvider

/-- The available balance for a token. -/
def available (provider : FlashLoanProvider) (token : H256) : Nat :=
  ((provider.balances token).map fun balances => balances.1.toNat).getD 0

/-- The total balance for a token. -/
def total (provider : FlashLoanProvider) (token : H256) : Nat :=
  ((provider.balances token).map fun balances => balances.2.toNat).getD 0

/-- The surplus of a credit to the pool of a token. -/
def surplus (provider : FlashLoanProvider) (token : H256) (paid earned : U256) : Nat :=
  ((provider.liquidityPools.lookup token).map fun pool => pool.surplus paid earned).getD 0

/-- The surplus that the end of a callback brings. -/
def incoming (provider : FlashLoanProvider) (loan : FlashLoan) : Except DeFiError U256 → Nat
  | .error _ => 0
  | .ok repaid =>
    match addU256 loan.amount loan.fee with
    | none => 0
    | some due => if due ≤ repaid then provider.surplus loan.token repaid loan.fee else 0

end FlashLoanProvider

namespace LoanSession

open FlashLoanProvider

/-- `FlashLoanProvider::new`. -/
def new (feeBps : U32) : LoanSession := ⟨.new feeBps, ∅, fun _ => 0⟩

/-- More has come in than the total balance got. -/
def receive (session : LoanSession) (token : H256) (surplus : Nat) : LoanSession :=
  { session with
    received := Function.update session.received token (session.received token + surplus) }

/-- A loan goes on. -/
def advance (session : LoanSession) (loan : FlashLoan) (stage : LoanStage) : LoanSession :=
  { session with calls := session.calls.insert loan.id ⟨loan, stage⟩ }

/-- What an action does. An action of a loan that is not at that point does nothing. -/
def next (session : LoanSession) : LoanAction → LoanSession
  | .add token amount =>
    { session.receive token (session.provider.surplus token amount amount) with
      provider := (session.provider.addLiquidity token amount).1 }
  | .remove token amount =>
    { session with provider := (session.provider.removeLiquidity token amount).1 }
  | .lend request loanId now =>
    match session.provider.lend request loanId now with
    | (provider, some (.ok loan)) => { session.advance loan .lent with provider }
    | (provider, _) => { session with provider }
  | .called loanId callbackResult =>
    match session.calls.lookup loanId with
    | some ⟨loan, .lent⟩ =>
      match callbackResult with
      | none => session.advance loan (.over false)
      | some callbackResult =>
        let session := session.receive loan.token (session.provider.incoming loan callbackResult)
        match session.provider.repay loan callbackResult with
        | (provider, some (.ok repaid)) => { session.advance loan (.checked repaid) with provider }
        | (provider, _) => { session.advance loan (.over false) with provider }
    | _ => session
  | .settle loanId now =>
    match session.calls.lookup loanId with
    | some ⟨loan, .checked repaid⟩ =>
      { session.advance loan (.over repaid) with
        provider := session.provider.settle loan repaid now }
    | _ => session

/-! ## Solvency -/

/-- No pool has more available than in total, and without loans that are under way or have not been
paid back it has just as much. -/
def Sound (session : LoanSession) : Prop :=
  ∀ token, session.provider.available token ≤ session.provider.total token ∧
    ((∀ loanId call, session.calls.lookup loanId = some call → call.stage = .over true) →
      session.provider.available token = session.provider.total token)

/-- The action leaves the pools sound, and no removal panics. -/
def Solvent (session : LoanSession) (action : LoanAction) : Prop :=
  (session.next action).Sound ∧
    ∀ token amount, action = .remove token amount →
      (session.provider.removeLiquidity token amount).2 ≠ none

/-- What has been lent of a token. -/
def lentOf (session : LoanSession) (token : H256) : Nat :=
  weigh (fun call => if call.loan.token = token then call.loan.amount.toNat else 0) session.calls

/-- What has been paid back of it. -/
def repaidOf (session : LoanSession) (token : H256) : Nat :=
  weigh (fun call => if call.loan.token = token ∧ call.stage.isRepaid then call.loan.amount.toNat
    else 0) session.calls

/-- The action brings in no more than has been lent. -/
def Covered (session : LoanSession) : LoanAction → Prop
  | .add token amount =>
    session.received token + session.provider.surplus token amount amount ≤ session.lentOf token
  | .called loanId (some callbackResult) =>
    ∀ loan, session.calls.lookup loanId = some ⟨loan, .lent⟩ →
      session.received loan.token + session.provider.incoming loan callbackResult
        ≤ session.lentOf loan.token
  | _ => True

/-- `H256::random` draws an id that no loan has. -/
def Fresh (session : LoanSession) : LoanAction → Prop
  | .lend _ loanId _ => session.provider.activeLoans.lookup loanId = none
  | _ => True

/-- The balances differ by what has been lent and what has come in, what has been paid back has
come in, and the loans are written down and have their pools. -/
structure Ledger (session : LoanSession) : Prop where
  balanced : ∀ token, session.provider.available token + session.lentOf token
    = session.provider.total token + session.received token
  returned : ∀ token, session.repaidOf token ≤ session.received token
  hosted : ∀ loanId call, session.calls.lookup loanId = some call →
    call.loan.id = loanId ∧ (session.provider.balances call.loan.token).isSome ∧
      session.provider.Written call.loan

/-- No more has come in than has been lent. -/
def Within (session : LoanSession) : Prop :=
  ∀ token, session.received token ≤ session.lentOf token

end LoanSession

/-! ## What happens to the balances -/

theorem LiquidityPool.credit_spec (pool : LiquidityPool) {paid earned : U256}
    (h : earned ≤ paid) :
    (pool.credit paid earned).1.availableBalance.toNat + pool.totalBalance.toNat
      = pool.availableBalance.toNat + (pool.credit paid earned).1.totalBalance.toNat
        + pool.surplus paid earned := by
  unfold credit surplus
  cases havailable : addU256 pool.availableBalance paid with
  | none => exact (Nat.add_zero _).symm
  | some availableBalance =>
    have havailable := addU256_eq.mp havailable
    dsimp only
    cases htotal : addU256 pool.totalBalance earned with
    | none =>
      dsimp only
      omega
    | some totalBalance =>
      have htotal := addU256_eq.mp htotal
      have hle := BitVec.le_def.mp h
      dsimp only
      omega

/-- A credit that does not panic has all its surplus. -/
theorem LiquidityPool.surplus_of_credit {pool : LiquidityPool} {paid earned : U256}
    (h : (pool.credit paid earned).2 ≠ none) :
    pool.surplus paid earned = paid.toNat - earned.toNat := by
  unfold credit at h
  unfold surplus
  cases havailable : addU256 pool.availableBalance paid with
  | none =>
    rw [havailable] at h
    exact absurd rfl h
  | some availableBalance =>
    rw [havailable] at h
    dsimp only at h
    cases htotal : addU256 pool.totalBalance earned with
    | none =>
      rw [htotal] at h
      exact absurd rfl h
    | some totalBalance => rfl

namespace FlashLoanProvider

variable {provider : FlashLoanProvider}

theorem balances_setPool (provider : FlashLoanProvider) (token : H256) (pool : LiquidityPool)
    (other : H256) : (provider.setPool token pool).balances other
      = if other = token then some (pool.availableBalance, pool.totalBalance)
        else provider.balances other := by
  unfold balances setPool
  split
  next hother => rw [hother, AList.lookup_insert, Option.map_some]
  next hother => rw [AList.lookup_insert_ne hother]

theorem available_setPool (provider : FlashLoanProvider) (token : H256) (pool : LiquidityPool)
    (other : H256) : (provider.setPool token pool).available other
      = if other = token then pool.availableBalance.toNat else provider.available other := by
  unfold available
  rw [balances_setPool]
  split
  next => rfl
  next => rfl

theorem total_setPool (provider : FlashLoanProvider) (token : H256) (pool : LiquidityPool)
    (other : H256) : (provider.setPool token pool).total other
      = if other = token then pool.totalBalance.toNat else provider.total other := by
  unfold total
  rw [balances_setPool]
  split
  next => rfl
  next => rfl

variable {pool : LiquidityPool} {token : H256} {loan : FlashLoan}

theorem available_of_lookup (h : provider.liquidityPools.lookup token = some pool) :
    provider.available token = pool.availableBalance.toNat := by
  rw [available, balances, h]
  rfl

theorem total_of_lookup (h : provider.liquidityPools.lookup token = some pool) :
    provider.total token = pool.totalBalance.toNat := by
  rw [total, balances, h]
  rfl

/-- The available balance of a token has gained so much on the total. -/
def Gains (provider provider' : FlashLoanProvider) (token : H256) (n : Nat) : Prop :=
  (∀ other, (provider.balances other).isSome → (provider'.balances other).isSome) ∧
  ∀ other, provider'.available other + provider.total other
    = provider.available other + provider'.total other + if other = token then n else 0

theorem gains_refl (provider : FlashLoanProvider) (token : H256) :
    provider.Gains provider token 0 :=
  ⟨fun _ h => h, fun other => by rw [ite_self, Nat.add_zero]⟩

theorem gains_setPool {pool pool' : LiquidityPool} {n : Nat}
    (hpool : provider.liquidityPools.lookup token = some pool)
    (h : pool'.availableBalance.toNat + pool.totalBalance.toNat
      = pool.availableBalance.toNat + pool'.totalBalance.toNat + n) :
    provider.Gains (provider.setPool token pool') token n := by
  constructor
  · intro other hother
    rw [balances_setPool]
    split
    next => rfl
    next => exact hother
  · intro other
    rw [available_setPool, total_setPool]
    split
    next hother =>
      rw [hother, available_of_lookup hpool, total_of_lookup hpool]
      exact h
    next => rfl

theorem surplus_of_lookup (h : provider.liquidityPools.lookup token = some pool)
    (paid earned : U256) :
    provider.surplus token paid earned = pool.surplus paid earned := by
  rw [surplus, h]
  rfl

theorem surplus_of_none (h : provider.liquidityPools.lookup token = none) (paid earned : U256) :
    provider.surplus token paid earned = 0 := by
  rw [surplus, h]
  rfl

theorem gains_credit {paid earned : U256} (hpool : provider.liquidityPools.lookup token = some pool)
    (h : earned ≤ paid) :
    provider.Gains (provider.setPool token (pool.credit paid earned).1) token
      (provider.surplus token paid earned) := by
  rw [surplus_of_lookup hpool]
  exact gains_setPool hpool (pool.credit_spec h)

/-- The credit of a repayment. -/
theorem gains_creditPool (token : H256) {paid earned : U256} (h : earned ≤ paid) :
    provider.Gains (provider.creditPool token paid earned).1 token
        (provider.surplus token paid earned) ∧
      (provider.creditPool token paid earned).1.activeLoans = provider.activeLoans ∧
      ((provider.creditPool token paid earned).2 ≠ none → (provider.balances token).isSome →
        provider.surplus token paid earned = paid.toNat - earned.toNat) := by
  unfold creditPool
  cases hpool : provider.liquidityPools.lookup token with
  | none =>
    rw [surplus_of_none hpool]
    refine ⟨gains_refl provider token, rfl, fun _ hsome => ?_⟩
    rw [balances, hpool] at hsome
    cases hsome
  | some pool =>
    refine ⟨gains_credit hpool h, rfl, fun hcredit _ => ?_⟩
    rw [surplus_of_lookup hpool]
    exact LiquidityPool.surplus_of_credit hcredit

/-- Adding liquidity is a credit whose whole payment counts as earned. -/
theorem gains_addLiquidity (provider : FlashLoanProvider) (token : H256) (amount : U256) :
    provider.Gains (provider.addLiquidity token amount).1 token
      (provider.surplus token amount amount) := by
  unfold addLiquidity
  cases hpool : provider.liquidityPools.lookup token with
  | some pool => exact gains_credit hpool (BitVec.le_refl _)
  | none =>
    have hnone : provider.balances token = none := by
      rw [balances, hpool]
      rfl
    rw [surplus_of_none hpool]
    constructor
    · intro other hother
      dsimp only
      rw [balances_setPool]
      split
      next => rfl
      next => exact hother
    · intro other
      dsimp only
      rw [available_setPool, total_setPool, ite_self]
      split
      next hother =>
        rw [hother, available, total, hnone]
        exact Nat.add_comm ..
      next => rfl

/-- Under a sound pool a removal does not panic, and takes the same from both balances. -/
theorem gains_removeLiquidity (h : provider.available token ≤ provider.total token)
    (amount : U256) :
    (provider.removeLiquidity token amount).2 ≠ none ∧
      provider.Gains (provider.removeLiquidity token amount).1 token 0 := by
  unfold removeLiquidity
  cases hpool : provider.liquidityPools.lookup token with
  | none => exact ⟨Option.some_ne_none _, gains_refl provider token⟩
  | some pool =>
    dsimp only
    split
    next => exact ⟨Option.some_ne_none _, gains_refl provider token⟩
    next hle =>
      have hle := BitVec.le_def.mp (BitVec.not_lt.mp hle)
      rw [available_of_lookup hpool, total_of_lookup hpool] at h
      obtain ⟨availableBalance, havailable⟩ := Option.isSome_iff_exists.mp (subU256_isSome.mpr hle)
      obtain ⟨totalBalance, htotal⟩ :=
        Option.isSome_iff_exists.mp (subU256_isSome.mpr (Nat.le_trans hle h))
      have hdebit : pool.debit amount
          = ({ pool with availableBalance, totalBalance }, some ()) := by
        simp only [LiquidityPool.debit, havailable, htotal]
      rw [hdebit]
      refine ⟨Option.some_ne_none _, gains_setPool hpool ?_⟩
      have havailable := subU256_eq.mp havailable
      have htotal := subU256_eq.mp htotal
      dsimp only
      omega

/-- A loan is taken from its pool. -/
theorem balances_lent_spec (hpool : provider.liquidityPools.lookup loan.token = some pool)
    (hle : loan.amount ≤ pool.availableBalance) :
    (∀ other, ((provider.lent pool loan).balances other).isSome
        = (provider.balances other).isSome) ∧
      ∀ other, (provider.lent pool loan).available other
          + (if loan.token = other then loan.amount.toNat else 0) = provider.available other ∧
        (provider.lent pool loan).total other = provider.total other := by
  constructor
  · intro other
    rw [balances_lent]
    split
    next hother =>
      rw [hother, balances, hpool]
      rfl
    next => rfl
  · intro other
    unfold available total
    rw [balances_lent]
    by_cases hother : other = loan.token
    · have hsub := BitVec.toNat_sub_of_le hle
      have hle := BitVec.le_def.mp hle
      rw [if_pos hother, if_pos hother.symm, hother, balances, hpool]
      dsimp only [Option.map_some, Option.getD_some]
      omega
    · rw [if_neg hother, if_neg (Ne.symm hother)]
      exact ⟨Nat.add_zero _, rfl⟩

theorem incoming_short {callbackResult : Except DeFiError U256}
    (h : FallsShort loan.amount loan.fee callbackResult) :
    provider.incoming loan callbackResult = 0 := by
  cases callbackResult with
  | error error => rfl
  | ok repaid =>
    obtain ⟨due, hdue, hlt⟩ := h
    show (match addU256 loan.amount loan.fee with | none => 0 | some due => _) = _
    rw [hdue]
    exact if_neg (BitVec.not_le.mpr hlt)

theorem incoming_of_panic (h : addU256 loan.amount loan.fee = none)
    (callbackResult : Except DeFiError U256) : provider.incoming loan callbackResult = 0 := by
  cases callbackResult with
  | error error => rfl
  | ok repaid =>
    show (match addU256 loan.amount loan.fee with | none => 0 | some due => _) = _
    rw [h]

/-- What the end of a callback brings in comes in with the repayment. -/
theorem gains_repay (hwritten : provider.Written loan) (callbackResult : Except DeFiError U256) :
    provider.Gains (provider.repay loan callbackResult).1 loan.token
        (provider.incoming loan callbackResult) ∧
      (provider.repay loan callbackResult).1.activeLoans = provider.activeLoans ∧
      ((provider.repay loan callbackResult).2 = some (.ok true) →
        (provider.balances loan.token).isSome →
          loan.amount.toNat ≤ provider.incoming loan callbackResult) := by
  by_cases hshort : FallsShort loan.amount loan.fee callbackResult
  · -- nothing is paid back
    rw [repay_short hshort, incoming_short hshort]
    exact ⟨gains_refl provider loan.token, rfl, fun h => absurd h (by simp)⟩
  · obtain ⟨hdue, hpanic⟩ | ⟨repaid, due, rfl, hdue, hle, hrepay⟩ := repay_covered hwritten hshort
    · rw [hpanic, incoming_of_panic hdue]
      exact ⟨gains_refl provider loan.token, rfl, fun h => nomatch h⟩
    · have hsum := addU256_eq.mp hdue
      have hcovered := BitVec.le_def.mp hle
      have hincoming : provider.incoming loan (.ok repaid)
          = provider.surplus loan.token repaid loan.fee := by
        show (match addU256 loan.amount loan.fee with | none => 0 | some due => _) = _
        rw [hdue]
        exact if_pos hle
      have hfee : loan.fee ≤ repaid := BitVec.le_def.mpr (by omega)
      obtain ⟨hgains, hactive, hsurplus⟩ := @gains_creditPool provider loan.token _ _ hfee
      rw [hrepay, hincoming]
      refine ⟨hgains, hactive, fun hok hsome => ?_⟩
      have hcredit : (provider.creditPool loan.token repaid loan.fee).2 ≠ none := by
        intro hnone
        dsimp only at hok
        rw [hnone] at hok
        cases hok
      rw [hsurplus hcredit hsome]
      omega

theorem gains_settle (provider : FlashLoanProvider) (loan : FlashLoan) (repaid : Bool)
    (now : Seconds) (token : H256) : provider.Gains (provider.settle loan repaid now) token 0 := by
  unfold settle markLoan
  split
  next => exact gains_refl provider token
  next => exact gains_refl provider token

/-- When a loan is settled, only its status changes. -/
theorem Written.settle {loan' : FlashLoan} (h : provider.Written loan') (loan : FlashLoan)
    (repaid : Bool) (now : Seconds) : (provider.settle loan repaid now).Written loan' := by
  obtain ⟨status, hlookup⟩ := h
  unfold Written FlashLoanProvider.settle markLoan
  cases hactive : provider.activeLoans.lookup loan.id with
  | none => exact ⟨status, hlookup⟩
  | some active =>
    by_cases hid : loan'.id = loan.id
    · obtain rfl := Option.some.inj (hlookup.symm.trans (hid ▸ hactive))
      rw [hid]
      exact ⟨_, AList.lookup_insert _⟩
    · exact ⟨status, (AList.lookup_insert_ne hid).trans hlookup⟩

end FlashLoanProvider

namespace LoanSession

open FlashLoanProvider

variable {session : LoanSession}

/-! ## The ledger -/

@[simp] theorem provider_receive (session : LoanSession) (token : H256) (n : Nat) :
    (session.receive token n).provider = session.provider := rfl

/-- A receipt shows under its own token only. -/
@[simp] theorem received_receive (session : LoanSession) (token : H256) (n : Nat) (other : H256) :
    (session.receive token n).received other
      = session.received other + if other = token then n else 0 := by
  show Function.update session.received token (session.received token + n) other = _
  rw [Function.update_apply]
  split
  next hother => rw [hother]
  next => rfl

variable {loan : FlashLoan} {loanId : H256}

theorem lentOf_advance {stage : LoanStage} (h : session.calls.lookup loan.id = some ⟨loan, stage⟩)
    (stage' : LoanStage) (token : H256) :
    (session.advance loan stage').lentOf token = session.lentOf token := by
  have hweigh := weigh_insert_of_some
    (fun call : LoanCall => if call.loan.token = token then call.loan.amount.toNat else 0) h
    ⟨loan, stage'⟩
  exact Nat.add_right_cancel hweigh

theorem repaidOf_advance {stage : LoanStage} (h : session.calls.lookup loan.id = some ⟨loan, stage⟩)
    (stage' : LoanStage) (token : H256) :
    (session.advance loan stage').repaidOf token
        + (if loan.token = token ∧ stage.isRepaid then loan.amount.toNat else 0)
      = session.repaidOf token
        + if loan.token = token ∧ stage'.isRepaid then loan.amount.toNat else 0 :=
  weigh_insert_of_some (fun call : LoanCall => if call.loan.token = token ∧ call.stage.isRepaid
    then call.loan.amount.toNat else 0) h ⟨loan, stage'⟩

theorem lookup_advance {stage stage' : LoanStage}
    (h : session.calls.lookup loan.id = some ⟨loan, stage⟩) {call' : LoanCall}
    (hcall : (session.advance loan stage').calls.lookup loanId = some call') :
    ∃ call, session.calls.lookup loanId = some call ∧ call.loan = call'.loan := by
  obtain ⟨rfl, rfl⟩ | ⟨_, hold⟩ := lookup_insert_eq_some.mp hcall
  · exact ⟨_, h, rfl⟩
  · exact ⟨call', hold, rfl⟩

/-- The ledger survives if what the balances gain is written down and the loans stay. -/
theorem Ledger.shift {session' : LoanSession} {token : H256} {n : Nat} (h : session.Ledger)
    (hgains : session.provider.Gains session'.provider token n)
    (hreceived : ∀ other, session'.received other
      = session.received other + if other = token then n else 0)
    (hlent : ∀ other, session'.lentOf other = session.lentOf other)
    (hrepaid : ∀ other, session'.repaidOf other ≤ session'.received other)
    (hcalls : ∀ loanId call', session'.calls.lookup loanId = some call' →
      ∃ call, session.calls.lookup loanId = some call ∧ call.loan = call'.loan)
    (hwritten : ∀ loan, session.provider.Written loan → session'.provider.Written loan) :
    session'.Ledger := by
  constructor
  · intro other
    have hbalanced := h.balanced other
    have hgained := hgains.2 other
    have hreceived := hreceived other
    have hlent := hlent other
    omega
  · exact hrepaid
  · intro loanId call' hcall
    obtain ⟨call, hold, hloan⟩ := hcalls loanId call' hcall
    obtain ⟨hid, hpool, hloans⟩ := h.hosted loanId call hold
    rw [← hloan]
    exact ⟨hid, hgains.1 _ hpool, hwritten _ hloans⟩

/-- Added liquidity enters the pool and the receipts alike. -/
theorem Ledger.add (h : session.Ledger) (token : H256) (amount : U256) :
    (session.next (.add token amount)).Ledger := by
  refine h.shift (gains_addLiquidity session.provider token amount)
    (received_receive session token _) (fun _ => rfl) (fun other => ?_)
    (fun _ call hcall => ⟨call, hcall, rfl⟩) fun loan hwritten => ?_
  · have hreturned := h.returned other
    have hreceived := received_receive session token
      (session.provider.surplus token amount amount) other
    show session.repaidOf other ≤ (session.receive token _).received other
    omega
  · have hactive : (session.provider.addLiquidity token amount).1.activeLoans
        = session.provider.activeLoans := by
      unfold addLiquidity
      split
      next => rfl
      next => rfl
    obtain ⟨status, hlookup⟩ := hwritten
    exact ⟨status, hactive ▸ hlookup⟩

theorem Ledger.available_le (h : session.Ledger) (hwithin : session.Within) (token : H256) :
    session.provider.available token ≤ session.provider.total token := by
  have hbalanced := h.balanced token
  have hle := hwithin token
  omega

theorem Ledger.remove (h : session.Ledger) (hwithin : session.Within) (token : H256)
    (amount : U256) : (session.next (.remove token amount)).Ledger := by
  refine h.shift (gains_removeLiquidity (h.available_le hwithin token) amount).2
    (fun other => ?_) (fun _ => rfl) h.returned (fun _ call hcall => ⟨call, hcall, rfl⟩)
    fun loan hwritten => ?_
  · rw [ite_self]
    rfl
  · have hactive : (session.provider.removeLiquidity token amount).1.activeLoans
        = session.provider.activeLoans := by
      unfold removeLiquidity
      split
      next => rfl
      next =>
        split
        next => rfl
        next => rfl
    obtain ⟨status, hlookup⟩ := hwritten
    exact ⟨status, hactive ▸ hlookup⟩

theorem Ledger.lookup_of_fresh (h : session.Ledger)
    (hfresh : session.provider.activeLoans.lookup loanId = none) :
    session.calls.lookup loanId = none := by
  rw [Option.eq_none_iff_forall_not_mem]
  intro call hcall
  obtain ⟨hid, _, status, hwritten⟩ := h.hosted loanId call hcall
  rw [hid, hfresh] at hwritten
  cases hwritten

/-- A loan that is given. -/
theorem Ledger.lent (h : session.Ledger) {pool : LiquidityPool}
    (hpool : session.provider.liquidityPools.lookup loan.token = some pool)
    (hle : loan.amount ≤ pool.availableBalance)
    (hfresh : session.provider.activeLoans.lookup loan.id = none) :
    ({ session.advance loan .lent with provider := session.provider.lent pool loan } :
      LoanSession).Ledger := by
  obtain ⟨hpools, hbalances⟩ := balances_lent_spec hpool hle
  have hnew := h.lookup_of_fresh hfresh
  constructor
  · intro token
    have hbalanced := h.balanced token
    obtain ⟨havailable, htotal⟩ := hbalances token
    -- the call is new, so its amount comes on top of what is lent
    have hlent := weigh_insert_of_none
      (fun call : LoanCall => if call.loan.token = token then call.loan.amount.toNat else 0) hnew
      ⟨loan, .lent⟩
    show (session.provider.lent pool loan).available token
        + weigh _ (session.calls.insert loan.id ⟨loan, .lent⟩)
      = (session.provider.lent pool loan).total token + session.received token
    rw [hlent, htotal, ← hbalanced, ← havailable]
    dsimp only
    rw [Nat.add_assoc]
    rfl
  · intro token
    have hrepaid := weigh_insert_of_none
      (fun call : LoanCall => if call.loan.token = token ∧ call.stage.isRepaid
        then call.loan.amount.toNat else 0) hnew ⟨loan, .lent⟩
    refine Nat.le_trans (Nat.le_of_eq (hrepaid.trans ?_)) (h.returned token)
    rw [if_neg fun hno => nomatch hno.2]
    exact Nat.zero_add _
  · intro loanId call hcall
    obtain ⟨rfl, rfl⟩ | ⟨hother, hold⟩ := lookup_insert_eq_some.mp hcall
    · refine ⟨rfl, ?_, written_lent ..⟩
      rw [hpools, balances, hpool]
      rfl
    · obtain ⟨hid, hsome, status, hwritten⟩ := h.hosted loanId call hold
      refine ⟨hid, (hpools _).trans hsome, status, ?_⟩
      exact (AList.lookup_insert_ne (hid ▸ hother)).trans hwritten

theorem Ledger.lend (h : session.Ledger) {request : LoanRequest} {now : Seconds}
    (hfresh : session.Fresh (.lend request loanId now)) :
    (session.next (.lend request loanId now)).Ledger := by
  obtain ⟨pool, fee, hpool, hle, _, hlend⟩ | ⟨hlend | ⟨_, hlend⟩, _⟩ :=
    lend_cases session.provider request loanId now
  · simp only [next, hlend]
    exact h.lent hpool hle hfresh
  · simp only [next, hlend]
    exact h
  · simp only [next, hlend]
    exact h

/-- Without a loan at that point nothing happens. -/
theorem next_called_idle (h : ∀ loan, session.calls.lookup loanId ≠ some ⟨loan, .lent⟩)
    (callbackResult : Outcome U256) :
    session.next (.called loanId callbackResult) = session := by
  rcases hcall : session.calls.lookup loanId with _ | ⟨loan, _ | _ | _⟩
  case some.lent => exact absurd hcall (h loan)
  all_goals simp only [next, hcall]

theorem next_settle_cases (session : LoanSession) (loanId : H256) (now : Seconds) :
    session.next (.settle loanId now) = session ∨
    ∃ loan repaid, session.calls.lookup loanId = some ⟨loan, .checked repaid⟩ ∧
      session.next (.settle loanId now) = { session.advance loan (.over repaid) with
        provider := session.provider.settle loan repaid now } := by
  rcases hcall : session.calls.lookup loanId with _ | ⟨loan, _ | repaid | _⟩
  case some.checked => exact Or.inr ⟨loan, repaid, rfl, by simp only [next, hcall]⟩
  all_goals exact Or.inl (by simp only [next, hcall])

/-- What the end of a callback does. -/
theorem next_called (h : session.calls.lookup loanId = some ⟨loan, .lent⟩)
    (callbackResult : Except DeFiError U256) :
    ∃ stage : LoanStage, session.next (.called loanId (some callbackResult))
        = { (session.receive loan.token
              (session.provider.incoming loan callbackResult)).advance loan stage with
            provider := (session.provider.repay loan callbackResult).1 } ∧
      (stage.isRepaid = true →
        (session.provider.repay loan callbackResult).2 = some (.ok true)) := by
  simp only [next, h, provider_receive]
  rcases session.provider.repay loan callbackResult with ⟨provider, _ | _ | repaid⟩
  · exact ⟨_, rfl, fun hno => nomatch hno⟩
  · exact ⟨_, rfl, fun hno => nomatch hno⟩
  · exact ⟨_, rfl, fun hyes => congrArg (some ∘ Except.ok) hyes⟩

/-- A stage move that repays nothing new keeps the books. -/
theorem Ledger.advance (h : session.Ledger) {stage stage' : LoanStage}
    (hcall : session.calls.lookup loan.id = some ⟨loan, stage⟩)
    (hstage : stage'.isRepaid = true → stage.isRepaid = true) :
    (session.advance loan stage').Ledger := by
  refine h.shift (gains_refl session.provider loan.token) (fun other => ?_) (lentOf_advance hcall _)
    (fun other => ?_) (fun _ _ => lookup_advance hcall) fun _ hwritten => hwritten
  · rw [ite_self]
    rfl
  · have hrepaid := repaidOf_advance hcall stage' other
    have hreturned := h.returned other
    have hle : (if loan.token = other ∧ stage'.isRepaid then loan.amount.toNat else 0)
        ≤ if loan.token = other ∧ stage.isRepaid then loan.amount.toNat else 0 := by
      split
      next hyes => rw [if_pos ⟨hyes.1, hstage hyes.2⟩]
      next => exact Nat.zero_le _
    show (session.advance loan stage').repaidOf other ≤ session.received other
    omega

theorem Ledger.called (h : session.Ledger) (loanId : H256) (callbackResult : Outcome U256) :
    (session.next (.called loanId callbackResult)).Ledger := by
  by_cases hidle : ∀ loan, session.calls.lookup loanId ≠ some ⟨loan, .lent⟩
  · rw [next_called_idle hidle]
    exact h
  · obtain ⟨loan, hcall⟩ := not_forall_not.mp hidle
    obtain ⟨rfl, hpool, hwritten⟩ := h.hosted loanId _ hcall
    cases callbackResult with
    | none =>
      have hnext : session.next (.called loan.id none) = session.advance loan (.over false) := by
        simp only [next, hcall]
      rw [hnext]
      exact h.advance hcall fun hno => nomatch hno
    | some callbackResult =>
      obtain ⟨hgains, hactive, hamount⟩ := gains_repay hwritten callbackResult
      obtain ⟨stage, hnext, hrepaid⟩ := next_called hcall callbackResult
      rw [hnext]
      refine h.shift hgains (received_receive session loan.token _) (lentOf_advance hcall stage)
        (fun other => ?_) (fun _ _ => lookup_advance hcall) fun loan' ⟨status, hlookup⟩ => ?_
      · -- what is paid back has come in
        have hadvance := repaidOf_advance hcall stage other
        dsimp only at hadvance
        have hreturned := h.returned other
        have hreceived := received_receive session loan.token
          (session.provider.incoming loan callbackResult) other
        have hle : (if loan.token = other ∧ stage.isRepaid then loan.amount.toNat else 0)
            ≤ if other = loan.token then session.provider.incoming loan callbackResult else 0 := by
          split
          next hyes =>
            rw [if_pos hyes.1.symm]
            exact hamount (hrepaid hyes.2) hpool
          next => exact Nat.zero_le _
        show (session.advance loan stage).repaidOf other
          ≤ (session.receive loan.token _).received other
        omega
      · exact ⟨status, hactive ▸ hlookup⟩

/-- The last section closes the loan's entry and moves no money. -/
theorem Ledger.settle (h : session.Ledger) (loanId : H256) (now : Seconds) :
    (session.next (.settle loanId now)).Ledger := by
  obtain hidle | ⟨loan, repaid, hcall, hnext⟩ := session.next_settle_cases loanId now
  · rw [hidle]
    exact h
  · obtain ⟨rfl, _, _⟩ := h.hosted loanId _ hcall
    rw [hnext]
    have hadvance : (session.advance loan (.over repaid)).Ledger := h.advance hcall id
    have hsame := gains_settle session.provider loan repaid now loan.token
    refine hadvance.shift hsame (fun other => ?_) (fun _ => rfl) hadvance.returned
      (fun _ call hcall => ⟨call, hcall, rfl⟩) fun loan' hwritten => hwritten.settle loan repaid now
    rw [ite_self]
    rfl

/-- Every action keeps the ledger. -/
theorem Ledger.next (h : session.Ledger) (hwithin : session.Within) {action : LoanAction}
    (hfresh : session.Fresh action) : (session.next action).Ledger := by
  cases action with
  | add token amount => exact h.add token amount
  | remove token amount => exact h.remove hwithin token amount
  | lend request loanId now => exact h.lend hfresh
  | called loanId callbackResult => exact h.called loanId callbackResult
  | settle loanId now => exact h.settle loanId now

theorem ledger_new (feeBps : U32) : (new feeBps).Ledger :=
  ⟨fun _ => rfl, fun _ => Nat.le_refl 0, fun _ _ h => nomatch h⟩

/-! ## What keeps the pools solvent -/

/-- The pools are sound exactly if no more has come in than has been lent. -/
theorem Ledger.sound_iff (h : session.Ledger) : session.Sound ↔ session.Within := by
  constructor
  · intro hsound token
    have hbalanced := h.balanced token
    have hle := (hsound token).1
    omega
  · intro hwithin token
    have hbalanced := h.balanced token
    refine ⟨h.available_le hwithin token, fun hover => ?_⟩
    -- all that has been lent has been paid back
    have hall : session.repaidOf token = session.lentOf token := by
      refine congrArg List.sum (List.map_congr_left fun e he => ?_)
      have hrepaid := hover e.1 e.2 (AList.mem_lookup_iff.mpr he)
      dsimp only
      rw [hrepaid]
      exact if_congr (and_iff_left rfl) rfl rfl
    have hreturned := h.returned token
    have hle := hwithin token
    omega

/-- More that comes in for one token counts there. -/
theorem Within.receive_iff (h : session.Within) (token : H256) (n : Nat) :
    (∀ other, (session.receive token n).received other ≤ session.lentOf other) ↔
      session.received token + n ≤ session.lentOf token := by
  constructor
  · intro hall
    have htoken := hall token
    rw [received_receive, if_pos rfl] at htoken
    exact htoken
  · intro hle other
    have hother := h other
    rw [received_receive]
    split
    next heq =>
      rw [heq]
      exact hle
    next => exact hother

/-- Lending stays within what is at hand, since the provider checks it. -/
theorem Ledger.within_lend (h : session.Ledger) (hwithin : session.Within) {request : LoanRequest}
    {now : Seconds} (hfresh : session.Fresh (.lend request loanId now)) :
    (session.next (.lend request loanId now)).Within := by
  obtain ⟨pool, fee, _, _, _, hlend⟩ | ⟨hlend | ⟨_, hlend⟩, _⟩ :=
    lend_cases session.provider request loanId now
  · simp only [LoanSession.next, hlend]
    intro token
    have hlent := weigh_insert_of_none
      (fun call : LoanCall => if call.loan.token = token then call.loan.amount.toNat else 0)
      (h.lookup_of_fresh hfresh) ⟨newLoan request loanId fee now, .lent⟩
    exact Nat.le_trans (hwithin token) (Nat.le_trans (Nat.le_add_left ..) (Nat.le_of_eq hlent.symm))
  · simp only [LoanSession.next, hlend]
    exact hwithin
  · simp only [LoanSession.next, hlend]
    exact hwithin

theorem Ledger.within_called_iff (h : session.Ledger) (hwithin : session.Within) (loanId : H256)
    (callbackResult : Outcome U256) :
    (session.next (.called loanId callbackResult)).Within ↔
      session.Covered (.called loanId callbackResult) := by
  by_cases hidle : ∀ loan, session.calls.lookup loanId ≠ some ⟨loan, .lent⟩
  · rw [next_called_idle hidle]
    refine iff_of_true hwithin ?_
    cases callbackResult with
    | none => trivial
    | some callbackResult => exact fun loan hcall => absurd hcall (hidle loan)
  · obtain ⟨loan, hcall⟩ := not_forall_not.mp hidle
    obtain ⟨rfl, _, _⟩ := h.hosted loanId _ hcall
    cases callbackResult with
    | none =>
      simp only [LoanSession.next, hcall]
      exact iff_of_true (fun token => lentOf_advance hcall _ token ▸ hwithin token) trivial
    | some callbackResult =>
      obtain ⟨stage, hnext, _⟩ := next_called hcall callbackResult
      have hreceive := hwithin.receive_iff loan.token
        (session.provider.incoming loan callbackResult)
      have hlent := lentOf_advance hcall stage
      rw [hnext]
      constructor
      · intro hall loan' hcall'
        obtain rfl : loan = loan' := by
          have hsame := hcall.symm.trans hcall'
          cases hsame
          rfl
        exact hreceive.mp fun other => hlent other ▸ hall other
      · intro hcovered other
        have hle := hreceive.mpr (hcovered loan hcall) other
        exact hlent other ▸ hle

/-- Whether more has come in than has been lent changes with credits only. -/
theorem Ledger.within_next_iff (h : session.Ledger) (hwithin : session.Within)
    {action : LoanAction} (hfresh : session.Fresh action) :
    (session.next action).Within ↔ session.Covered action := by
  cases action with
  | add token amount => exact hwithin.receive_iff token _
  | remove token amount => exact iff_of_true hwithin trivial
  | lend request loanId now => exact iff_of_true (h.within_lend hwithin hfresh) trivial
  | called loanId callbackResult => exact h.within_called_iff hwithin loanId callbackResult
  | settle loanId now =>
    refine iff_of_true (fun token => ?_) trivial
    obtain hidle | ⟨loan, repaid, hcall, hnext⟩ := session.next_settle_cases loanId now
    · rw [hidle]
      exact hwithin token
    · obtain ⟨rfl, _, _⟩ := h.hosted loanId _ hcall
      have hlent := lentOf_advance hcall (.over repaid) token
      rw [hnext]
      exact hlent ▸ hwithin token

/-- An action leaves the pools solvent exactly if it brings in no more than has been lent. -/
theorem Ledger.solvent_iff_covered (h : session.Ledger) (hwithin : session.Within)
    {action : LoanAction} (hfresh : session.Fresh action) :
    session.Solvent action ↔ session.Covered action := by
  rw [← h.within_next_iff hwithin hfresh, ← (h.next hwithin hfresh).sound_iff]
  refine and_iff_left ?_
  intro token amount _
  exact (gains_removeLiquidity (h.available_le hwithin token) amount).1

/-- Along a run with fresh ids the pools are solvent exactly if no credit brings in more than has
been lent. -/
theorem loans_solvent_iff (feeBps : U32) (actions : List LoanAction)
    (hfresh : Always next Fresh (new feeBps) actions) :
    Always next Solvent (new feeBps) actions ↔ Always next Covered (new feeBps) actions := by
  refine @always_iff_of _ _ _ _ _ (fun session => session.Ledger ∧ session.Within) _ _ _ hfresh
    ⟨ledger_new feeBps, fun _ => Nat.le_refl 0⟩ ?_ ?_
  · intro session action ⟨h, hwithin⟩ hfresh hcovered
    exact ⟨h.next hwithin hfresh, (h.within_next_iff hwithin hfresh).mpr hcovered⟩
  · intro session action ⟨h, hwithin⟩ hfresh
    exact h.solvent_iff_covered hwithin hfresh

/-! ### Samples -/

/-- A pool gets a million and lends a hundred thousand; the callback repays some amount. -/
def sampleRun (repaid : Outcome U256) : List LoanAction :=
  let loanId := Vector.replicate 32 2
  [.add (Vector.replicate 32 1) 1000000, .lend sampleRequest loanId (.ofNat 0),
    .called loanId repaid, .settle loanId (.ofNat 1)]

theorem sampleRun_fresh (repaid : Outcome U256) :
    Always next Fresh (new 9) (sampleRun repaid) := ⟨trivial, rfl, trivial, trivial, trivial⟩

theorem loans_solvent_iff_exact :
    Always next Solvent (new 9) (sampleRun (some (.ok 100090))) := by
  refine (loans_solvent_iff 9 _ (sampleRun_fresh _)).mpr ⟨?_, trivial, ?_, trivial, trivial⟩
  · show _ ≤ _
    decide +kernel
  · intro loan hcall
    obtain rfl : newLoan sampleRequest (Vector.replicate 32 2) 90 ⟨0, by decide⟩ = loan :=
      congrArg LoanCall.loan (Option.some.inj (show some (LoanCall.mk _ .lent) = _ from hcall))
    decide +kernel

/-- The simulated callback repays a profit of 2% on top, and the pool has more available than in
total. Then a removal of all that is available panics. -/
theorem simulatedCallback_insolvent :
    let run := sampleRun (executeCallback (Vector.replicate 20 7) 100000 90 [])
    let session := run.foldl next (new 9)
    Always next Fresh (new 9) run ∧ ¬ Always next Solvent (new 9) run ∧
      session.provider.balances (Vector.replicate 32 1) = some (1002090, 1000090) ∧
      (session.provider.removeLiquidity (Vector.replicate 32 1) 1002090).2 = none := by
  refine ⟨sampleRun_fresh _, fun h => ?_, by decide +kernel, by decide +kernel⟩
  have hle := (h.2.2.2.1.1 (Vector.replicate 32 1)).1
  exact absurd hle (by decide +kernel)

end LoanSession

end InterBit.Defi
