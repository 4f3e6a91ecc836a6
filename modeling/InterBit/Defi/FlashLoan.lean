import InterBit.Defi.Types

/-!
# Flash loans

`defi/flash_loan.rs`. A loan runs in sections: `lend` takes the amount out of the pool, the callback
runs without a lock, `repay` brings the repayment back and `settle` writes down how the loan has
ended. The ids that are drawn and the readings of the clock are arguments, and so is the callback.

The pool gets its money back in `repay` only, so a loan whose callback fails stays taken.
`executeLoan_atomic_iff` says when a failed call leaves the pools as they were.
-/

namespace InterBit.Defi

/-- `struct LiquidityPool`. -/
structure LiquidityPool where
  token : H256
  availableBalance : U256
  totalBalance : U256
  utilizationRate : U32
  deriving DecidableEq

/-- `enum LoanStatus`. -/
inductive LoanStatus where
  | active
  | repaid
  | failed
  deriving DecidableEq

/-- `struct FlashLoan`. -/
structure FlashLoan where
  id : H256
  borrower : Address
  token : H256
  amount : U256
  fee : U256
  callbackData : List UInt8
  initiatedAt : U64
  status : LoanStatus
  deriving DecidableEq

/-- `struct LoanRecord`. -/
structure LoanRecord where
  loanId : H256
  borrower : Address
  token : H256
  amount : U256
  fee : U256
  timestamp : U64
  success : Bool
  deriving DecidableEq

/-- `struct FlashLoanProvider`. -/
structure FlashLoanProvider where
  feeBps : U32
  liquidityPools : AList fun _ : H256 => LiquidityPool
  activeLoans : AList fun _ : H256 => FlashLoan
  loanHistory : List LoanRecord

/-- What a caller asks for. -/
structure LoanRequest where
  borrower : Address
  token : H256
  amount : U256
  callbackData : List UInt8
  deriving DecidableEq

/-- What the callback of a loan with a fee does: it returns what it repays. -/
abbrev Callback := Address → U256 → U256 → List UInt8 → Outcome U256

/-! ## Pools -/

/-- Both balances go up, the available one first; `none` is a panic. -/
def LiquidityPool.credit (pool : LiquidityPool) (paid earned : U256) :
    LiquidityPool × Option Unit :=
  match addU256 pool.availableBalance paid with
  | none => (pool, none)
  | some availableBalance =>
    let pool := { pool with availableBalance }
    match addU256 pool.totalBalance earned with
    -- the available balance has been written before the panic
    | none => (pool, none)
    | some totalBalance => ({ pool with totalBalance }, some ())

/-- Both balances go down; `none` is a panic. -/
def LiquidityPool.debit (pool : LiquidityPool) (amount : U256) : LiquidityPool × Option Unit :=
  match subU256 pool.availableBalance amount with
  | none => (pool, none)
  | some availableBalance =>
    let pool := { pool with availableBalance }
    match subU256 pool.totalBalance amount with
    | none => (pool, none)
    | some totalBalance => ({ pool with totalBalance }, some ())

namespace FlashLoanProvider

/-- `FlashLoanProvider::new`. -/
def new (feeBps : U32) : FlashLoanProvider := ⟨feeBps, ∅, ∅, []⟩

/-- A pool is replaced. -/
def setPool (provider : FlashLoanProvider) (token : H256) (pool : LiquidityPool) :
    FlashLoanProvider :=
  { provider with liquidityPools := provider.liquidityPools.insert token pool }

@[simp] theorem activeLoans_setPool (provider : FlashLoanProvider) (token : H256)
    (pool : LiquidityPool) : (provider.setPool token pool).activeLoans = provider.activeLoans := rfl

/-- The balances of a pool go up, if it is there; `none` is a panic. -/
def creditPool (provider : FlashLoanProvider) (token : H256) (paid earned : U256) :
    FlashLoanProvider × Option Unit :=
  match provider.liquidityPools.lookup token with
  | none => (provider, some ())
  | some pool =>
    let (pool, credited) := pool.credit paid earned
    (provider.setPool token pool, credited)

/-- `add_liquidity`. -/
def addLiquidity (provider : FlashLoanProvider) (token : H256) (amount : U256) :
    FlashLoanProvider × Outcome Unit :=
  match provider.liquidityPools.lookup token with
  | some pool =>
    let (pool, credited) := pool.credit amount amount
    (provider.setPool token pool, credited.map .ok)
  | none =>
    (provider.setPool token
      { token, availableBalance := amount, totalBalance := amount, utilizationRate := 0 },
      some (.ok ()))

/-- `remove_liquidity`. -/
def removeLiquidity (provider : FlashLoanProvider) (token : H256) (amount : U256) :
    FlashLoanProvider × Outcome Unit :=
  match provider.liquidityPools.lookup token with
  | none => (provider, some (.error .insufficientBalance))
  | some pool =>
    if pool.availableBalance < amount then (provider, some (.error .insufficientBalance))
    else
      let (pool, debited) := pool.debit amount
      (provider.setPool token pool, debited.map .ok)

/-! ## Loans -/

/-- The fee of a loan; `none` is a panic. -/
def loanFee (provider : FlashLoanProvider) (amount : U256) : Option U256 :=
  mulDivU256 amount (provider.feeBps.setWidth 256) 10000

/-- The loan that a request is given. -/
def newLoan (request : LoanRequest) (loanId : H256) (fee : U256) (now : Seconds) : FlashLoan where
  id := loanId
  borrower := request.borrower
  token := request.token
  amount := request.amount
  fee
  callbackData := request.callbackData
  initiatedAt := now.val
  status := .active

/-- What `execute_loan` does before the callback. -/
def lend (provider : FlashLoanProvider) (request : LoanRequest) (loanId : H256) (now : Seconds) :
    FlashLoanProvider × Outcome FlashLoan :=
  match provider.liquidityPools.lookup request.token with
  | none => (provider, some (.error .insufficientBalance))
  | some pool =>
    if pool.availableBalance < request.amount then (provider, some (.error .insufficientBalance))
    else
      match provider.loanFee request.amount with
      | none => (provider, none)
      | some fee =>
        let loan := newLoan request loanId fee now
        let pool := { pool with availableBalance := pool.availableBalance - request.amount }
        ({ provider.setPool request.token pool with
            activeLoans := provider.activeLoans.insert loanId loan },
          some (.ok loan))

/-- What the simulated callback repays: the profit is 2%. -/
def simulatedRepayment (amount fee : U256) : Option U256 := do
  let profit ← mulDivU256 amount 200 10000
  addU256 (← addU256 amount fee) profit

/-- `execute_callback`. -/
def executeCallback : Callback := fun _borrower amount fee _callbackData =>
  (simulatedRepayment amount fee).map .ok

/-- `complete_repayment`. -/
def completeRepayment (provider : FlashLoanProvider) (loanId : H256) (repaidAmount : U256) :
    FlashLoanProvider × Outcome Unit :=
  match provider.activeLoans.lookup loanId with
  | none => (provider, some (.error .positionNotFound))
  | some loan =>
    match addU256 loan.amount loan.fee with
    | none => (provider, none)
    | some expectedRepayment =>
      if repaidAmount < expectedRepayment then (provider, some (.error .flashLoanNotRepaid))
      else
        let (provider, credited) := provider.creditPool loan.token repaidAmount loan.fee
        (provider, credited.map .ok)

/-- What `execute_loan` does with what the callback returns: whether the loan is repaid. -/
def repay (provider : FlashLoanProvider) (loan : FlashLoan)
    (callbackResult : Except DeFiError U256) : FlashLoanProvider × Outcome Bool :=
  match callbackResult with
  | .error _ => (provider, some (.ok false))
  | .ok repaidAmount =>
    match addU256 loan.amount loan.fee with
    | none => (provider, none)
    | some due =>
      if due ≤ repaidAmount then
        match provider.completeRepayment loan.id repaidAmount with
        | (provider, none) => (provider, none)
        | (provider, some (.error error)) => (provider, some (.error error))
        | (provider, some (.ok ())) => (provider, some (.ok true))
      else (provider, some (.ok false))

/-- The status that a loan ends with. -/
def endStatus (repaymentSuccess : Bool) : LoanStatus :=
  if repaymentSuccess then .repaid else .failed

/-- The status of a loan is written down. -/
def markLoan (provider : FlashLoanProvider) (loanId : H256) (repaymentSuccess : Bool) :
    FlashLoanProvider :=
  match provider.activeLoans.lookup loanId with
  | some loan =>
    { provider with
      activeLoans :=
        provider.activeLoans.insert loanId { loan with status := endStatus repaymentSuccess } }
  | none => provider

/-- A loan goes into the history. -/
def recordLoan (provider : FlashLoanProvider) (loan : FlashLoan) (repaymentSuccess : Bool)
    (now : Seconds) : FlashLoanProvider :=
  { provider with
    loanHistory := provider.loanHistory ++ [{
      loanId := loan.id
      borrower := loan.borrower
      token := loan.token
      amount := loan.amount
      fee := loan.fee
      timestamp := now.val
      success := repaymentSuccess }] }

/-- What `execute_loan` writes down at its end. -/
def settle (provider : FlashLoanProvider) (loan : FlashLoan) (repaymentSuccess : Bool)
    (now : Seconds) : FlashLoanProvider :=
  (provider.markLoan loan.id repaymentSuccess).recordLoan loan repaymentSuccess now

/-- `execute_loan`. The clock is read when the loan starts and when it is written down. -/
def executeLoan (callback : Callback) (provider : FlashLoanProvider) (request : LoanRequest)
    (loanId : H256) (started recorded : Seconds) : FlashLoanProvider × Outcome H256 :=
  match provider.lend request loanId started with
  | (provider, none) => (provider, none)
  | (provider, some (.error error)) => (provider, some (.error error))
  | (provider, some (.ok loan)) =>
    match callback loan.borrower loan.amount loan.fee loan.callbackData with
    | none => (provider, none)
    | some callbackResult =>
      match provider.repay loan callbackResult with
      | (provider, none) => (provider, none)
      | (provider, some (.error error)) => (provider, some (.error error))
      | (provider, some (.ok repaymentSuccess)) =>
        (provider.settle loan repaymentSuccess recorded,
          some (if repaymentSuccess then .ok loanId else .error .flashLoanNotRepaid))

/-! ## Failed loans -/

/-- The available and the total balance of a pool. -/
def balances (provider : FlashLoanProvider) (token : H256) : Option (U256 × U256) :=
  (provider.liquidityPools.lookup token).map fun pool => (pool.availableBalance, pool.totalBalance)

/-- The callback fails, or it repays too little. -/
def FallsShort (amount fee : U256) : Except DeFiError U256 → Prop
  | .error _ => True
  | .ok repaid => ∃ due, addU256 amount fee = some due ∧ repaid < due

/-- The loan is given, and the callback falls short. -/
def Defaults (callback : Callback) (provider : FlashLoanProvider) (request : LoanRequest) : Prop :=
  ∃ pool fee callbackResult, provider.liquidityPools.lookup request.token = some pool ∧
    request.amount ≤ pool.availableBalance ∧ provider.loanFee request.amount = some fee ∧
    callback request.borrower request.amount fee request.callbackData = some callbackResult ∧
    FallsShort request.amount fee callbackResult

/-- The state after the loan is given. -/
def lent (provider : FlashLoanProvider) (pool : LiquidityPool) (loan : FlashLoan) :
    FlashLoanProvider :=
  { provider.setPool loan.token
      { pool with availableBalance := pool.availableBalance - loan.amount } with
    activeLoans := provider.activeLoans.insert loan.id loan }

/-- Either the loan is given, or nothing happens. -/
theorem lend_cases (provider : FlashLoanProvider) (request : LoanRequest) (loanId : H256)
    (now : Seconds) :
    (∃ pool fee, provider.liquidityPools.lookup request.token = some pool ∧
      request.amount ≤ pool.availableBalance ∧ provider.loanFee request.amount = some fee ∧
      provider.lend request loanId now
        = (provider.lent pool (newLoan request loanId fee now),
            some (.ok (newLoan request loanId fee now)))) ∨
    (provider.lend request loanId now = (provider, none) ∨
        ∃ error, provider.lend request loanId now = (provider, some (.error error))) ∧
      ∀ pool fee, provider.liquidityPools.lookup request.token = some pool →
        request.amount ≤ pool.availableBalance → provider.loanFee request.amount ≠ some fee := by
  unfold lend
  cases hpool : provider.liquidityPools.lookup request.token with
  | none => exact Or.inr ⟨Or.inr ⟨_, rfl⟩, fun _ _ h => nomatch h⟩
  | some pool =>
    dsimp only
    split
    next hlt =>
      refine Or.inr ⟨Or.inr ⟨_, rfl⟩, fun pool' fee h hle => ?_⟩
      obtain rfl := Option.some.inj h
      exact absurd hle (BitVec.not_le.mpr hlt)
    next hle =>
      have hle := BitVec.not_lt.mp hle
      cases hfee : provider.loanFee request.amount with
      | none => exact Or.inr ⟨Or.inl rfl, fun _ _ _ _ h => nomatch h⟩
      | some fee => exact Or.inl ⟨pool, fee, rfl, hle, rfl, rfl⟩

theorem repay_short {provider : FlashLoanProvider} {loan : FlashLoan}
    {callbackResult : Except DeFiError U256} (h : FallsShort loan.amount loan.fee callbackResult) :
    provider.repay loan callbackResult = (provider, some (.ok false)) := by
  cases callbackResult with
  | error error => rfl
  | ok repaid =>
    obtain ⟨due, hdue, hlt⟩ := h
    show (match addU256 loan.amount loan.fee with | none => _ | some due => _) = _
    rw [hdue]
    exact if_neg (BitVec.not_le.mpr hlt)

/-- The loan is written down, with some status. -/
def Written (provider : FlashLoanProvider) (loan : FlashLoan) : Prop :=
  ∃ status, provider.activeLoans.lookup loan.id = some { loan with status }

variable {provider : FlashLoanProvider}

/-- What `repay` does with a loan that is written down and does not fall short. -/
theorem repay_covered {loan : FlashLoan} {callbackResult : Except DeFiError U256}
    (hwritten : provider.Written loan) (h : ¬ FallsShort loan.amount loan.fee callbackResult) :
    addU256 loan.amount loan.fee = none ∧ provider.repay loan callbackResult = (provider, none) ∨
    ∃ repaid due, callbackResult = .ok repaid ∧ addU256 loan.amount loan.fee = some due ∧
      due ≤ repaid ∧ provider.repay loan callbackResult
        = ((provider.creditPool loan.token repaid loan.fee).1,
            (provider.creditPool loan.token repaid loan.fee).2.map fun _ => .ok true) := by
  obtain ⟨status, hactive⟩ := hwritten
  cases callbackResult with
  | error error => exact absurd trivial h
  | ok repaid =>
    cases hdue : addU256 loan.amount loan.fee with
    | none =>
      refine Or.inl ⟨rfl, ?_⟩
      show (match addU256 loan.amount loan.fee with | none => _ | some due => _) = _
      rw [hdue]
    | some due =>
      have hle : due ≤ repaid := BitVec.not_lt.mp fun hlt => h ⟨due, hdue, hlt⟩
      refine Or.inr ⟨repaid, due, rfl, rfl, hle, ?_⟩
      simp only [repay, completeRepayment, hactive, hdue, if_pos hle,
        if_neg (BitVec.not_lt.mpr hle)]
      rcases provider.creditPool loan.token repaid loan.fee with ⟨credited, _ | _⟩
      · rfl
      · rfl

theorem repay_covered_ne {loan : FlashLoan} {callbackResult : Except DeFiError U256}
    (hwritten : provider.Written loan) (h : ¬ FallsShort loan.amount loan.fee callbackResult) :
    (provider.repay loan callbackResult).2 = none ∨
      (provider.repay loan callbackResult).2 = some (.ok true) := by
  obtain ⟨_, hpanic⟩ | ⟨repaid, _, _, _, _, hrepay⟩ := repay_covered hwritten h
  · exact Or.inl (by rw [hpanic])
  · rw [hrepay]
    cases (provider.creditPool loan.token repaid loan.fee).2 with
    | none => exact Or.inl rfl
    | some _ => exact Or.inr rfl

@[simp] theorem balances_settle (provider : FlashLoanProvider) (loan : FlashLoan)
    (repaymentSuccess : Bool) (now : Seconds) (token : H256) :
    (provider.settle loan repaymentSuccess now).balances token = provider.balances token := by
  unfold settle markLoan
  split
  next => rfl
  next => rfl

theorem written_lent (provider : FlashLoanProvider) (pool : LiquidityPool) (loan : FlashLoan) :
    (provider.lent pool loan).Written loan := ⟨loan.status, AList.lookup_insert _⟩

theorem balances_lent (provider : FlashLoanProvider) (pool : LiquidityPool) (loan : FlashLoan)
    (token : H256) :
    (provider.lent pool loan).balances token
      = if token = loan.token then some (pool.availableBalance - loan.amount, pool.totalBalance)
        else provider.balances token := by
  show ((provider.liquidityPools.insert loan.token _).lookup token).map _ = _
  split
  next htoken =>
    rw [htoken, AList.lookup_insert]
    rfl
  next htoken =>
    rw [AList.lookup_insert_ne htoken]
    rfl

/-- Taking something out of a pool shows. -/
theorem balances_lent_eq_iff {provider : FlashLoanProvider} {pool : LiquidityPool}
    {loan : FlashLoan} (hpool : provider.liquidityPools.lookup loan.token = some pool) :
    (∀ token, (provider.lent pool loan).balances token = provider.balances token) ↔
      loan.amount = 0 := by
  constructor
  · intro h
    have hsame := h loan.token
    rw [balances_lent, if_pos rfl, balances, hpool] at hsame
    have hsub : pool.availableBalance - loan.amount = pool.availableBalance :=
      congrArg Prod.fst (Option.some.inj hsame)
    bv_omega
  · intro hzero token
    rw [balances_lent]
    split
    next htoken =>
      have hsub : pool.availableBalance - loan.amount = pool.availableBalance := by bv_omega
      rw [htoken, balances, hpool, hsub]
      rfl
    next => rfl

/-- A loan that is given and not paid back stays taken. -/
theorem executeLoan_of_defaults {callback : Callback} {request : LoanRequest}
    (h : Defaults callback provider request) (loanId : H256) (started recorded : Seconds) :
    ∃ pool fee, provider.liquidityPools.lookup request.token = some pool ∧
      executeLoan callback provider request loanId started recorded
        = ((provider.lent pool (newLoan request loanId fee started)).settle
            (newLoan request loanId fee started) false recorded,
          some (.error .flashLoanNotRepaid)) := by
  obtain ⟨pool, fee, callbackResult, hpool, hle, hfee, hcallback, hshort⟩ := h
  obtain ⟨pool', fee', hpool', _, hfee', hlend⟩ | ⟨_, hno⟩ :=
    lend_cases provider request loanId started
  · obtain rfl := Option.some.inj (hfee.symm.trans hfee')
    have hrepay := @repay_short (provider.lent pool' (newLoan request loanId fee started))
      (newLoan request loanId fee started) callbackResult hshort
    refine ⟨pool', fee, hpool', ?_⟩
    unfold executeLoan
    rw [hlend]
    show (match callback request.borrower request.amount fee request.callbackData with
      | none => _ | some callbackResult => _) = _
    rw [hcallback]
    dsimp only
    rw [hrepay]
    rfl
  · exact absurd hfee (hno pool fee hpool hle)

/-- Otherwise a call that fails has done nothing. -/
theorem executeLoan_of_not_defaults {callback : Callback}
    {request : LoanRequest} (h : ¬ Defaults callback provider request) {loanId : H256}
    {started recorded : Seconds} {error : DeFiError}
    (herror : (executeLoan callback provider request loanId started recorded).2
      = some (.error error)) :
    (executeLoan callback provider request loanId started recorded).1 = provider := by
  unfold executeLoan at herror ⊢
  obtain ⟨pool, fee, hpool, hle, hfee, hlend⟩ | ⟨hnothing | ⟨_, herror'⟩, _⟩ :=
    lend_cases provider request loanId started
  · -- the loan is given and covered, so the call does not fail
    rw [hlend] at herror
    have hcalled : ∀ callbackResult,
        callback request.borrower request.amount fee request.callbackData = some callbackResult →
          ¬ FallsShort request.amount fee callbackResult :=
      fun callbackResult hcallback hshort =>
        h ⟨pool, fee, callbackResult, hpool, hle, hfee, hcallback, hshort⟩
    dsimp only [newLoan] at herror
    cases hcallback : callback request.borrower request.amount fee request.callbackData with
    | none =>
      rw [hcallback] at herror
      cases herror
    | some callbackResult =>
      rw [hcallback] at herror
      have hcovered := repay_covered_ne
        (provider.written_lent pool (newLoan request loanId fee started))
        (hcalled callbackResult hcallback)
      dsimp only [newLoan] at hcovered herror
      revert herror hcovered
      generalize repay _ _ _ = repaid
      obtain ⟨provider', outcome⟩ := repaid
      intro herror hcovered
      dsimp only at hcovered
      obtain rfl | rfl := hcovered
      · cases herror
      · cases herror
  · rw [hnothing] at herror
    cases herror
  · rw [herror']

/-- A call that fails leaves all pools as they were, unless its loan is given and not paid back. -/
theorem executeLoan_atomic_iff (callback : Callback) (provider : FlashLoanProvider)
    (request : LoanRequest) (loanId : H256) (started recorded : Seconds) :
    ((∃ error, (executeLoan callback provider request loanId started recorded).2
          = some (.error error)) →
        ∀ token, (executeLoan callback provider request loanId started recorded).1.balances token
          = provider.balances token) ↔
      (Defaults callback provider request → request.amount = 0) := by
  by_cases hdefaults : Defaults callback provider request
  · obtain ⟨pool, fee, hpool, hresult⟩ := executeLoan_of_defaults hdefaults loanId started recorded
    have hbalances := @balances_lent_eq_iff provider pool (newLoan request loanId fee started) hpool
    rw [hresult, imp_iff_right hdefaults, imp_iff_right ⟨_, rfl⟩]
    simp only [balances_settle]
    exact hbalances
  · refine iff_of_true ?_ fun h => absurd h hdefaults
    intro ⟨error, herror⟩ token
    rw [executeLoan_of_not_defaults hdefaults herror]

/-! ### A sample -/

/-- A pool of a million, with a fee of 9 basis points. -/
def sampleProvider : FlashLoanProvider :=
  ((new 9).addLiquidity (Vector.replicate 32 1) 1000000).1

/-- A hundred thousand are asked for. -/
def sampleRequest : LoanRequest where
  borrower := Vector.replicate 20 7
  token := Vector.replicate 32 1
  amount := 100000
  callbackData := []

/-- A callback that fails. -/
def failingCallback : Callback := fun _ _ _ _ => some (.error .oracleError)

theorem failedLoan_stays_taken :
    (executeLoan failingCallback sampleProvider sampleRequest (Vector.replicate 32 2)
        ⟨0, by decide⟩ ⟨1, by decide⟩).2 = some (.error .flashLoanNotRepaid) ∧
      sampleProvider.balances (Vector.replicate 32 1) = some (1000000, 1000000) ∧
      (executeLoan failingCallback sampleProvider sampleRequest (Vector.replicate 32 2)
        ⟨0, by decide⟩ ⟨1, by decide⟩).1.balances (Vector.replicate 32 1)
          = some (900000, 1000000) := by decide +kernel

end FlashLoanProvider

end InterBit.Defi
