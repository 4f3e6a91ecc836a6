import InterBit.Defi.FlashLoan
import InterBit.Defi.PerpetualLocks

/-!
# The locks of the flash loans

The calls of `defi/flash_loan.rs` with their guards. A loan takes the pools before the active loans
when it starts, and the active loans before the pools when it is paid back, so a loan that starts
and one that is paid back can wait for each other. `no_circle_unless_crossed` says this of both
protocols.
-/

namespace InterBit.Defi

open InterBit.Lib

/-- The locks of `FlashLoanProvider`. -/
inductive FlashLoanLock where
  | liquidityPools
  | activeLoans
  | loanHistory
  deriving DecidableEq

/-- A call that takes the locks one after another. -/
abbrev FlashLoanProvider.Call := Routine FlashLoanLock FlashLoanProvider

/-- A call of the provider, with what it draws and reads and the callback. -/
inductive FlashLoanCall where
  | executeLoan (callback : Callback) (request : LoanRequest) (loanId : H256)
      (started recorded : Seconds)
  | addLiquidity (token : H256) (amount : U256)
  | removeLiquidity (token : H256) (amount : U256)

/-- The call gives a loan. -/
def FlashLoanCall.Lends : FlashLoanCall → Prop
  | .executeLoan .. => True
  | _ => False

/-- What a call of the provider returns. -/
inductive FlashLoanAnswer where
  | executed (result : Except DeFiError H256)
  | added (result : Except DeFiError Unit)
  | removed (result : Except DeFiError Unit)

namespace FlashLoanProvider

/-! ## The calls with their guards -/

/-- The amount of a loan leaves its pool. -/
def takeOut (provider : FlashLoanProvider) (loan : FlashLoan) : FlashLoanProvider :=
  match provider.liquidityPools.lookup loan.token with
  | none => provider
  | some pool =>
    provider.setPool loan.token
      { pool with availableBalance := pool.availableBalance - loan.amount }

/-- What `execute_loan` does before the callback. -/
def lendLocked (request : LoanRequest) (loanId : H256) (now : Seconds) :
    Call (Except DeFiError FlashLoan) :=
  .acquire ⟨.liquidityPools, .write⟩ do
    match ← .orPanic (← .get fun provider => (provider.lend request loanId now).2) with
    | .error error => .release ⟨.liquidityPools, .write⟩ (.ret (.error error))
    | .ok loan => do
      .modify (·.takeOut loan)
      .acquire ⟨.activeLoans, .write⟩ do
        .modify fun provider =>
          { provider with activeLoans := provider.activeLoans.insert loan.id loan }
        .release ⟨.liquidityPools, .write⟩ (.release ⟨.activeLoans, .write⟩ (.ret (.ok loan)))

/-- `complete_repayment`. -/
def completeRepaymentLocked (loanId : H256) (repaidAmount : U256) : Call (Except DeFiError Unit) :=
  .guarded ⟨.activeLoans, .read⟩ do
    match ← .get (·.activeLoans.lookup loanId) with
    | none => return .error .positionNotFound
    | some loan => do
      let expectedRepayment ← .orPanic (addU256 loan.amount loan.fee)
      if repaidAmount < expectedRepayment then return .error .flashLoanNotRepaid
      else
        .guarded ⟨.liquidityPools, .write⟩ do
          .perform (·.creditPool loan.token repaidAmount loan.fee)
          return .ok ()

/-- What `execute_loan` does with what the callback returns. -/
def repayLocked (loan : FlashLoan) (callbackResult : Except DeFiError U256) :
    Call (Except DeFiError Bool) :=
  match callbackResult with
  | .error _ => return .ok false
  | .ok repaidAmount => do
    let due ← .orPanic (addU256 loan.amount loan.fee)
    if due ≤ repaidAmount then do
      let repaid ← completeRepaymentLocked loan.id repaidAmount
      return repaid.map fun _ => true
    else return .ok false

/-- What `execute_loan` writes down at its end. -/
def settleLocked (loan : FlashLoan) (repaymentSuccess : Bool) (now : Seconds) : Call Unit :=
  .guarded ⟨.activeLoans, .write⟩ do
    .modify (·.markLoan loan.id repaymentSuccess)
    .guarded ⟨.loanHistory, .write⟩ (.modify (·.recordLoan loan repaymentSuccess now))

/-- `execute_loan`. -/
def executeLoanLocked (callback : Callback) (request : LoanRequest) (loanId : H256)
    (started recorded : Seconds) : Call (Except DeFiError H256) := do
  match ← lendLocked request loanId started with
  | .error error => return .error error
  | .ok loan => do
    -- The callback runs without a guard.
    let called := callback loan.borrower loan.amount loan.fee loan.callbackData
    match ← repayLocked loan (← .orPanic called) with
    | .error error => return .error error
    | .ok repaymentSuccess => do
      settleLocked loan repaymentSuccess recorded
      return if repaymentSuccess then .ok loanId else .error .flashLoanNotRepaid

/-- `add_liquidity`. -/
def addLiquidityLocked (token : H256) (amount : U256) : Call (Except DeFiError Unit) :=
  .guarded ⟨.liquidityPools, .write⟩ (.perform (·.addLiquidity token amount))

/-- `remove_liquidity`. -/
def removeLiquidityLocked (token : H256) (amount : U256) : Call (Except DeFiError Unit) :=
  .guarded ⟨.liquidityPools, .write⟩ (.perform (·.removeLiquidity token amount))

/-! ## The calls without their guards -/

/-- With re-entrant locks the sections of the lending half are the call. -/
theorem lend_reentrant (provider : FlashLoanProvider) (request : LoanRequest) (loanId : H256)
    (now : Seconds) : (lendLocked request loanId now).reentrant provider
      = Routine.ended (provider.lend request loanId now) := by
  unfold lendLocked
  simp only [Routine.reentrant_acquire, Routine.reentrant_bind, Routine.reentrant_get,
    Routine.andThen, Routine.reentrant_orPanic]
  obtain ⟨pool, fee, hpool, _, _, hlend⟩ | ⟨hlend | ⟨error, hlend⟩, _⟩ :=
    lend_cases provider request loanId now
  · rw [hlend]
    have htaken : provider.takeOut (newLoan request loanId fee now)
        = provider.setPool request.token
            { pool with availableBalance := pool.availableBalance - request.amount } := by
      unfold takeOut
      rw [show provider.liquidityPools.lookup (newLoan request loanId fee now).token = some pool
        from hpool]
      rfl
    simp only [Routine.ended, Routine.reentrant_bind, Routine.reentrant_modify, Routine.andThen,
      Routine.reentrant_acquire, htaken]
    rfl
  · rw [hlend]
    rfl
  · rw [hlend]
    rfl

theorem completeRepayment_reentrant (provider : FlashLoanProvider) (loanId : H256)
    (repaidAmount : U256) : (completeRepaymentLocked loanId repaidAmount).reentrant provider
      = Routine.ended (provider.completeRepayment loanId repaidAmount) := by
  unfold completeRepaymentLocked completeRepayment
  simp only [Routine.reentrant_guarded, Routine.reentrant_bind, Routine.reentrant_get,
    Routine.andThen]
  cases provider.activeLoans.lookup loanId with
  | none => rfl
  | some loan =>
    simp only [Routine.reentrant_bind, Routine.reentrant_orPanic]
    cases addU256 loan.amount loan.fee with
    | none => rfl
    | some expectedRepayment =>
      dsimp only [Routine.ended, Routine.andThen]
      split
      next => rfl
      next =>
        simp only [Routine.reentrant_guarded, Routine.reentrant_bind, Routine.reentrant_perform]
        rcases provider.creditPool loan.token repaidAmount loan.fee with ⟨credited, _ | _⟩
        · rfl
        · rfl

theorem repay_reentrant (provider : FlashLoanProvider) (loan : FlashLoan)
    (callbackResult : Except DeFiError U256) : (repayLocked loan callbackResult).reentrant provider
      = Routine.ended (provider.repay loan callbackResult) := by
  unfold repayLocked repay
  cases callbackResult with
  | error error => rfl
  | ok repaidAmount =>
    simp only [Routine.reentrant_bind, Routine.reentrant_orPanic]
    cases addU256 loan.amount loan.fee with
    | none => rfl
    | some due =>
      dsimp only [Routine.ended, Routine.andThen]
      split
      next =>
        rw [Routine.reentrant_bind, completeRepayment_reentrant]
        rcases provider.completeRepayment loan.id repaidAmount with ⟨completed, _ | error | _⟩
        · rfl
        · rfl
        · rfl
      next => rfl

theorem executeLoan_reentrant (callback : Callback) (provider : FlashLoanProvider)
    (request : LoanRequest) (loanId : H256) (started recorded : Seconds) :
    (executeLoanLocked callback request loanId started recorded).reentrant provider
      = Routine.ended (executeLoan callback provider request loanId started recorded) := by
  unfold executeLoanLocked executeLoan
  rw [Routine.reentrant_bind, lend_reentrant]
  rcases provider.lend request loanId started with ⟨lentProvider, _ | error | loan⟩
  · rfl
  · rfl
  · dsimp only [Routine.ended, Routine.andThen]
    rw [Routine.reentrant_bind, Routine.reentrant_orPanic]
    cases callback loan.borrower loan.amount loan.fee loan.callbackData with
    | none => rfl
    | some callbackResult =>
      dsimp only [Routine.ended, Routine.andThen]
      rw [Routine.reentrant_bind, repay_reentrant]
      rcases lentProvider.repay loan callbackResult with ⟨repaidProvider, _ | error | success⟩
      · rfl
      · rfl
      · rfl

end FlashLoanProvider

/-- The call as it runs. -/
def FlashLoanCall.routine : FlashLoanCall → FlashLoanProvider.Call FlashLoanAnswer
  | .executeLoan callback request loanId started recorded =>
    .executed <$>
      FlashLoanProvider.executeLoanLocked callback request loanId started recorded
  | .addLiquidity token amount => .added <$> FlashLoanProvider.addLiquidityLocked token amount
  | .removeLiquidity token amount =>
    .removed <$> FlashLoanProvider.removeLiquidityLocked token amount

namespace FlashLoanProvider

/-! ## What each call takes -/

/-- What a call holds when it asks for a lock. -/
inductive Asking : FlashLoanCall → List (Guard FlashLoanLock) → Guard FlashLoanLock → Prop
  | pools {call} : Asking call [] ⟨.liquidityPools, .write⟩
  | lent {call} : call.Lends → Asking call [⟨.liquidityPools, .write⟩] ⟨.activeLoans, .write⟩
  | repay {call} : Asking call [] ⟨.activeLoans, .read⟩
  | repayPools {call} : call.Lends →
      Asking call [⟨.activeLoans, .read⟩] ⟨.liquidityPools, .write⟩
  | settle {call} : Asking call [] ⟨.activeLoans, .write⟩
  | record {call} : Asking call [⟨.activeLoans, .write⟩] ⟨.loanHistory, .write⟩

variable {call : FlashLoanCall}

theorem follows_lend (hlends : call.Lends) (request : LoanRequest) (loanId : H256) (now : Seconds) :
    (lendLocked request loanId now).Follows (Asking call) [] [] := by
  refine ⟨.pools, (Routine.follows_get _ _).bind fun _ => ?_⟩
  refine (Routine.follows_orPanic _ _).bind fun checked => ?_
  cases checked with
  | error error => rfl
  | ok loan =>
    refine (Routine.follows_modify _ _).bind fun _ => ⟨.lent hlends, ?_⟩
    exact (Routine.follows_modify _ _).bind fun _ => rfl

theorem follows_completeRepayment (hlends : call.Lends) (loanId : H256) (repaidAmount : U256) :
    (completeRepaymentLocked loanId repaidAmount).Follows (Asking call) [] [] := by
  refine Routine.follows_guarded .repay ((Routine.follows_get _ _).bind fun found => ?_)
  cases found with
  | none => rfl
  | some loan =>
    refine (Routine.follows_orPanic _ _).bind fun _ => ?_
    split
    next => rfl
    next =>
      exact Routine.follows_guarded (.repayPools hlends)
        ((Routine.follows_perform _ _).bind fun _ => rfl)

/-- A loan is lent and repaid, one after the other. -/
theorem follows_executeLoan {call : FlashLoanCall} (hlends : call.Lends) (callback : Callback)
    (request : LoanRequest) (loanId : H256) (started recorded : Seconds) :
    (executeLoanLocked callback request loanId started recorded).Follows (Asking call) [] [] := by
  refine (follows_lend hlends request loanId started).bind fun lent => ?_
  cases lent with
  | error error => rfl
  | ok loan =>
    refine (Routine.follows_orPanic _ _).bind fun callbackResult => ?_
    have hrepay : (repayLocked loan callbackResult).Follows (Asking call) [] [] := by
      cases callbackResult with
      | error error => rfl
      | ok repaidAmount =>
        refine (Routine.follows_orPanic _ _).bind fun _ => ?_
        split
        next => exact (follows_completeRepayment hlends loan.id repaidAmount).bind fun _ => rfl
        next => rfl
    refine hrepay.bind fun repaid => ?_
    cases repaid with
    | error error => rfl
    | ok repaymentSuccess =>
      have hsettle : (settleLocked loan repaymentSuccess recorded).Follows (Asking call) [] [] := by
        refine Routine.follows_guarded .settle ((Routine.follows_modify _ _).bind fun _ => ?_)
        exact Routine.follows_guarded .record (Routine.follows_modify _ _)
      exact hsettle.bind fun _ => rfl

/-- Every call follows its table. -/
theorem follows_routine (call : FlashLoanCall) : call.routine.Follows (Asking call) [] [] := by
  cases call with
  | executeLoan callback request loanId started recorded =>
    exact (@follows_executeLoan (.executeLoan callback request loanId started recorded) trivial
      callback request loanId started recorded).bind fun _ => rfl
  | addLiquidity token amount =>
    exact (Routine.follows_guarded .pools (Routine.follows_perform _ _)).bind fun _ => rfl
  | removeLiquidity token amount =>
    exact (Routine.follows_guarded .pools (Routine.follows_perform _ _)).bind fun _ => rfl

/-! ## Circles -/

/-- The order in which the locks are taken, but for a repayment. -/
def rank : FlashLoanLock → Nat
  | .liquidityPools => 0
  | .activeLoans => 1
  | .loanHistory => 2

/-- Who asks for a lock that is not above one that it holds pays a loan back. -/
theorem Asking.falls {held : List (Guard FlashLoanLock)} {asked guard : Guard FlashLoanLock}
    (h : Asking call held asked) (hguard : guard ∈ held)
    (hrank : rank asked.lock ≤ rank guard.lock) :
    call.Lends ∧ guard = ⟨.activeLoans, .read⟩ ∧ asked = ⟨.liquidityPools, .write⟩ := by
  cases h with
  | pools | repay | settle => cases hguard
  | lent | record =>
    obtain rfl := List.mem_singleton.mp hguard
    exact absurd hrank (Nat.not_succ_le_self _)
  | repayPools hlends => exact ⟨hlends, List.mem_singleton.mp hguard, rfl⟩

/-- Who holds the pools and asks for more starts a loan. -/
theorem Asking.holds_pools {held : List (Guard FlashLoanLock)} {asked guard : Guard FlashLoanLock}
    (h : Asking call held asked) (hguard : guard ∈ held) (hlock : guard.lock = .liquidityPools) :
    call.Lends ∧ guard = ⟨.liquidityPools, .write⟩ ∧ asked = ⟨.activeLoans, .write⟩ := by
  cases h with
  | pools | repay | settle => cases hguard
  | lent hlends => exact ⟨hlends, List.mem_singleton.mp hguard, rfl⟩
  | repayPools | record =>
    obtain rfl := List.mem_singleton.mp hguard
    cases hlock

section Circles

variable {ι : Type} [DecidableEq ι]

/-- Calls of the provider, with what is left of them. -/
abbrev Calls (ι : Type) := Config ι FlashLoanLock FlashLoanProvider FlashLoanAnswer

/-- A loan that is paid back asks for the pools and holds the active loans, and a loan that starts
asks for these and holds the pools. -/
inductive Crossed (calls : ι → FlashLoanCall) (c : Calls ι) : Prop
  | two {i j : ι} :
      (calls i).Lends → c.Stuck i ⟨.activeLoans, .read⟩ ⟨.liquidityPools, .write⟩ →
      (calls j).Lends → c.Stuck j ⟨.liquidityPools, .write⟩ ⟨.activeLoans, .write⟩ →
      Crossed calls c

variable {calls : ι → FlashLoanCall}

/-- Loans that cross wait for each other for ever. -/
theorem Crossed.circular {c : Calls ι} (h : Crossed calls c) : Config.Circular c.Waits := by
  obtain ⟨_, hrepaid, _, hlent⟩ := h
  have hij := hrepaid.waits hlent not_admits_write
  exact ⟨_, (Relation.TransGen.single hij).tail (hlent.waits hrepaid not_admits_write)⟩

theorem crossed_of_circular {c : Calls ι} (hordered : c.Ordered fun i => Asking (calls i))
    (h : Config.Circular c.MayWait) :
    Crossed calls c := by
  obtain ⟨i, asked, guard, hi, hstuck, hasking, hrank⟩ := hordered.exists_fall rank h
  obtain ⟨hlends, rfl, rfl⟩ := hasking.falls hstuck.1 hrank
  -- The next one holds the pools.
  obtain ⟨j, asked', guard', hj, hasks', _, hguard', hlock'⟩ := hordered.next_on_circle hi
  obtain rfl := Option.some.inj (hstuck.2.symm.trans hasks')
  obtain ⟨_, asked, _, _, hasks, hasking', _, _⟩ := hordered.next_on_circle hj
  obtain ⟨hlends', rfl, rfl⟩ := hasking'.holds_pools hguard' hlock'
  exact .two hlends hstuck hlends' ⟨hguard', hasks⟩

/-- The calls from the start, on some provider. -/
def begin (calls : ι → FlashLoanCall) (provider : FlashLoanProvider) : Calls ι :=
  Config.start provider fun i => (calls i).routine

/-- The step does not give a loan the pools while another one reads the active loans, and it does
not let a loan read the active loans while another one has the pools. -/
def Apart (calls : ι → FlashLoanCall) (c : Calls ι) (i : ι) : Prop :=
  (calls i).Lends →
    (c.asks i = some ⟨.liquidityPools, .write⟩ →
      ∀ j, j ≠ i → (calls j).Lends → ⟨.activeLoans, .read⟩ ∉ c.held j) ∧
    (c.asks i = some ⟨.activeLoans, .read⟩ →
      ∀ j, j ≠ i → (calls j).Lends → ⟨.liquidityPools, .write⟩ ∉ c.held j)

/-- No loan reads the active loans while another one has the pools. -/
def Separate (calls : ι → FlashLoanCall) (c : Calls ι) : Prop :=
  ∀ i j, i ≠ j → (calls i).Lends → (calls j).Lends → ⟨.activeLoans, .read⟩ ∈ c.held i →
    ⟨.liquidityPools, .write⟩ ∉ c.held j

theorem Separate.step {calls : ι → FlashLoanCall} {c c' : Calls ι} {k : ι} {o : Unit}
    (h : Separate calls c) (hapart : Apart calls c k) (hstep : c.step k = some (c', o)) :
    Separate calls c' := by
  intro i j hne hlends hlends' hloans hpools
  obtain hloans | ⟨rfl, hasks⟩ := Config.mem_held_of_step hstep hloans
  · obtain hpools | ⟨rfl, hasks⟩ := Config.mem_held_of_step hstep hpools
    · exact h i j hne hlends hlends' hloans hpools
    · exact (hapart hlends').1 hasks i hne hlends hloans
  · obtain hpools | ⟨rfl, _⟩ := Config.mem_held_of_step hstep hpools
    · exact (hapart hlends).2 hasks j hne.symm hlends' hpools
    · exact hne rfl

/-- Separate calls are not crossed. -/
theorem Separate.not_crossed {c : Calls ι} (h : Separate calls c) : ¬ Crossed calls c := by
  rintro ⟨hlends, hrepaid, hlends', hlent⟩
  refine h _ _ ?_ hlends hlends' hrepaid.1 hlent.1
  rintro rfl
  cases hrepaid.2.symm.trans hlent.2

/-- The same as for the perpetual contracts. -/
theorem circular_iff (calls : ι → FlashLoanCall) (provider : FlashLoanProvider) :
    (∀ is c, Run Config.step (fun _ _ => True) (begin calls provider) is c →
      (Config.Circular c.Waits ↔ Crossed calls c) ∧
        (Config.Circular c.MayWait ↔ Crossed calls c)) ∧
    ∀ is c, Run Config.step (Apart calls) (begin calls provider) is c →
      ¬ Config.Circular c.Waits ∧ ¬ Config.Circular c.MayWait := by
  refine Config.circular_iff_of_ordered (Config.ordered_start fun i => follows_routine (calls i))
    (fun _ => crossed_of_circular) (fun _ => Crossed.circular) ?_
    (fun _ _ _ _ => Separate.step) fun _ _ => Separate.not_crossed
  intro _ _ _ _ _ hheld
  cases hheld

end Circles

/-! ### A sample -/

/-- Two loans from one pool. -/
def sampleLoans : Fin 2 → FlashLoanCall
  | 0 => .executeLoan executeCallback sampleRequest (Vector.replicate 32 2) (.ofNat 0)
      (.ofNat 1)
  | 1 => .executeLoan executeCallback sampleRequest (Vector.replicate 32 3) (.ofNat 0)
      (.ofNat 1)

/-- The first loan is given and reads the active loans to be paid back, and the second one has
taken the pools in the meantime. -/
def sampleCrossing : List (Fin 2) := [0, 0, 0, 0, 0, 0, 0, 0, 0, 1, 1, 1]

theorem loans_cross :
    ∃ c, Run Config.step (fun _ _ => True) (begin sampleLoans sampleProvider) sampleCrossing c ∧
      Config.Circular c.Waits := by
  have hsome : (replay Config.step (begin sampleLoans sampleProvider)
      sampleCrossing).isSome := by decide +kernel
  refine ⟨_, run_of_replay (Option.some_get hsome).symm, ?_⟩
  refine (@Crossed.two _ _ sampleLoans _ 0 1 trivial ⟨?_, ?_⟩ trivial ⟨?_, ?_⟩).circular
  all_goals decide +revert +kernel

end FlashLoanProvider

/-- Whatever the calls on an engine and on a provider and however they interleave, they wait for
each other in a circle exactly if they have crossed. As long as no step brings them to that, there
is no circle. -/
theorem no_circle_unless_crossed {ι κ : Type} [DecidableEq ι] [DecidableEq κ] (env : Env)
    (calls : ι → PerpetualCall) (engine : PerpetualEngine) (loans : κ → FlashLoanCall)
    (provider : FlashLoanProvider) :
    ((∀ is c, Run Config.step (fun _ _ => True) (PerpetualEngine.begin env calls engine) is c →
        (Config.Circular c.Waits ↔ PerpetualEngine.Crossed calls c) ∧
          (Config.Circular c.MayWait ↔ PerpetualEngine.Crossed calls c)) ∧
      ∀ is c, Run Config.step (PerpetualEngine.Apart calls)
          (PerpetualEngine.begin env calls engine) is c →
        ¬ Config.Circular c.Waits ∧ ¬ Config.Circular c.MayWait) ∧
    (∀ ks c, Run Config.step (fun _ _ => True) (FlashLoanProvider.begin loans provider) ks c →
        (Config.Circular c.Waits ↔ FlashLoanProvider.Crossed loans c) ∧
          (Config.Circular c.MayWait ↔ FlashLoanProvider.Crossed loans c)) ∧
      ∀ ks c, Run Config.step (FlashLoanProvider.Apart loans)
          (FlashLoanProvider.begin loans provider) ks c →
        ¬ Config.Circular c.Waits ∧ ¬ Config.Circular c.MayWait :=
  ⟨PerpetualEngine.circular_iff env calls engine, FlashLoanProvider.circular_iff loans provider⟩

/-- One call that opens a position waits for itself, and two loans from one pool for each other. -/
theorem opening_and_loans_cross :
    (∃ is c, Run Config.step (fun _ _ => True) (PerpetualEngine.begin PerpetualEngine.sampleEnv
        PerpetualEngine.sampleOpening PerpetualEngine.sampleEngine) is c ∧
      Config.Circular c.Waits) ∧
    ∃ ks c, Run Config.step (fun _ _ => True) (FlashLoanProvider.begin
        FlashLoanProvider.sampleLoans FlashLoanProvider.sampleProvider) ks c ∧
      Config.Circular c.Waits :=
  ⟨PerpetualEngine.opening_waits_for_itself,
    ⟨FlashLoanProvider.sampleCrossing, FlashLoanProvider.loans_cross⟩⟩

end InterBit.Defi
