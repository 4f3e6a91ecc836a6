import InterBit.StateMachine.StateDB

/-!
# A transaction that fails

All error exits of `execute_single_transaction` are in the part that only reads. What it reads may
enter the cache of the `StateDB`, but an account that is loaded into the cache reads as before. So
after an `Err` every account reads as before (`executeSingleTransaction_err_view`), whatever state
the cache, the dirty accounts and the backend are in, also if they disagree.

Both parts are lemmas about programs. One that only reads leaves the view of a `StateDB` as it is
(`exec_view_of_readOnly`), by induction on the program, and `applyChanges` never fails
(`exec_applyChanges`). The error therefore comes from the first part.
-/

namespace InterBit.StateMachine

open InterBit.Lib

namespace StateDB

section Exec

variable {codec : Codec} {evict : StateDB → Address → Account → Eviction} {α β : Type}

/-- Two parts on a `StateDB`. -/
theorem exec_bind (p : Exec α) (f : α → Exec β) : ∀ db : StateDB,
    exec codec evict (p >>= f) db = match exec codec evict p db with
      | (.ok a, db') => exec codec evict (f a) db'
      | (.err e, db') => (.err e, db')
      | (.panicked, db') => (.panicked, db') := by
  induction p with
  | ret a => exact fun _ => rfl
  | fail e => exact fun _ => rfl
  | panic => exact fun _ => rfl
  | read address cont ih => exact fun db => ih _ _
  | write address account cont ih => exact fun db => ih _

/-- Without writes, every account reads as before. -/
theorem exec_view_of_readOnly {p : Exec α} (h : p.ReadOnly) : ∀ db : StateDB,
    (exec codec evict p db).2.view codec = db.view codec := by
  induction p with
  | ret a => exact fun _ => rfl
  | fail e => exact fun _ => rfl
  | panic => exact fun _ => rfl
  | read address cont ih =>
    intro db
    refine (ih _ (h _) _).trans ?_
    rw [view_getAccount]
  | write address account cont _ => exact h.elim

/-- The loop that applies the state changes has no error exit. -/
theorem exec_applyChanges (entries : List (Sigma fun _ : Address => Account)) : ∀ db : StateDB,
    (exec codec evict (applyChanges entries) db).1 = .ok () := by
  induction entries with
  | nil => exact fun _ => rfl
  | cons entry entries ih => exact fun db => ih _

end Exec

/-- If `execute_single_transaction` returns an error, no account reads differently afterwards. -/
theorem executeSingleTransaction_err_view (codec : Codec)
    (evict : StateDB → Address → Account → Eviction) (env : Env)
    (order : IterOrder (Sigma fun _ : Address => Account)) (tx : Transaction) (db : StateDB)
    {e : StateMachineError}
    (h : (exec codec evict (executeSingleTransaction env order tx) db).1 = .err e) :
    (exec codec evict (executeSingleTransaction env order tx) db).2.view codec
      = db.view codec := by
  have hread := @exec_view_of_readOnly codec evict _ _ (prepareTransaction_readOnly env tx) db
  unfold executeSingleTransaction at h ⊢
  rw [exec_bind] at h ⊢
  match hprepare : exec codec evict (prepareTransaction env tx) db with
  | (.err e', db') =>
    rw [hprepare] at hread
    exact hread
  | (.panicked, db') =>
    rw [hprepare] at hread
    exact hread
  | (.ok (stateChanges, receipt), db') =>
    -- from here on there are only writes, and the call returns a receipt
    have hwrites := @exec_applyChanges codec evict (order.arrange stateChanges.entries) db'
    rw [hprepare] at h
    dsimp only at h
    rw [exec_bind] at h
    match hrest : exec codec evict (applyChanges (order.arrange stateChanges.entries)) db' with
    | (.ok _, db'') =>
      rw [hrest] at h
      cases h
    | (.err e', db'') =>
      rw [hrest] at hwrites
      cases hwrites
    | (.panicked, db'') =>
      rw [hrest] at hwrites
      cases hwrites

/-- Nothing evicted. -/
def keepAll : StateDB → Address → Account → Eviction :=
  fun _ _ _ => { order := sampleOrder, coin := fun _ => false }

/-- Alice's account and a contract of Bob's, both in the backend only. -/
def storedContract : StateDB :=
  new ((Backend.put (fun _ => none) (accountKey alice)
      (sampleSerialize { (default : Account) with balance := 100000 })).put (accountKey bob)
    (sampleSerialize { (default : Account) with codeHash := some (.replicate 32 9) }))

/-- The gas of the contract is over the limit, which comes out after Alice's copy was debited; both
accounts are in the cache by then. -/
theorem executeSingleTransaction_err_view_contract :
    (exec sampleCodec keepAll (executeSingleTransaction sampleEnv sampleOrder
        (sampleTransfer alice bob 5)) storedContract).2.view sampleCodec
      = storedContract.view sampleCodec :=
  executeSingleTransaction_err_view (e := .gasLimitExceeded) sampleCodec keepAll sampleEnv
    sampleOrder (sampleTransfer alice bob 5) storedContract (by decide +kernel)

end StateDB

end InterBit.StateMachine
