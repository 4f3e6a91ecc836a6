import InterBit.Lib.Run
import InterBit.StateMachine.StateDB

/-!
# `commit` and `set_account` in parallel

`commit` writes the dirty accounts to the backend under a read guard, drops the guard,
and then takes the write lock to clear the map. A `set_account` that was waiting for the
lock gets it in between, and the clear throws its account away (`lateSet`).

Up to the clear the newest account is always the one set last (`Current`), so that
`commit_keeps_updates` can say exactly when nothing is lost: when all that is still
dirty at the clear is in the backend.
-/

namespace InterBit.StateMachine

open InterBit.Lib

/-- Where `commit` is. -/
inductive CommitPhase where
  | idle
  /-- It holds the read guard; nothing is written. -/
  | guarded
  /-- The batch is written. -/
  | written
  /-- The block is recorded. -/
  | recorded
  /-- The guard is dropped. -/
  | released
  /-- It has returned. -/
  | returned
  deriving DecidableEq

/-- No write lock on the dirty map is given out. -/
def CommitPhase.guards : CommitPhase → Bool
  | .guarded | .written | .recorded => true
  | _ => false

/-- A store, a commit, and threads that set accounts. -/
structure CommitSys (T : Type) where
  db : StateDB
  commit : CommitPhase
  /-- The account that a thread has cached, and not yet put into the dirty map. -/
  setting : T → Option (Address × Account)
  /-- The account that was last put into the dirty map at each address. -/
  last : Accounts

/-- One access. -/
inductive CommitAction (T : Type) where
  | beginSet (i : T) (address : Address) (account : Account)
  | insertDirty (i : T) (eviction : Eviction)
  | takeGuard
  | writeBatch (orders : CommitOrders)
  | recordBlock (blockHash : H256)
  | dropGuard
  | clear
  /-- A write fails, and `commit` returns the error. -/
  | fail

namespace CommitSys

variable {T : Type}

/-- A store before the commit. -/
def init (db : StateDB) : CommitSys T :=
  { db, commit := .idle, setting := fun _ => none, last := fun _ => none }

variable [DecidableEq T] (codec : Codec)

/-- The second half of `set_account`, under the write lock. -/
def insertDirty (db : StateDB) (address : Address) (account : Account) (eviction : Eviction) :
    StateDB :=
  let db := { db with dirtyAccounts := db.dirtyAccounts.insert address account }
  if db.accounts.keys.length > db.cacheSize then db.evictCache eviction else db

/-- One action. -/
def step (s : CommitSys T) : CommitAction T → Option (CommitSys T × Unit)
  | .beginSet i address account =>
    match s.setting i with
    | none =>
      some ({ s with
        db.accounts := s.db.accounts.insert address account
        setting := Function.update s.setting i (some (address, account)) }, ())
    | some _ => none
  | .insertDirty i eviction =>
    match s.setting i with
    | some (address, account) =>
      if s.commit.guards then none
      else
        some ({ s with
          db := insertDirty s.db address account eviction
          setting := Function.update s.setting i none
          last := Function.update s.last address (some account) }, ())
    | none => none
  | .takeGuard => if s.commit = .idle then some ({ s with commit := .guarded }, ()) else none
  | .writeBatch orders =>
    if s.commit = .guarded then
      some ({ s with
        commit := .written
        db.backend := s.db.backend.batchPut (s.db.commitBatch codec orders) }, ())
    else none
  | .recordBlock blockHash =>
    if s.commit = .written then
      some ({ s with
        commit := .recorded
        db.backend := s.db.backend.put (blockKey blockHash) blockHash.toList }, ())
    else none
  | .dropGuard => if s.commit = .recorded then some ({ s with commit := .released }, ()) else none
  | .clear =>
    if s.commit = .released then
      some ({ s with commit := .returned, db.dirtyAccounts := ∅ }, ())
    else none
  | .fail =>
    if s.commit = .guarded ∨ s.commit = .written then
      some ({ s with commit := .returned }, ())
    else none

/-- The account last set at an address is in the backend or dirty. -/
def Kept (s : CommitSys T) : Prop :=
  ∀ address account, s.last address = some account →
    s.db.backend.loadAccount codec address = some account ∨
      s.db.dirtyAccounts.lookup address = some account

/-- The condition on an action: at the clear, the backend has all dirty accounts. -/
def CleanClear (s : CommitSys T) : CommitAction T → Prop
  | .clear => ∀ address account, s.db.dirtyAccounts.lookup address = some account →
      s.db.backend.loadAccount codec address = some account
  | _ => True

/-- What an action can do. -/
inductive Moves (s : CommitSys T) : CommitAction T → CommitSys T → Prop
  | beginSet {i : T} {address : Address} {account : Account} :
      Moves s (.beginSet i address account) { s with
        db.accounts := s.db.accounts.insert address account
        setting := Function.update s.setting i (some (address, account)) }
  | insertDirty {i : T} {eviction : Eviction} {address : Address} {account : Account} :
      s.commit.guards = false →
      Moves s (.insertDirty i eviction) { s with
        db := CommitSys.insertDirty s.db address account eviction
        setting := Function.update s.setting i none
        last := Function.update s.last address (some account) }
  | takeGuard : s.commit = .idle → Moves s .takeGuard { s with commit := .guarded }
  | writeBatch {orders : CommitOrders} : s.commit = .guarded →
      Moves s (.writeBatch orders) { s with
        commit := .written
        db.backend := s.db.backend.batchPut (s.db.commitBatch codec orders) }
  | recordBlock {blockHash : H256} : s.commit = .written →
      Moves s (.recordBlock blockHash) { s with
        commit := .recorded
        db.backend := s.db.backend.put (blockKey blockHash) blockHash.toList }
  | dropGuard : s.commit = .recorded → Moves s .dropGuard { s with commit := .released }
  | clear : s.commit = .released →
      Moves s .clear { s with commit := .returned, db.dirtyAccounts := ∅ }
  | fail : Moves s .fail { s with commit := .returned }

variable {codec} {s s' : CommitSys T} {a : CommitAction T} {o : Unit}

theorem moves_of_step (h : s.step codec a = some (s', o)) : s.Moves codec a s' := by
  cases a with
  | beginSet i address account =>
    simp only [step] at h
    split at h <;> cases h
    exact .beginSet
  | insertDirty i eviction =>
    simp only [step] at h
    split at h
    next =>
      split at h <;> cases h
      next hguard => exact .insertDirty (Bool.not_eq_true _ ▸ hguard)
    next => cases h
  | takeGuard =>
    simp only [step] at h
    split at h <;> cases h
    next hphase => exact .takeGuard hphase
  | writeBatch orders =>
    simp only [step] at h
    split at h <;> cases h
    next hphase => exact .writeBatch hphase
  | recordBlock blockHash =>
    simp only [step] at h
    split at h <;> cases h
    next hphase => exact .recordBlock hphase
  | dropGuard =>
    simp only [step] at h
    split at h <;> cases h
    next hphase => exact .dropGuard hphase
  | clear =>
    simp only [step] at h
    split at h <;> cases h
    next hphase => exact .clear hphase
  | fail =>
    simp only [step] at h
    split at h <;> cases h
    exact .fail

/-- Setting an account changes the dirty map at its address. -/
theorem insertDirty_eq (db : StateDB) (address : Address) (account : Account)
    (eviction : Eviction) :
    (insertDirty db address account eviction).dirtyAccounts
        = db.dirtyAccounts.insert address account ∧
      (insertDirty db address account eviction).backend = db.backend := by
  rw [insertDirty]
  dsimp only
  split
  next => exact ⟨rfl, rfl⟩
  next => exact ⟨rfl, rfl⟩

theorem newest_insertDirty (db : StateDB) (address : Address) (account : Account)
    (eviction : Eviction) :
    (insertDirty db address account eviction).newest codec
      = Function.update (db.newest codec) address (some account) := by
  obtain ⟨hdirty, hbackend⟩ := insertDirty_eq db address account eviction
  funext a
  rw [StateDB.newest, hdirty, hbackend]
  by_cases ha : a = address
  · rw [ha, Function.update_self, AList.lookup_insert, Option.some_or]
  · rw [Function.update_of_ne ha, AList.lookup_insert_ne ha]
    rfl

/-- The account last set at an address is the newest one there. -/
def Current (codec : Codec) (s : CommitSys T) : Prop :=
  ∀ address account, s.last address = some account →
    s.db.newest codec address = some account

omit [DecidableEq T] in
theorem Current.kept (h : s.Current codec) : s.Kept codec := by
  intro address account hlast
  have hnewest := h address account hlast
  unfold StateDB.newest at hnewest
  cases hdirty : s.db.dirtyAccounts.lookup address with
  | some dirty =>
    rw [hdirty, Option.some_or] at hnewest
    exact Or.inr hnewest
  | none =>
    rw [hdirty, Option.none_or] at hnewest
    exact Or.inl hnewest

/-- The newest account stays the one that was set last, if the clear is clean. -/
theorem Current.step (h : s.Current codec) (he : s.step codec a = some (s', o))
    (hok : s.CleanClear codec a) : s'.Current codec := by
  cases moves_of_step he with
  | beginSet => exact h
  | insertDirty _ =>
    rename_i address account _
    intro b x hlast
    dsimp only at hlast ⊢
    rw [newest_insertDirty]
    by_cases hb : b = address
    · rw [hb, Function.update_self] at hlast ⊢
      exact hlast
    · rw [Function.update_of_ne hb] at hlast ⊢
      exact h b x hlast
  | takeGuard _ => exact h
  | writeBatch _ =>
    intro b x hlast
    have hnewest := h b x hlast
    rw [StateDB.newest]
    dsimp only
    rw [StateDB.loadAccount_commitBatch, hnewest]
    unfold StateDB.newest at hnewest
    -- what is dirty stays the newest, although the backend has it now
    cases hdirty : s.db.dirtyAccounts.lookup b with
    | none => rfl
    | some dirty =>
      rw [hdirty, Option.some_or] at hnewest
      exact hnewest
  | recordBlock _ =>
    intro b x hlast
    rw [StateDB.newest]
    dsimp only
    rw [StateDB.loadAccount_put_blockKey]
    exact h b x hlast
  | dropGuard _ => exact h
  | clear _ =>
    intro b x hlast
    -- the condition: what the clear forgets has been written
    have hload : s.db.backend.loadAccount codec b = some x :=
      (h.kept b x hlast).elim id (hok b x)
    rw [StateDB.newest]
    exact hload
  | fail => exact h

/-- So it is until `commit` returns. -/
theorem current_step (h : s.commit ≠ .returned → s.Current codec)
    (he : s.step codec a = some (s', o)) (hphase : s'.commit ≠ .returned) : s'.Current codec := by
  cases moves_of_step he with
  | beginSet => exact (h hphase).step he trivial
  | insertDirty _ => exact (h hphase).step he trivial
  | takeGuard hidle => exact (h (by rw [hidle]; exact fun h => nomatch h)).step he trivial
  | writeBatch hguarded => exact (h (by rw [hguarded]; exact fun h => nomatch h)).step he trivial
  | recordBlock hwritten => exact (h (by rw [hwritten]; exact fun h => nomatch h)).step he trivial
  | dropGuard hrecorded => exact (h (by rw [hrecorded]; exact fun h => nomatch h)).step he trivial
  | clear _ => exact absurd rfl hphase
  | fail => exact absurd rfl hphase

/-- Once the batch is written, a dirty account is in the backend, or it was set last. -/
def Written (codec : Codec) (s : CommitSys T) : Prop :=
  s.commit = .written ∨ s.commit = .recorded ∨ s.commit = .released →
    ∀ address account, s.db.dirtyAccounts.lookup address = some account →
      s.db.backend.loadAccount codec address = some account ∨ s.last address = some account

theorem Written.step (h : s.Written codec) (he : s.step codec a = some (s', o)) :
    s'.Written codec := by
  cases moves_of_step he with
  | beginSet => exact h
  | insertDirty _ =>
    rename_i eviction address account _
    intro hphase b x hdirty
    obtain ⟨hinsert, hbackend⟩ := insertDirty_eq s.db address account eviction
    dsimp only at hdirty ⊢
    rw [hinsert] at hdirty
    rw [hbackend]
    -- The account that is put into the dirty map is the one set last there.
    by_cases hb : b = address
    · rw [hb, AList.lookup_insert] at hdirty
      rw [hb, Function.update_self]
      exact Or.inr hdirty
    · rw [AList.lookup_insert_ne hb] at hdirty
      rw [Function.update_of_ne hb]
      exact h hphase b x hdirty
  | takeGuard _ => exact fun hphase => by simp at hphase
  | writeBatch _ =>
    intro _ b x hdirty
    dsimp only at hdirty ⊢
    -- The batch has just written all that is dirty.
    rw [StateDB.loadAccount_commitBatch, StateDB.newest, hdirty, Option.some_or]
    exact Or.inl rfl
  | recordBlock hphase =>
    intro _ b x hdirty
    dsimp only at hdirty ⊢
    rw [StateDB.loadAccount_put_blockKey]
    exact h (Or.inl hphase) b x hdirty
  | dropGuard hphase => exact fun _ => h (Or.inr (Or.inl hphase))
  | clear _ => exact fun hphase => by simp at hphase
  | fail => exact fun hphase => by simp at hphase

/-! ## When nothing is lost -/

section Runs

variable {db : StateDB} {as : List (CommitAction T)}

theorem current_of_run (hrun : Run (step codec) (fun _ _ => True) (init db) as s) :
    s.commit ≠ .returned → s.Current codec :=
  hrun.invariant (I := fun s => s.commit ≠ .returned → s.Current codec)
    (fun _ _ _ _ _ _ he h => current_step h he) fun _ _ _ hlast => nomatch hlast

theorem written_of_run (hrun : Run (step codec) (fun _ _ => True) (init db) as s) :
    s.Written codec :=
  hrun.invariant (I := Written codec) (fun _ _ _ _ _ _ he h => h.step he)
    fun hphase => by simp [init] at hphase

/-- What the clear does to the accounts set last. -/
theorem kept_clear_iff (hrun : Run (step codec) (fun _ _ => True) (init db) as s)
    (he : s.step codec .clear = some (s', o)) : s'.Kept codec ↔ s.CleanClear codec .clear := by
  cases moves_of_step he with
  | clear hphase =>
    have hkept := (current_of_run hrun (by rw [hphase]; exact fun h => nomatch h)).kept
    have hwritten := written_of_run hrun (Or.inr (Or.inr hphase))
    constructor
    · intro hafter address account hdirty
      refine (hwritten address account hdirty).elim id fun hlast => ?_
      exact (hafter address account hlast).resolve_right fun h => nomatch h
    · intro hclean address account hlast
      exact Or.inl ((hkept address account hlast).elim id (hclean address account))

end Runs

/-- If all dirty accounts are in the backend at the clear, every account set last is
always in the backend or dirty; and otherwise one is lost with the clear. -/
theorem commit_keeps_updates (codec : Codec) (db : StateDB) :
    (∀ as (s : CommitSys T), Run (step codec) (CleanClear codec) (init db) as s → s.Kept codec) ∧
    ∀ as (s s' : CommitSys T) o, Run (step codec) (fun _ _ => True) (init db) as s →
      s.step codec .clear = some (s', o) → (s'.Kept codec ↔ s.CleanClear codec .clear) := by
  refine ⟨fun as s hrun => ?_, fun as s s' o => kept_clear_iff⟩
  exact (hrun.invariant (I := Current codec) (fun _ _ _ _ _ hok he h => h.step he hok)
    fun _ _ hlast => nomatch hlast).kept

/-- A `set_account` waits for the guard, gets the lock when it is dropped, and `commit`
clears the map after it. -/
def lateSet : List (CommitAction (Fin 1)) :=
  [.takeGuard, .beginSet 0 alice { (default : Account) with balance := 1 },
    .writeBatch { accounts := sampleOrder, storage := sampleOrder, code := sampleOrder },
    .recordBlock (Vector.replicate 32 0), .dropGuard,
    .insertDirty 0 { order := sampleOrder, coin := fun _ => false }, .clear]

/-- All calls have returned, and Alice's account is nowhere but in the cache. -/
theorem lateSet_loses_account :
    ∃ s, Run (step sampleCodec) (fun _ _ => True) (init (StateDB.new fun _ => none)) lateSet s ∧
      s.commit = .returned ∧ s.setting 0 = none ∧ ¬ s.Kept sampleCodec := by
  refine ⟨_, run_of_replay rfl, rfl, rfl, fun h => ?_⟩
  have halice := h alice { (default : Account) with balance := 1 } (by decide +kernel)
  exact absurd halice (by decide +kernel)

end CommitSys

end InterBit.StateMachine
