import InterBit.Consensus.Tendermint
import InterBit.Lib.Assoc

/-!
# The transaction pool

Transactions that wait for a block are pending, under their hashes. What comes for an account with
enough of them is queued under the account, and takes the place of a pending transaction of the
account that is removed. The hash leaves the signature out.
-/

namespace InterBit

/-- `Transaction::hash`. -/
def Consensus.Tendermint.Transaction.hash (env : Env) (tx : Transaction) : H256 :=
  env.sha256 (toBeBytes 8 tx.nonce ++ tx.sender.toList
    ++ (match tx.recipient with
      | some recipient => recipient.toList
      | none => [])
    ++ toBeBytes 16 tx.value ++ tx.data ++ toBeBytes 8 tx.gasLimit ++ toBeBytes 16 tx.gasPrice)

namespace Network

open Consensus.Tendermint Lib

structure TransactionPool where
  pending : AList fun _ : H256 => Transaction
  queued : AList fun _ : Address => List Transaction
  maxSize : Nat
  maxPerAccount : Nat

namespace TransactionPool

/-- `TransactionPool::new`. -/
def new : TransactionPool := ⟨∅, ∅, 10000, 100⟩

/-- How many pending transactions an account has. -/
def pendingFrom (pool : TransactionPool) (account : Address) : Nat :=
  countValues (fun tx => tx.sender = account) pool.pending

/-- The queue of an account. -/
def queuedFrom (pool : TransactionPool) (account : Address) : List Transaction :=
  (pool.queued.lookup account).getD []

variable (env : Env)

/-- `add_transaction`. -/
def addTransaction (pool : TransactionPool) (tx : Transaction) : Bool × TransactionPool :=
  if pool.maxSize ≤ pool.pending.entries.length then (false, pool)
  else if pool.maxPerAccount ≤ pool.pendingFrom tx.sender then
    (false, { pool with
      queued := pool.queued.insert tx.sender (pool.queuedFrom tx.sender ++ [tx]) })
  else (true, { pool with pending := pool.pending.insert (tx.hash env) tx })

/-- `remove_transaction`. -/
def removeTransaction (pool : TransactionPool) (hash : H256) :
    Option Transaction × TransactionPool :=
  match pool.pending.lookup hash with
  | none => (none, pool)
  | some tx =>
    let pending := pool.pending.erase hash
    match pool.queued.lookup tx.sender with
    | none => (some tx, { pool with pending })
    | some queued =>
      -- the transaction that was queued last
      match queued.getLast? with
      | none => (some tx, { pool with pending })
      | some nextTx => (some tx, { pool with
          pending := pending.insert (nextTx.hash env) nextTx
          queued := pool.queued.insert tx.sender queued.dropLast })

/-- `clear`. -/
def clear (pool : TransactionPool) : TransactionPool := { pool with pending := ∅, queued := ∅ }

/-- Whether a transaction is recent enough to stay. -/
def Stays (currentNonce : AList fun _ : Address => U64) (tx : Transaction) : Bool :=
  match currentNonce.lookup tx.sender with
  | some nonce => nonce ≤ tx.nonce
  | none => true

/-- `prune_old_transactions`. -/
def pruneOldTransactions (pool : TransactionPool) (currentNonce : AList fun _ : Address => U64) :
    TransactionPool :=
  { pool with pending := retain (fun _ tx => Stays currentNonce tx) pool.pending }

end TransactionPool

/-- A call. -/
inductive PoolCall where
  | add (tx : Transaction)
  | remove (hash : H256)
  | prune (currentNonce : AList fun _ : Address => U64)
  | clear

namespace TransactionPool

/-- The pool after a call. -/
def next (env : Env) (pool : TransactionPool) : PoolCall → TransactionPool
  | .add tx => (pool.addTransaction env tx).2
  | .remove hash => (pool.removeTransaction env hash).2
  | .prune currentNonce => pool.pruneOldTransactions currentNonce
  | .clear => pool.clear

variable {env : Env} {pool : TransactionPool}

/-! ## What the two maps are about -/

/-- Pending transactions are under their hashes, and queued ones under their senders. -/
structure Filed (env : Env) (pool : TransactionPool) : Prop where
  pending : ∀ hash tx, pool.pending.lookup hash = some tx → tx.hash env = hash
  queued : ∀ account queued, pool.queued.lookup account = some queued →
    ∀ tx ∈ queued, tx.sender = account

theorem Filed.queuedFrom (h : Filed env pool) {account : Address} {tx : Transaction}
    (htx : tx ∈ pool.queuedFrom account) : tx.sender = account := by
  unfold TransactionPool.queuedFrom at htx
  cases hlookup : pool.queued.lookup account with
  | none =>
    rw [hlookup] at htx
    cases htx
  | some queued =>
    rw [hlookup] at htx
    exact h.queued account queued hlookup tx htx

theorem Filed.insert_pending (h : Filed env pool) (tx : Transaction) :
    Filed env { pool with pending := pool.pending.insert (tx.hash env) tx } where
  pending hash tx' hlookup := by
    rcases lookup_insert_eq_some.mp hlookup with ⟨rfl, rfl⟩ | ⟨_, hold⟩
    · rfl
    · exact h.pending hash tx' hold
  queued := h.queued

theorem Filed.insert_queued (h : Filed env pool) {account : Address} {queued : List Transaction}
    (hqueued : ∀ tx ∈ queued, tx.sender = account) :
    Filed env { pool with queued := pool.queued.insert account queued } where
  pending := h.pending
  queued account' queued' hlookup := by
    rcases lookup_insert_eq_some.mp hlookup with ⟨rfl, rfl⟩ | ⟨_, hold⟩
    · exact hqueued
    · exact h.queued account' queued' hold

theorem Filed.sub_pending (h : Filed env pool) {pending : AList fun _ : H256 => Transaction}
    (hsub : ∀ hash tx, pending.lookup hash = some tx → pool.pending.lookup hash = some tx) :
    Filed env { pool with pending } where
  pending hash tx hlookup := h.pending hash tx (hsub hash tx hlookup)
  queued := h.queued

theorem lookup_erase_imp {hash hash' : H256} {tx : Transaction}
    (h : (pool.pending.erase hash).lookup hash' = some tx) :
    pool.pending.lookup hash' = some tx := by
  by_cases hsame : hash' = hash
  · subst hsame
    rw [AList.lookup_erase] at h
    cases h
  · rwa [AList.lookup_erase_ne hsame] at h

end TransactionPool

end Network

end InterBit
