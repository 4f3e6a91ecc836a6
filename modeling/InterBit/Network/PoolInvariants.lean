import InterBit.Network.TransactionPool
import InterBit.Core.Keccak
import InterBit.Lib.Trace

/-!
# The invariants of the transaction pool

What is queued is not looked at again until its account loses a pending transaction in
`remove_transaction`. So a transaction can be queued that is pending or queued already, and
`prune_old_transactions` leaves the queue of an account that it has made room for as it is.
`consistent_iff`: the invariants hold along a run exactly if neither happens, and no hash of one
account is that of another account's transaction.
-/

namespace InterBit.Network

open Consensus.Tendermint Lib

namespace TransactionPool

/-- How often a hash occurs among the queued transactions. -/
def queuedWith (env : Env) (pool : TransactionPool) (hash : H256) : Nat :=
  weigh (fun queued => queued.countP fun tx => tx.hash env = hash) pool.queued

/-- How often a hash occurs in the pool. -/
def occurrences (env : Env) (pool : TransactionPool) (hash : H256) : Nat :=
  countValues (fun tx => tx.hash env = hash) pool.pending + pool.queuedWith env hash

/-- The invariants of the pool. -/
structure Consistent (env : Env) (pool : TransactionPool) : Prop where
  size : pool.pending.entries.length ≤ pool.maxSize
  perAccount : ∀ account, pool.pendingFrom account ≤ pool.maxPerAccount
  once : ∀ hash, pool.occurrences env hash ≤ 1
  notStranded : ∀ account, pool.queuedFrom account ≠ [] →
    pool.maxPerAccount ≤ pool.pendingFrom account

/-- A call that keeps the invariants. -/
def Keeps (env : Env) (pool : TransactionPool) : PoolCall → Prop
  | .add tx =>
    pool.maxSize ≤ pool.pending.entries.length ∨
      pool.queuedWith env (tx.hash env) = 0 ∧
        if pool.maxPerAccount ≤ pool.pendingFrom tx.sender then
          pool.pending.lookup (tx.hash env) = none
        else ∀ replaced, pool.pending.lookup (tx.hash env) = some replaced →
          replaced.sender ≠ tx.sender → pool.queuedFrom replaced.sender = []
  | .remove _ => True
  | .prune currentNonce => ∀ hash tx, pool.pending.lookup hash = some tx →
      pool.queuedFrom tx.sender ≠ [] → Stays currentNonce tx = true
  | .clear => True

variable {env : Env} {pool : TransactionPool}

/-! ## Counting -/

theorem Filed.countValues_hash (h : Filed env pool) (hash : H256) :
    countValues (fun tx => tx.hash env = hash) pool.pending
      = countAt (fun _ => true) pool.pending hash := by
  have hothers : countValues (fun tx => tx.hash env = hash) (pool.pending.erase hash) = 0 := by
    rw [countValues_eq_weigh]
    refine weigh_eq_zero fun hash' tx hlookup => ?_
    have hne : hash' ≠ hash := by
      rintro rfl
      rw [AList.lookup_erase] at hlookup
      cases hlookup
    rw [AList.lookup_erase_ne hne] at hlookup
    have hother : tx.hash env ≠ hash := (h.pending hash' tx hlookup).trans_ne hne
    rw [decide_eq_false hother, Bool.toNat_false]
  rw [countValues_erase _ _ hash, hothers, Nat.add_zero]
  cases hlookup : pool.pending.lookup hash with
  | none => rw [countAt_of_none hlookup, countAt_of_none hlookup]
  | some tx =>
    rw [countAt_of_some hlookup, countAt_of_some hlookup,
      decide_eq_true (h.pending hash tx hlookup)]

/-- What a queue in place of another one does to the count of a hash. -/
theorem queuedWith_insert (env : Env) (pool : TransactionPool) (account : Address)
    (queued : List Transaction) (hash : H256) :
    ({ pool with queued := pool.queued.insert account queued } : TransactionPool).queuedWith env hash
        + (pool.queuedFrom account).countP (fun tx => tx.hash env = hash)
      = pool.queuedWith env hash + queued.countP fun tx => tx.hash env = hash := by
  have hbefore : weightAt (fun queued => queued.countP fun tx => tx.hash env = hash) pool.queued
      account = (pool.queuedFrom account).countP fun tx => tx.hash env = hash := by
    unfold weightAt queuedFrom
    cases pool.queued.lookup account with
    | none => rfl
    | some queued => rfl
  rw [← hbefore]
  exact weigh_insert_add_weightAt ..

theorem queuedFrom_insert (pool : TransactionPool) (account account' : Address)
    (queued : List Transaction) :
    ({ pool with queued := pool.queued.insert account queued } : TransactionPool).queuedFrom account'
      = if account' = account then queued else pool.queuedFrom account' := by
  unfold queuedFrom
  split
  next hsame =>
    subst hsame
    rw [AList.lookup_insert]
    rfl
  next hother => rw [AList.lookup_insert_ne hother]

/-- A transaction joins the queue of its sender. -/
theorem occurrences_push (env : Env) (pool : TransactionPool) (tx : Transaction) (hash : H256) :
    ({ pool with queued := pool.queued.insert tx.sender (pool.queuedFrom tx.sender ++ [tx]) } :
        TransactionPool).occurrences env hash
      = pool.occurrences env hash + if tx.hash env = hash then 1 else 0 := by
  have hqueued := queuedWith_insert env pool tx.sender (pool.queuedFrom tx.sender ++ [tx]) hash
  rw [List.countP_append, List.countP_singleton] at hqueued
  unfold occurrences
  simp only [decide_eq_true_eq] at hqueued
  dsimp only
  omega

/-! ## The calls -/

/-- A transaction is queued. -/
theorem consistent_push_iff (hfiled : Filed env pool) (h : Consistent env pool)
    (tx : Transaction) (hfull : pool.maxPerAccount ≤ pool.pendingFrom tx.sender) :
    Consistent env { pool with
      queued := pool.queued.insert tx.sender (pool.queuedFrom tx.sender ++ [tx]) } ↔
      pool.queuedWith env (tx.hash env) = 0 ∧ pool.pending.lookup (tx.hash env) = none := by
  have hbefore := hfiled.countValues_hash (tx.hash env)
  constructor
  · intro hafter
    have honce := hafter.once (tx.hash env)
    rw [occurrences_push, if_pos rfl, occurrences, hbefore] at honce
    refine ⟨by omega, ?_⟩
    cases hlookup : pool.pending.lookup (tx.hash env) with
    | none => rfl
    | some replaced =>
      rw [countAt_of_some hlookup, Bool.toNat_true] at honce
      omega
  · rintro ⟨hqueued, hlookup⟩
    refine ⟨h.size, h.perAccount, fun hash => ?_, fun account hsome => ?_⟩
    · rw [occurrences_push]
      split
      next hsame =>
        subst hsame
        rw [occurrences, hqueued, hbefore, countAt_of_none hlookup]
      next => exact h.once hash
    · rw [queuedFrom_insert] at hsome
      split at hsome
      next hsame => exact hsame ▸ hfull
      next => exact h.notStranded account hsome

theorem pendingFrom_insert (env : Env) (pool : TransactionPool) (tx : Transaction)
    (account : Address) :
    ({ pool with pending := pool.pending.insert (tx.hash env) tx } : TransactionPool).pendingFrom
        account + countAt (fun tx => tx.sender = account) pool.pending (tx.hash env)
      = pool.pendingFrom account + if tx.sender = account then 1 else 0 := by
  refine (countValues_insert ..).trans (congrArg (pool.pendingFrom account + ·) ?_)
  split
  next hsame => rw [decide_eq_true hsame, Bool.toNat_true]
  next hother => rw [decide_eq_false hother, Bool.toNat_false]

/-- What is queued is not pending. -/
theorem Consistent.lookup_of_queued (h : Consistent env pool) (hfiled : Filed env pool)
    {account : Address} {tx : Transaction} (htx : tx ∈ pool.queuedFrom account) :
    pool.pending.lookup (tx.hash env) = none := by
  have honce := h.once (tx.hash env)
  have hqueued := queuedWith_insert env pool account [] (tx.hash env)
  have hcounted : 0 < (pool.queuedFrom account).countP fun tx' => tx'.hash env = tx.hash env :=
    List.countP_pos_iff.mpr ⟨tx, htx, decide_eq_true rfl⟩
  rw [List.countP_nil] at hqueued
  rw [occurrences, hfiled.countValues_hash] at honce
  cases hpending : pool.pending.lookup (tx.hash env) with
  | none => rfl
  | some other =>
    rw [countAt_of_some hpending, Bool.toNat_true] at honce
    omega

/-- A transaction becomes pending, and takes no place that is waited for. -/
theorem Consistent.insert (h : Consistent env pool) (hfiled : Filed env pool) {tx : Transaction}
    (hroom : pool.pending.entries.length < pool.maxSize)
    (hfew : pool.pendingFrom tx.sender < pool.maxPerAccount)
    (hqueued : pool.queuedWith env (tx.hash env) = 0)
    (hreplaced : ∀ replaced, pool.pending.lookup (tx.hash env) = some replaced →
      replaced.sender ≠ tx.sender → pool.queuedFrom replaced.sender = []) :
    Consistent env { pool with pending := pool.pending.insert (tx.hash env) tx } where
  size := by
    have hlength := countValues_insert (fun _ => true) pool.pending (tx.hash env) tx
    rw [countValues_true, countValues_true, Bool.toNat_true] at hlength
    dsimp only
    omega
  perAccount account := by
    have hcount := pendingFrom_insert env pool tx account
    have hbound := h.perAccount account
    dsimp only
    split at hcount
    next hsame =>
      subst hsame
      omega
    next => omega
  once hash := by
    have honce := h.once hash
    rw [occurrences, hfiled.countValues_hash] at honce
    rw [occurrences, (hfiled.insert_pending tx).countValues_hash]
    by_cases hsame : hash = tx.hash env
    · subst hsame
      rw [countAt_of_some (AList.lookup_insert _)]
      exact Nat.add_le_add_left (Nat.le_of_eq hqueued) 1
    · have hkept : countAt (fun _ => true) (pool.pending.insert (tx.hash env) tx) hash
          = countAt (fun _ => true) pool.pending hash := by
        rw [countAt, weightAt, AList.lookup_insert_ne hsame]
        rfl
      exact hkept ▸ honce
  notStranded account hsome := by
    have hmax := h.notStranded account hsome
    have hcount := pendingFrom_insert env pool tx account
    have hother : tx.sender ≠ account := by
      rintro rfl
      omega
    -- the transaction that is replaced, if there is one, is of somebody else
    have hnone : countAt (fun tx => tx.sender = account) pool.pending (tx.hash env) = 0 := by
      cases hlookup : pool.pending.lookup (tx.hash env) with
      | none => exact countAt_of_none hlookup
      | some replaced =>
        rw [countAt_of_some hlookup]
        by_cases hsame : replaced.sender = account
        · exact absurd (hreplaced replaced hlookup (hsame ▸ hother.symm)) (hsame ▸ hsome)
        · rw [decide_eq_false hsame, Bool.toNat_false]
    rw [hnone, if_neg hother] at hcount
    dsimp only
    omega

/-- A transaction becomes pending. -/
theorem consistent_insert_iff (hfiled : Filed env pool) (h : Consistent env pool)
    (tx : Transaction) (hroom : pool.pending.entries.length < pool.maxSize)
    (hfew : pool.pendingFrom tx.sender < pool.maxPerAccount) :
    Consistent env { pool with pending := pool.pending.insert (tx.hash env) tx } ↔
      pool.queuedWith env (tx.hash env) = 0 ∧
        ∀ replaced, pool.pending.lookup (tx.hash env) = some replaced →
          replaced.sender ≠ tx.sender → pool.queuedFrom replaced.sender = [] := by
  refine ⟨fun hafter => ⟨?_, ?_⟩, fun ⟨hqueued, hreplaced⟩ =>
    h.insert hfiled hroom hfew hqueued hreplaced⟩
  · have honce := hafter.once (tx.hash env)
    rw [occurrences, (hfiled.insert_pending tx).countValues_hash,
      countAt_of_some (AList.lookup_insert _)] at honce
    exact Nat.le_zero.mp (Nat.le_of_add_le_add_left honce)
  · intro replaced hlookup hother
    by_contra hsome
    -- the other account has a pending transaction less
    have hcount := pendingFrom_insert env pool tx replaced.sender
    rw [countAt_of_some hlookup, decide_eq_true rfl, if_neg hother.symm, Bool.toNat_true]
      at hcount
    have hbound := h.perAccount replaced.sender
    have hstranded := hafter.notStranded replaced.sender hsome
    dsimp only at hstranded
    omega

/-- Old transactions are dropped. -/
theorem consistent_prune_iff (h : Consistent env pool)
    (currentNonce : AList fun _ : Address => U64) :
    Consistent env (pool.pruneOldTransactions currentNonce) ↔
      pool.Keeps env (.prune currentNonce) := by
  have hcount := fun account => countValues_retain (fun tx => decide (tx.sender = account))
    (fun _ tx => Stays currentNonce tx) pool.pending
  constructor
  · intro hafter hash tx hlookup hsome
    have hmax := hafter.notStranded tx.sender hsome
    have hall := (hcount tx.sender).2.mp (Nat.le_trans (h.perAccount tx.sender) hmax)
    exact hall hash tx hlookup (decide_eq_true rfl)
  · intro hkeeps
    refine ⟨?_, fun account => ?_, fun hash => ?_, fun account hsome => ?_⟩
    · exact Nat.le_trans (List.length_filter_le ..) h.size
    · exact Nat.le_trans (hcount account).1 (h.perAccount account)
    · have hfewer := (countValues_retain (fun tx => decide (tx.hash env = hash))
        (fun _ tx => Stays currentNonce tx) pool.pending).1
      exact Nat.le_trans (Nat.add_le_add_right hfewer _) (h.once hash)
    · refine Nat.le_trans (h.notStranded account hsome) ((hcount account).2.mpr ?_)
      intro hash tx hlookup hsender
      have hsender := of_decide_eq_true hsender
      exact hkeeps hash tx hlookup (hsender.symm ▸ hsome)

/-- A pending transaction of an account with an empty queue goes. -/
theorem consistent_erase (h : Consistent env pool) {hash : H256} {tx : Transaction}
    (hlookup : pool.pending.lookup hash = some tx) (hempty : pool.queuedFrom tx.sender = []) :
    Consistent env { pool with pending := pool.pending.erase hash } where
  size := by
    have hlength := countValues_erase (fun _ => true) pool.pending hash
    rw [countValues_true, countValues_true] at hlength
    have hbound := h.size
    dsimp only
    omega
  perAccount account := by
    have hcount := countValues_erase (fun tx => tx.sender = account) pool.pending hash
    have hbound := h.perAccount account
    unfold pendingFrom at hbound ⊢
    dsimp only
    omega
  once hash' := by
    have hcount := countValues_erase (fun tx => tx.hash env = hash') pool.pending hash
    have honce := h.once hash'
    unfold occurrences queuedWith at honce ⊢
    dsimp only
    omega
  notStranded account hsome := by
    have hother : tx.sender ≠ account := by
      rintro rfl
      exact hsome hempty
    have hcount := countValues_erase (fun tx => tx.sender = account) pool.pending hash
    rw [countAt_of_some hlookup, decide_eq_false hother, Bool.toNat_false, Nat.zero_add] at hcount
    exact (h.notStranded account hsome).trans_eq hcount

/-- The last transaction in a queue takes the place of a pending one: no hash occurs more often. -/
theorem occurrences_promote {hash : H256} {tx nextTx : Transaction} {waiting : List Transaction}
    (hlookup : pool.pending.lookup hash = some tx)
    (hqueued : pool.queuedFrom tx.sender = waiting ++ [nextTx])
    (hfree : (pool.pending.erase hash).lookup (nextTx.hash env) = none) (hash' : H256) :
    ({ pool with
        pending := (pool.pending.erase hash).insert (nextTx.hash env) nextTx
        queued := pool.queued.insert tx.sender waiting } : TransactionPool).occurrences env hash'
      ≤ pool.occurrences env hash' := by
  have hcount := countValues_replace (fun tx => decide (tx.hash env = hash')) hlookup hfree nextTx
  have hshorter := queuedWith_insert env pool tx.sender waiting hash'
  rw [hqueued, List.countP_append, List.countP_singleton] at hshorter
  unfold occurrences
  unfold queuedWith at hshorter ⊢
  dsimp only at hshorter ⊢
  cases hnext : decide (nextTx.hash env = hash') with
  | true =>
    rw [hnext, Bool.toNat_true] at hcount
    rw [hnext, if_pos rfl] at hshorter
    omega
  | false =>
    rw [hnext, Bool.toNat_false] at hcount
    rw [hnext, if_neg Bool.false_ne_true] at hshorter
    omega

/-- A pending transaction goes, and the last one in the queue of its account takes its place. -/
theorem consistent_promote (hfiled : Filed env pool) (h : Consistent env pool) {hash : H256}
    {tx nextTx : Transaction} {waiting : List Transaction}
    (hlookup : pool.pending.lookup hash = some tx)
    (hqueued : pool.queuedFrom tx.sender = waiting ++ [nextTx]) :
    Consistent env { pool with
      pending := (pool.pending.erase hash).insert (nextTx.hash env) nextTx
      queued := pool.queued.insert tx.sender waiting } := by
  have hmem : nextTx ∈ pool.queuedFrom tx.sender :=
    hqueued ▸ List.mem_append_right _ (List.mem_singleton_self _)
  have hfree : (pool.pending.erase hash).lookup (nextTx.hash env) = none := by
    cases hpending : (pool.pending.erase hash).lookup (nextTx.hash env) with
    | none => rfl
    | some other =>
      cases (h.lookup_of_queued hfiled hmem).symm.trans (lookup_erase_imp hpending)
  have hsame : ∀ account, countValues (fun tx => decide (tx.sender = account))
      ((pool.pending.erase hash).insert (nextTx.hash env) nextTx) = pool.pendingFrom account := by
    intro account
    have hcount := countValues_replace (fun tx => decide (tx.sender = account)) hlookup hfree nextTx
    rw [hfiled.queuedFrom hmem] at hcount
    exact Nat.add_right_cancel hcount
  refine ⟨?_, fun account => ?_, fun hash' => ?_, fun account hsome => ?_⟩
  · have hlength := countValues_replace (fun _ => true) hlookup hfree nextTx
    rw [countValues_true, countValues_true] at hlength
    exact (Nat.add_right_cancel hlength).trans_le h.size
  · exact (hsame account).trans_le (h.perAccount account)
  · exact Nat.le_trans (occurrences_promote hlookup hqueued hfree hash') (h.once hash')
  · refine (h.notStranded account ?_).trans_eq (hsame account).symm
    have hafter := queuedFrom_insert pool tx.sender account waiting
    unfold queuedFrom at hafter hsome
    dsimp only at hafter hsome
    rw [hafter] at hsome
    split at hsome
    next hsame =>
      rw [hsame, hqueued]
      exact List.append_ne_nil_of_right_ne_nil _ (List.cons_ne_nil _ _)
    next => exact hsome

/-- A transaction is removed. -/
theorem consistent_remove (hfiled : Filed env pool) (h : Consistent env pool) (hash : H256) :
    Consistent env (pool.removeTransaction env hash).2 := by
  unfold removeTransaction
  split
  next => exact h
  next tx hlookup =>
    dsimp only
    split
    next hnone =>
      exact consistent_erase h hlookup (by rw [queuedFrom, hnone, Option.getD_none])
    next queued hqueued =>
      have hall : pool.queuedFrom tx.sender = queued := by
        rw [queuedFrom, hqueued, Option.getD_some]
      split
      next hnone =>
        exact consistent_erase h hlookup (hall.trans (List.getLast?_eq_none_iff.mp hnone))
      next nextTx hlast =>
        refine consistent_promote hfiled h hlookup (hall.trans ?_)
        obtain ⟨waiting, rfl⟩ := List.getLast?_eq_some_iff.mp hlast
        rw [List.dropLast_concat]

/-- A transaction is added. -/
theorem consistent_add_iff (hfiled : Filed env pool) (h : Consistent env pool)
    (tx : Transaction) :
    Consistent env (pool.addTransaction env tx).2 ↔ pool.Keeps env (.add tx) := by
  dsimp only [addTransaction, Keeps]
  split
  next hfull => exact iff_of_true h (.inl hfull)
  next hroom =>
    rw [or_iff_right hroom]
    split
    next hmany => exact consistent_push_iff hfiled h tx hmany
    next hfew =>
      exact consistent_insert_iff hfiled h tx (Nat.lt_of_not_le hroom) (Nat.lt_of_not_le hfew)

/-! ## Runs -/

theorem filed_add (h : Filed env pool) (tx : Transaction) :
    Filed env (pool.addTransaction env tx).2 := by
  unfold addTransaction
  split
  next => exact h
  next =>
    split
    next =>
      refine h.insert_queued fun tx' htx' => ?_
      rcases List.mem_append.mp htx' with hold | hnew
      · exact h.queuedFrom hold
      · exact congrArg Transaction.sender (List.mem_singleton.mp hnew)
    next => exact h.insert_pending tx

theorem filed_remove (h : Filed env pool) (hash : H256) :
    Filed env (pool.removeTransaction env hash).2 := by
  have herased : Filed env { pool with pending := pool.pending.erase hash } :=
    h.sub_pending fun _ _ => lookup_erase_imp
  unfold removeTransaction
  split
  next => exact h
  next tx _ =>
    dsimp only
    split
    next => exact herased
    next queued hqueued =>
      split
      next => exact herased
      next nextTx _ =>
        exact (herased.insert_pending nextTx).insert_queued fun tx' htx' =>
          h.queued tx.sender queued hqueued tx' (List.dropLast_subset queued htx')

theorem filed_clear (pool : TransactionPool) : Filed env pool.clear where
  pending _ _ hlookup := by cases hlookup
  queued _ _ hlookup := by cases hlookup

/-- Every call keeps the transactions under their hashes and their senders. -/
theorem filed_next (h : Filed env pool) (call : PoolCall) : Filed env (pool.next env call) := by
  cases call with
  | add tx => exact filed_add h tx
  | remove hash => exact filed_remove h hash
  | prune currentNonce =>
    refine h.sub_pending fun hash tx hlookup => ?_
    rw [lookup_retain] at hlookup
    exact (Option.filter_eq_some_iff.mp hlookup).1
  | clear => exact filed_clear pool

theorem consistent_clear (pool : TransactionPool) : Consistent env pool.clear where
  size := Nat.zero_le _
  perAccount _ := Nat.zero_le _
  once _ := Nat.zero_le 1
  notStranded _ hsome := absurd rfl hsome

/-- A call keeps the invariants exactly if it is one that does. -/
theorem consistent_next_iff (hfiled : Filed env pool) (h : Consistent env pool)
    (call : PoolCall) : Consistent env (pool.next env call) ↔ pool.Keeps env call := by
  cases call with
  | add tx => exact consistent_add_iff hfiled h tx
  | remove hash => exact iff_of_true (consistent_remove hfiled h hash) trivial
  | prune currentNonce => exact consistent_prune_iff h currentNonce
  | clear => exact iff_of_true (consistent_clear pool) trivial

/-- The invariants hold along a run exactly if each call keeps them. -/
theorem consistent_iff (env : Env) (calls : List PoolCall) :
    Always (next env) (fun pool call => (pool.next env call).Consistent env) new calls ↔
      Always (next env) (Keeps env) new calls := by
  have hnew : Filed env new ∧ Consistent env new := ⟨filed_clear new, consistent_clear new⟩
  refine always_iff (I := fun pool => Filed env pool ∧ Consistent env pool) hnew ?_ ?_
  · intro pool call ⟨hfiled, hpool⟩ hkeeps
    exact ⟨filed_next hfiled call, (consistent_next_iff hfiled hpool call).mpr hkeeps⟩
  · intro pool call ⟨hfiled, hpool⟩
    exact consistent_next_iff hfiled hpool call

/-! ## A transaction that is sent again -/

/-- The transactions of one sender, by their nonces. -/
def sampleTx (nonce : Nat) : Transaction where
  nonce := BitVec.ofNat 64 nonce
  sender := .replicate 20 1
  recipient := none
  value := 0
  data := []
  gasLimit := 0
  gasPrice := 0
  signature := []

def sampleEnv : Env := (sampleKeccakEnv true).toEnv

/-- The first transactions of the sender, one after the other. -/
def filling (count : Nat) : List PoolCall :=
  (List.range count).map fun nonce => .add (sampleTx nonce)

/-- A byte of the hash is the last byte of the nonce. -/
theorem hash_sampleTx_byte (nonce : Nat) :
    ((sampleTx nonce).hash sampleEnv)[7] = UInt8.ofNat ((BitVec.ofNat 64 nonce).toNat) := by
  simp [Transaction.hash, sampleEnv, sampleKeccakEnv, sampleTx, toBeBytes, List.range_succ]

theorem hash_sampleTx_ne {nonce nonce' : Nat} (hnonce : nonce < 256) (hnonce' : nonce' < 256)
    (hne : nonce ≠ nonce') : (sampleTx nonce).hash sampleEnv ≠ (sampleTx nonce').hash sampleEnv := by
  intro h
  have hbyte := (hash_sampleTx_byte nonce).symm.trans
    ((congrArg (·[7]) h).trans (hash_sampleTx_byte nonce'))
  have hnat := congrArg UInt8.toNat hbyte
  simp only [BitVec.toNat_ofNat, UInt8.toNat_ofNat'] at hnat
  omega

/-- The first transactions of the account are pending, and none is queued. -/
structure Filled (count : Nat) (pool : TransactionPool) : Prop where
  queued : pool.queued = ∅
  maxSize : pool.maxSize = 10000
  maxPerAccount : pool.maxPerAccount = 100
  length : pool.pending.entries.length = count
  pendingFrom : pool.pendingFrom (.replicate 20 1) = count
  fresh : ∀ nonce, count ≤ nonce → nonce < 256 →
    pool.pending.lookup ((sampleTx nonce).hash sampleEnv) = none

theorem Filled.next {count : Nat} (h : Filled count pool) (hcount : count < 100) :
    Filled (count + 1) (pool.next sampleEnv (.add (sampleTx count))) := by
  have hroom : ¬ pool.maxSize ≤ pool.pending.entries.length := by
    rw [h.maxSize, h.length]
    omega
  have hfew : ¬ pool.maxPerAccount ≤ pool.pendingFrom (.replicate 20 1) := by
    rw [h.maxPerAccount, h.pendingFrom]
    omega
  have hstep : pool.next sampleEnv (.add (sampleTx count)) = { pool with
      pending := pool.pending.insert ((sampleTx count).hash sampleEnv) (sampleTx count) } := by
    dsimp only [TransactionPool.next]
    rw [addTransaction, if_neg hroom]
    exact congrArg Prod.snd (if_neg hfew)
  have hnone := h.fresh count (Nat.le_refl _) (by omega)
  rw [hstep]
  refine ⟨h.queued, h.maxSize, h.maxPerAccount, ?_, ?_, fun nonce hnonce hbyte => ?_⟩
  · have hcounted := countValues_insert (fun _ => true) pool.pending
      ((sampleTx count).hash sampleEnv) (sampleTx count)
    rw [countAt_of_none hnone, countValues_true, countValues_true, h.length] at hcounted
    exact hcounted
  · have hcounted := pendingFrom_insert sampleEnv pool (sampleTx count) (.replicate 20 1)
    rw [countAt_of_none hnone, h.pendingFrom] at hcounted
    exact hcounted
  · have hne := hash_sampleTx_ne hbyte (by omega : count < 256) (by omega)
    exact (AList.lookup_insert_ne hne).trans (h.fresh nonce (by omega) hbyte)

theorem filled {count : Nat} (hcount : count ≤ 100) :
    Filled count ((filling count).foldl (TransactionPool.next sampleEnv) new) := by
  induction count with
  | zero => exact ⟨rfl, rfl, rfl, rfl, rfl, fun _ _ _ => rfl⟩
  | succ count ih =>
    rw [filling, List.range_succ, List.map_append, List.foldl_append]
    exact (ih (Nat.le_of_succ_le hcount)).next hcount

/-- In a full account another transaction is queued. -/
theorem next_add_of_full {tx : Transaction} (hroom : pool.pending.entries.length < pool.maxSize)
    (hfull : pool.maxPerAccount ≤ pool.pendingFrom tx.sender) :
    pool.next env (.add tx) = { pool with
      queued := pool.queued.insert tx.sender (pool.queuedFrom tx.sender ++ [tx]) } := by
  dsimp only [TransactionPool.next]
  rw [addTransaction, if_neg (Nat.not_le_of_lt hroom)]
  exact congrArg Prod.snd (if_pos hfull)

/-- What is sent twice to a full account is queued twice. -/
theorem occurrences_twice (env : Env) {tx : Transaction}
    (hroom : pool.pending.entries.length < pool.maxSize)
    (hfull : pool.maxPerAccount ≤ pool.pendingFrom tx.sender) :
    2 ≤ ([.add tx, .add tx].foldl (next env) pool).occurrences env (tx.hash env) := by
  rw [List.foldl_cons, List.foldl_cons, List.foldl_nil, next_add_of_full hroom hfull,
    next_add_of_full (by exact hroom) (by exact hfull), occurrences_push, occurrences_push,
    if_pos rfl]
  omega

/-- The 101st transaction of an account is queued, and is queued again if it is sent again. -/
theorem resentTransaction_twice : ¬ ∀ (env : Env) (calls : List PoolCall),
    (calls.foldl (next env) new).Consistent env := by
  intro hgeneral
  have h := filled (Nat.le_refl 100)
  have honce := (hgeneral sampleEnv (filling 100 ++ [.add (sampleTx 100), .add (sampleTx 100)])).once
    ((sampleTx 100).hash sampleEnv)
  rw [List.foldl_append] at honce
  have hroom : ((filling 100).foldl (next sampleEnv) new).pending.entries.length
      < ((filling 100).foldl (next sampleEnv) new).maxSize := by
    rw [h.length, h.maxSize]
    omega
  have hfull : ((filling 100).foldl (next sampleEnv) new).maxPerAccount
      ≤ ((filling 100).foldl (next sampleEnv) new).pendingFrom (sampleTx 100).sender := by
    rw [h.maxPerAccount]
    exact h.pendingFrom.ge
  have htwice := occurrences_twice sampleEnv hroom hfull
  omega

end TransactionPool

end InterBit.Network
