import InterBit.StateMachine.Executor

/-!
# `StateDB`

The account store of `state_machine/state.rs`. An account may be in three places:
the cache `accounts`, the map `dirty_accounts` of what `commit` has yet to write,
and the backend. `get_account` looks into the cache and then into the backend, but
never into `dirty_accounts`.

`newest` is the account that was set last, wherever it is, and `view` is what
`get_account` returns; the state is `Coherent` where the two are the same. Loading an
account, inserting one and committing keep it so (`view_getAccount`,
`Coherent.insertAccount`, `Coherent.commit`).

`evict_cache` removes entries while it iterates over the cache. Here the removals go
through, so that what they would do to an account is on record: `Coherent.setAccount_iff`
says that the state stays coherent exactly if no account is dropped that is dirty and
different in the backend (`CleanEviction`). Under the locks of the cache a removal never
comes to pass. `EvictionLocks` has them, shows that a `set_account` that returns has
removed nothing, and proves of the calls that return that they read what was written.
-/

namespace InterBit.StateMachine

open InterBit.Lib

/-- `bincode` on accounts. It reads back what it has written. -/
structure Codec where
  serialize : Account → List UInt8
  deserialize : List UInt8 → Option Account
  deserialize_serialize : ∀ account, deserialize (serialize account) = some account

/-- The backend, a key-value store. -/
abbrev Backend := String → Option (List UInt8)

/-- A map from addresses to accounts with finitely many entries. -/
abbrev AccountMap := AList (fun _ : Address => Account)

/-- `struct StateDB`. -/
structure StateDB where
  accounts : AccountMap
  storage : AList (fun _ : H256 × H256 => H256)
  code : AList (fun _ : H256 => List UInt8)
  dirtyAccounts : AccountMap
  backend : Backend
  cacheSize : Nat

/-- `account_key`. -/
def accountKey (address : Address) : String := "account:" ++ hexEncode address.toList

/-- `storage_key_from_hash`. -/
def storageKeyFromHash (addressHash key : H256) : String :=
  "storage:" ++ hexEncode addressHash.toList ++ ":" ++ hexEncode key.toList

/-- `code_key`. -/
def codeKey (codeHash : H256) : String := "code:" ++ hexEncode codeHash.toList

/-- The key under which `commit` records a block. -/
def blockKey (blockHash : H256) : String := "block:" ++ hexEncode blockHash.toList

/-- `Storage::put`. -/
def Backend.put (backend : Backend) (key : String) (value : List UInt8) : Backend :=
  Function.update backend key (some value)

/-- `Storage::batch_put`. -/
def Backend.batchPut (backend : Backend) (batch : List (String × List UInt8)) : Backend :=
  batch.foldl (fun b entry => b.put entry.1 entry.2) backend

/-- The account in the backend. -/
def Backend.loadAccount (codec : Codec) (backend : Backend) (address : Address) : Option Account :=
  (backend (accountKey address)).bind codec.deserialize

/-- The choices of `evict_cache`: the order in which it iterates over the cache, and
the entries at which the coin falls. -/
structure Eviction where
  order : IterOrder Address
  coin : Address → Bool

/-- The orders in which `commit` iterates over its maps. -/
structure CommitOrders where
  accounts : IterOrder (Sigma fun _ : Address => Account)
  storage : IterOrder (Sigma fun _ : H256 × H256 => H256)
  code : IterOrder (Sigma fun _ : H256 => List UInt8)

namespace StateDB

/-- `StateDB::new`. -/
def new (backend : Backend) : StateDB :=
  { accounts := ∅, storage := ∅, code := ∅, dirtyAccounts := ∅, backend, cacheSize := 10000 }

/-- `get_account`. -/
def getAccount (codec : Codec) (db : StateDB) (address : Address) : StateDB × Option Account :=
  match db.accounts.lookup address with
  | some account => (db, some account)
  | none =>
    match db.backend.loadAccount codec address with
    | some account => ({ db with accounts := db.accounts.insert address account }, some account)
    | none => (db, none)

/-- The loop of `evict_cache` over the addresses that are left; `removed` entries are gone. Each
removal is as if the iterator let it through. With the locks, the first one waits for ever for the
shard that the iterator is in. -/
def evictLoop (toRemove : Nat) (coin : Address → Bool) : List Address → Nat → AccountMap → AccountMap
  | [], _, accounts => accounts
  | address :: rest, removed, accounts =>
    if removed ≥ toRemove then accounts
    else if coin address then evictLoop toRemove coin rest (removed + 1) (accounts.erase address)
    else evictLoop toRemove coin rest removed accounts

/-- `evict_cache`, as if its iterator let the removals through (`evictCacheLocked` has the
locks). -/
def evictCache (db : StateDB) (eviction : Eviction) : StateDB :=
  { db with
    accounts := evictLoop (db.cacheSize / 10) eviction.coin
      (eviction.order.arrange db.accounts.keys) 0 db.accounts }

/-- The two inserts of `set_account`. -/
def insertAccount (db : StateDB) (address : Address) (account : Account) : StateDB :=
  { db with
    accounts := db.accounts.insert address account
    dirtyAccounts := db.dirtyAccounts.insert address account }

/-- `set_account`, with an eviction as if its iterator let the removals through. With the locks the
call returns exactly if nothing is removed (`setAccount_returns_iff`), and then this is what it
leaves (`halt_setAccountLocked`). -/
def setAccount (db : StateDB) (address : Address) (account : Account) (eviction : Eviction) :
    StateDB :=
  let db := db.insertAccount address account
  if db.accounts.keys.length > db.cacheSize then db.evictCache eviction else db

/-- The batch that `commit` puts together. -/
def commitBatch (codec : Codec) (db : StateDB) (orders : CommitOrders) :
    List (String × List UInt8) :=
  (orders.accounts.arrange db.dirtyAccounts.entries).map
      (fun entry => (accountKey entry.1, codec.serialize entry.2)) ++
    (orders.storage.arrange db.storage.entries).map
      (fun entry => (storageKeyFromHash entry.1.1 entry.1.2, entry.2.toList)) ++
    (orders.code.arrange db.code.entries).map (fun entry => (codeKey entry.1, entry.2))

/-- `commit`, over a backend that never fails. -/
def commit (codec : Codec) (db : StateDB) (blockHash : H256) (orders : CommitOrders) : StateDB :=
  { db with
    backend := (db.backend.batchPut (db.commitBatch codec orders)).put (blockKey blockHash)
      blockHash.toList
    dirtyAccounts := ∅ }

end StateDB

/-! ## Keys of the backend -/

theorem accountKey_injective : Function.Injective accountKey := by
  intro a b h
  have h := congrArg String.toList h
  rw [accountKey, accountKey, String.toList_append, String.toList_append] at h
  exact Vector.toList_inj.mp (hexEncode_injective (String.toList_injective (List.append_cancel_left h)))

theorem accountKey_ne_storageKey (address : Address) (addressHash key : H256) :
    accountKey address ≠ storageKeyFromHash addressHash key := by
  intro h
  have h := congrArg (fun s => s.toList.head?) h
  simp [accountKey, storageKeyFromHash] at h

theorem accountKey_ne_codeKey (address : Address) (codeHash : H256) :
    accountKey address ≠ codeKey codeHash := by
  intro h
  have h := congrArg (fun s => s.toList.head?) h
  simp [accountKey, codeKey] at h

theorem accountKey_ne_blockKey (address : Address) (blockHash : H256) :
    accountKey address ≠ blockKey blockHash := by
  intro h
  have h := congrArg (fun s => s.toList.head?) h
  simp [accountKey, blockKey] at h

namespace Backend

theorem batchPut_append (backend : Backend) (batch batch' : List (String × List UInt8)) :
    backend.batchPut (batch ++ batch') = (backend.batchPut batch).batchPut batch' :=
  List.foldl_append

/-- A batch leaves the other keys alone. -/
theorem batchPut_of_forall_ne {key : String} (batch : List (String × List UInt8)) :
    ∀ backend : Backend, (∀ entry ∈ batch, key ≠ entry.1) →
      backend.batchPut batch key = backend key := by
  induction batch with
  | nil => exact fun _ _ => rfl
  | cons entry batch ih =>
    intro backend h
    obtain ⟨hne, hrest⟩ := List.forall_mem_cons.mp h
    exact (ih _ hrest).trans (Function.update_of_ne hne ..)

/-- What a batch of accounts puts at an account's key. -/
theorem batchPut_accounts (codec : Codec) (address : Address)
    (entries : List (Sigma fun _ : Address => Account)) : entries.NodupKeys →
      ∀ backend : Backend,
        backend.batchPut (entries.map fun e => (accountKey e.1, codec.serialize e.2))
            (accountKey address)
          = ((entries.dlookup address).map codec.serialize).or (backend (accountKey address)) := by
  induction entries with
  | nil => exact fun _ _ => rfl
  | cons entry entries ih =>
    obtain ⟨key, account⟩ := entry
    intro hnodup backend
    obtain ⟨hkey, hrest⟩ := List.nodupKeys_cons.mp hnodup
    refine (ih hrest (backend.put (accountKey key) (codec.serialize account))).trans ?_
    by_cases ha : address = key
    · subst ha
      rw [List.dlookup_eq_none.mpr hkey, List.dlookup_cons_eq, put, Function.update_self]
      rfl
    · rw [List.dlookup_cons_ne _ _ ha, put,
        Function.update_of_ne fun he => ha (accountKey_injective he)]

end Backend

namespace StateDB

variable (codec : Codec)

/-! ## The newest account, and the one that `get_account` returns -/

/-- The account that was set last, or the backend's. -/
def newest (db : StateDB) : Accounts := fun address =>
  (db.dirtyAccounts.lookup address).or (db.backend.loadAccount codec address)

/-- What `get_account` returns. -/
def view (db : StateDB) : Accounts := fun address => (db.getAccount codec address).2

/-- `get_account` returns the newest account everywhere. -/
def Coherent (db : StateDB) : Prop := db.view codec = db.newest codec

/-- Where the eviction of this `set_account` drops an account, the account is not
dirty, or the backend has the same. -/
def CleanEviction (db : StateDB) (address : Address) (account : Account) (eviction : Eviction) :
    Prop :=
  ∀ a, ((db.insertAccount address account).accounts.lookup a).isSome →
    (db.setAccount address account eviction).accounts.lookup a = none →
    (db.insertAccount address account).dirtyAccounts.lookup a = none ∨
      (db.insertAccount address account).dirtyAccounts.lookup a = db.backend.loadAccount codec a

variable {codec} {db : StateDB}

theorem view_apply (address : Address) : db.view codec address
    = (db.accounts.lookup address).or (db.backend.loadAccount codec address) := by
  unfold view getAccount
  cases db.accounts.lookup address with
  | some account => rfl
  | none => cases db.backend.loadAccount codec address <;> rfl

/-- An account in a coherent cache is the newest. -/
theorem Coherent.newest_of_cached (h : db.Coherent codec) {address : Address} {account : Account}
    (hc : db.accounts.lookup address = some account) : db.newest codec address = some account := by
  rw [← congrFun h address, view_apply, hc]
  rfl

/-! ## `get_account` -/

theorem newest_getAccount (address : Address) :
    (db.getAccount codec address).1.newest codec = db.newest codec := by
  unfold getAccount
  cases db.accounts.lookup address with
  | some account => rfl
  | none => cases db.backend.loadAccount codec address <;> rfl

/-- Loading an account into the cache changes nothing that is read. -/
theorem view_getAccount (address : Address) :
    (db.getAccount codec address).1.view codec = db.view codec := by
  funext a
  rw [view_apply, view_apply]
  unfold getAccount
  cases hc : db.accounts.lookup address with
  | some account => rfl
  | none =>
    cases hl : db.backend.loadAccount codec address with
    | none => rfl
    | some account =>
      by_cases ha : a = address
      · dsimp only
        rw [ha, AList.lookup_insert, hc, hl]
        rfl
      · dsimp only
        rw [AList.lookup_insert_ne ha]

/-! ## `set_account` -/

/-- The account that is set is the newest. -/
theorem newest_insertAccount (address : Address) (account : Account) :
    (db.insertAccount address account).newest codec
      = Function.update (db.newest codec) address (some account) := by
  funext a
  by_cases ha : a = address
  · rw [ha, Function.update_self, newest, insertAccount, AList.lookup_insert]
    rfl
  · rw [Function.update_of_ne ha, newest, insertAccount, AList.lookup_insert_ne ha]
    rfl

/-- The account that is set is what is read. -/
theorem view_insertAccount (address : Address) (account : Account) :
    (db.insertAccount address account).view codec
      = Function.update (db.view codec) address (some account) := by
  funext a
  rw [view_apply]
  by_cases ha : a = address
  · rw [ha, Function.update_self, insertAccount, AList.lookup_insert]
    rfl
  · rw [Function.update_of_ne ha, insertAccount, AList.lookup_insert_ne ha, view_apply]

/-- An eviction keeps an entry or drops it. -/
theorem lookup_evictLoop (toRemove : Nat) (coin : Address → Bool) (a : Address)
    (addresses : List Address) : ∀ (removed : Nat) (accounts : AccountMap),
      (evictLoop toRemove coin addresses removed accounts).lookup a = accounts.lookup a ∨
        (evictLoop toRemove coin addresses removed accounts).lookup a = none := by
  induction addresses with
  | nil => exact fun _ _ => Or.inl rfl
  | cons address rest ih =>
    intro removed accounts
    unfold evictLoop
    split
    next => exact Or.inl rfl
    next =>
      split
      next =>
        by_cases ha : a = address
        · have hnone : (accounts.erase address).lookup a = none := ha ▸ AList.lookup_erase ..
          have hrest := ih (removed + 1) (accounts.erase address)
          rw [hnone] at hrest
          exact Or.inr (hrest.elim id id)
        · have hrest := ih (removed + 1) (accounts.erase address)
          rwa [AList.lookup_erase_ne ha] at hrest
      next => exact ih removed accounts

/-- `set_account` is its inserts, less what is evicted from the cache. -/
theorem setAccount_eq (db : StateDB) (address : Address) (account : Account)
    (eviction : Eviction) :
    ∃ accounts, db.setAccount address account eviction
        = { db.insertAccount address account with accounts } ∧
      ∀ a, accounts.lookup a = (db.insertAccount address account).accounts.lookup a ∨
        accounts.lookup a = none := by
  unfold setAccount
  dsimp only
  split
  next => exact ⟨_, rfl, fun a => lookup_evictLoop ..⟩
  next => exact ⟨_, rfl, fun a => Or.inl rfl⟩

theorem newest_setAccount (address : Address) (account : Account) (eviction : Eviction) :
    (db.setAccount address account eviction).newest codec
      = Function.update (db.newest codec) address (some account) := by
  obtain ⟨accounts, heq, -⟩ := setAccount_eq db address account eviction
  rw [heq, ← newest_insertAccount]
  rfl

/-- The inserts of `set_account` keep the view coherent. -/
theorem Coherent.insertAccount (h : db.Coherent codec) (address : Address) (account : Account) :
    (db.insertAccount address account).Coherent codec := by
  rw [Coherent, view_insertAccount, newest_insertAccount, h]

/-- After `set_account` the view is coherent just if the eviction was clean. -/
theorem Coherent.setAccount_iff (h : db.Coherent codec) (address : Address) (account : Account)
    (eviction : Eviction) : (db.setAccount address account eviction).Coherent codec ↔
      db.CleanEviction codec address account eviction := by
  have hinsert := h.insertAccount address account
  obtain ⟨accounts, heq, hkept⟩ := setAccount_eq db address account eviction
  unfold CleanEviction
  rw [heq]
  constructor
  · intro hafter a _ hgone
    have hload := congrFun hafter a
    rw [view_apply] at hload
    dsimp only at hload hgone
    rw [hgone, Option.none_or] at hload
    unfold newest at hload
    cases hd : (db.insertAccount address account).dirtyAccounts.lookup a with
    | none => exact Or.inl rfl
    | some dirty =>
      dsimp only at hload
      rw [hd, Option.some_or] at hload
      exact Or.inr hload.symm
  · intro hclean
    funext a
    have hbefore := congrFun hinsert a
    rw [view_apply] at hbefore ⊢
    dsimp only
    cases hc : (db.insertAccount address account).accounts.lookup a with
    | none =>
      have hnone : accounts.lookup a = none := (hkept a).elim (fun e => e.trans hc) id
      rw [hnone]
      rw [hc] at hbefore
      exact hbefore
    | some cached =>
      cases hkept a with
      | inl hsame =>
        rw [hsame]
        exact hbefore
      | inr hgone =>
        -- The account has to come from the backend now.
        have hdirty := hclean a (by rw [hc]; rfl) hgone
        rw [hgone, Option.none_or]
        unfold newest
        dsimp only
        cases hdirty with
        | inl hnone =>
          rw [hnone]
          rfl
        | inr hload =>
          rw [hload]
          show db.backend.loadAccount codec a
            = (db.backend.loadAccount codec a).or (db.backend.loadAccount codec a)
          cases db.backend.loadAccount codec a <;> rfl

/-! ## `commit` -/

/-- The entry of a block is no account. -/
theorem loadAccount_put_blockKey (backend : Backend) (blockHash : H256) (value : List UInt8)
    (address : Address) :
    (backend.put (blockKey blockHash) value).loadAccount codec address
      = backend.loadAccount codec address := by
  unfold Backend.loadAccount
  rw [Backend.put, Function.update_of_ne (accountKey_ne_blockKey address blockHash)]

/-- The batch of `commit` moves the dirty accounts into the backend. -/
theorem loadAccount_commitBatch (orders : CommitOrders) (address : Address) :
    (db.backend.batchPut (db.commitBatch codec orders)).loadAccount codec address
      = db.newest codec address := by
  have hperm := orders.accounts.perm db.dirtyAccounts.entries
  have hnodup : (orders.accounts.arrange db.dirtyAccounts.entries).NodupKeys :=
    (List.perm_nodupKeys hperm).mpr db.dirtyAccounts.nodupKeys
  have hkey : db.backend.batchPut (db.commitBatch codec orders) (accountKey address)
      = ((db.dirtyAccounts.lookup address).map codec.serialize).or
          (db.backend (accountKey address)) := by
    unfold commitBatch
    rw [Backend.batchPut_append, Backend.batchPut_append, Backend.batchPut_of_forall_ne,
      Backend.batchPut_of_forall_ne, Backend.batchPut_accounts _ _ _ hnodup,
      List.perm_dlookup address hnodup hperm]
    · rfl
    · intro entry hmem
      obtain ⟨e, -, rfl⟩ := List.mem_map.mp hmem
      exact accountKey_ne_storageKey _ _ _
    · intro entry hmem
      obtain ⟨e, -, rfl⟩ := List.mem_map.mp hmem
      exact accountKey_ne_codeKey _ _
  unfold newest Backend.loadAccount
  rw [hkey]
  cases db.dirtyAccounts.lookup address with
  | none => rfl
  | some account => exact codec.deserialize_serialize account

theorem loadAccount_commit (blockHash : H256) (orders : CommitOrders) (address : Address) :
    (db.commit codec blockHash orders).backend.loadAccount codec address
      = db.newest codec address :=
  (loadAccount_put_blockKey ..).trans (loadAccount_commitBatch orders address)

theorem newest_commit (blockHash : H256) (orders : CommitOrders) :
    (db.commit codec blockHash orders).newest codec = db.newest codec :=
  funext fun address => loadAccount_commit blockHash orders address

/-- A commit leaves what is read. -/
theorem Coherent.commit (h : db.Coherent codec) (blockHash : H256) (orders : CommitOrders) :
    (db.commit codec blockHash orders).Coherent codec := by
  rw [Coherent, newest_commit]
  funext address
  rw [view_apply, loadAccount_commit]
  show (db.accounts.lookup address).or (db.newest codec address) = db.newest codec address
  cases hc : db.accounts.lookup address with
  | none => rfl
  | some account =>
    rw [h.newest_of_cached hc]
    rfl

/-! ## Runs -/

end StateDB

/-- A call on a `StateDB`, with its choices. -/
inductive DbCall where
  | getAccount (address : Address)
  | setAccount (address : Address) (account : Account) (eviction : Eviction)
  | commit (blockHash : H256) (orders : CommitOrders)

/-- The state after a call. -/
def DbCall.run (codec : Codec) (db : StateDB) : DbCall → StateDB
  | .getAccount address => (db.getAccount codec address).1
  | .setAccount address account eviction => db.setAccount address account eviction
  | .commit blockHash orders => db.commit codec blockHash orders

/-- What a call does to the accounts as they should be read. -/
def DbCall.effect (accounts : Accounts) : DbCall → Accounts
  | .setAccount address account _ => Function.update accounts address (some account)
  | _ => accounts

/-- The state after a run of calls. -/
def StateDB.runCalls (codec : Codec) (db : StateDB) (calls : List DbCall) : StateDB :=
  calls.foldl (DbCall.run codec) db

/-- The account last set in a run of calls, or the one that was there before. -/
def latest (accounts : Accounts) (calls : List DbCall) : Accounts :=
  calls.foldl DbCall.effect accounts

namespace StateDB

variable {codec : Codec} {db : StateDB}

/-- The newest account after a call is the one that it sets, whatever is evicted. -/
theorem newest_run (call : DbCall) :
    (call.run codec db).newest codec = call.effect (db.newest codec) := by
  cases call with
  | getAccount address => exact newest_getAccount address
  | setAccount address account eviction => exact newest_setAccount address account eviction
  | commit blockHash orders => exact newest_commit blockHash orders

theorem coherent_new (backend : Backend) (cacheSize : Nat) :
    { new backend with cacheSize }.Coherent codec := by
  funext address
  rw [view_apply]
  rfl

/-- The executor's programs, run on a `StateDB`; `evict` chooses the evictions. -/
def exec (codec : Codec) (evict : StateDB → Address → Account → Eviction) {α : Type} :
    Exec α → StateDB → Outcome StateMachineError α × StateDB
  | .ret a, db => (.ok a, db)
  | .fail e, db => (.err e, db)
  | .panic, db => (.panicked, db)
  | .read address cont, db =>
    exec codec evict (cont (db.getAccount codec address).2) (db.getAccount codec address).1
  | .write address account cont, db =>
    exec codec evict cont (db.setAccount address account (evict db address account))

/-- With clean evictions, a program run on a coherent `StateDB` is the program run on
the accounts that `get_account` returns. -/
theorem Coherent.exec_eq_run {evict : StateDB → Address → Account → Eviction}
    (hclean : ∀ db address account,
      CleanEviction codec db address account (evict db address account)) {α : Type}
    (p : Exec α) : ∀ db : StateDB, db.Coherent codec →
      (exec codec evict p db).1 = (p.run (db.view codec)).1 ∧
      (exec codec evict p db).2.view codec = (p.run (db.view codec)).2 ∧
      (exec codec evict p db).2.Coherent codec := by
  induction p with
  | ret a => exact fun _ h => ⟨rfl, rfl, h⟩
  | fail e => exact fun _ h => ⟨rfl, rfl, h⟩
  | panic => exact fun _ h => ⟨rfl, rfl, h⟩
  | read address cont ih =>
    intro db h
    have hget : (db.getAccount codec address).1.Coherent codec := by
      rw [Coherent, view_getAccount, newest_getAccount]
      exact h
    have hrest := ih (db.view codec address) _ hget
    rw [view_getAccount] at hrest
    exact hrest
  | write address account cont ih =>
    intro db h
    have hset := (h.setAccount_iff address account _).mpr (hclean db address account)
    have hview : (db.setAccount address account (evict db address account)).view codec
        = Function.update (db.view codec) address (some account) := by
      rw [hset, newest_setAccount, h]
    have hrest := ih _ hset
    rw [hview] at hrest
    exact hrest

end StateDB

/-! ## A sample format -/

/-- A fixed-width byte format for accounts. -/
def sampleSerialize (account : Account) : List UInt8 :=
  toBeBytes 8 account.nonce ++ (toBeBytes 32 account.balance ++ (account.storageRoot.toList ++
    match account.codeHash with
    | none => []
    | some hash => hash.toList))

/-- 32 bytes. -/
def hashOfBytes (bytes : List UInt8) : H256 := Vector.ofFn fun i => bytes.getD i 0

/-- The inverse of `sampleSerialize`. -/
def sampleDeserialize (bytes : List UInt8) : Option Account :=
  some {
    nonce := BitVec.ofNat 64 (ofBeBytes (bytes.take 8))
    balance := BitVec.ofNat 256 (ofBeBytes ((bytes.drop 8).take 32))
    storageRoot := hashOfBytes (((bytes.drop 8).drop 32).take 32)
    codeHash := match ((bytes.drop 8).drop 32).drop 32 with
      | [] => none
      | b :: rest => some (hashOfBytes (b :: rest)) }

/-- 32 bytes give their hash back. -/
theorem hashOfBytes_toList (hash : H256) : hashOfBytes hash.toList = hash := by
  refine Vector.ext fun i hi => ?_
  have hlength : i < hash.toList.length := hash.length_toList.symm ▸ hi
  rw [hashOfBytes, Vector.getElem_ofFn, List.getD_eq_getElem?_getD,
    List.getElem?_eq_getElem hlength, Option.getD_some]
  exact Vector.getElem_toList _

/-- The sample format as a codec. -/
def sampleCodec : Codec where
  serialize := sampleSerialize
  deserialize := sampleDeserialize
  deserialize_serialize := by
    intro account
    have hnonce := length_toBeBytes 8 account.nonce
    have hbalance := length_toBeBytes 32 account.balance
    have hroot := account.storageRoot.length_toList
    rw [sampleDeserialize, sampleSerialize, List.take_left' hnonce, List.drop_left' hnonce,
      List.take_left' hbalance, List.drop_left' hbalance, List.take_left' hroot,
      List.drop_left' hroot, ofBeBytes_toBeBytes _ (by decide), ofBeBytes_toBeBytes _ (by decide),
      hashOfBytes_toList]
    obtain ⟨nonce, balance, storageRoot, codeHash⟩ := account
    cases codeHash with
    | none => rfl
    | some hash =>
      have hlength := hash.length_toList
      have hhash := hashOfBytes_toList hash
      dsimp only
      split
      next hnil =>
        rw [hnil] at hlength
        cases hlength
      next b rest hcons =>
        rw [hcons] at hhash
        rw [hhash]

end InterBit.StateMachine
