import InterBit.Lib.Assoc
import InterBit.StateMachine.ContractStorage

/-!
# Snapshots of a `StateDB`

`create_snapshot` and `restore_snapshot` of `state_machine/state.rs`. A snapshot has the
three caches. The backend does not change without a commit, so that whatever is read
after a restore is as it was when the snapshot was taken.

The dirty map is in no snapshot. A commit after the restore writes the accounts that
have been set since, and `restore_iff` says that it writes what was there at the time of
the snapshot if and only if these are.

Two states are compared by what is read from them (`SameReads`) and not by their fields, because a
restored cache may hold what the old one has had to load, and the other way round. The proof that a
restore brings the reads back uses just two facts about the calls in between: none of them writes
the backend, and what they add to the dirty map is what they have set.

`AsOf` is the same for a commit. It says of a single entry of the batch that it has the value of
the time of the snapshot, for each kind of key that a commit writes. For storage and code this
holds in any case, as the commit takes them from the caches that have been restored. For an account
it is exactly the condition that `restore_iff` names (`asOf_account_iff`), with the caveat that an
account which was dirty at the time of the snapshot counts as it was then.

Reads between the restore and the commit are allowed for. They fill the caches
(`sameReads_afterRead`), and nothing that is filled in differs from what would have been read.
-/

namespace InterBit.StateMachine

open InterBit.Lib

/-- `struct StateSnapshot`. -/
structure StateSnapshot where
  accounts : List (Sigma fun _ : Address => Account)
  storage : List (Sigma fun _ : H256 × H256 => H256)
  code : List (Sigma fun _ : H256 => List UInt8)

/-- A read, with the cache that it fills. -/
inductive StateRead where
  | getAccount (address : Address)
  | getStorage (address : Address) (key : H256)
  | getCode (codeHash : H256)

/-- A call that is no commit. -/
inductive StateCall where
  | read (read : StateRead)
  | setAccount (address : Address) (account : Account) (eviction : Eviction)
  | setStorage (address : Address) (key value : H256)
  | setCode (address : Address) (code : List UInt8) (eviction : Eviction)

namespace StateDB

/-- `create_snapshot`, with the orders in which it goes through the caches. -/
def createSnapshot (db : StateDB) (orders : CommitOrders) : StateSnapshot :=
  { accounts := orders.accounts.arrange db.accounts.entries
    storage := orders.storage.arrange db.storage.entries
    code := orders.code.arrange db.code.entries }

/-- `restore_snapshot`. -/
def restoreSnapshot (db : StateDB) (snapshot : StateSnapshot) : StateDB :=
  { db with
    accounts := insertAll snapshot.accounts ∅
    storage := insertAll snapshot.storage ∅
    code := insertAll snapshot.code ∅ }

/-- The state after a read. -/
def afterRead (codec : Codec) (db : StateDB) : StateRead → StateDB
  | .getAccount address => (db.getAccount codec address).1
  | .getStorage address key => (db.getStorage address key).1
  | .getCode codeHash => (db.getCode codeHash).1

/-- The state after a call. -/
def afterCall (env : Env) (codec : Codec) (db : StateDB) : StateCall → StateDB
  | .read read => db.afterRead codec read
  | .setAccount address account eviction => db.setAccount address account eviction
  | .setStorage address key value => db.setStorage address key value
  | .setCode address code eviction => (db.setCode env codec address code eviction).1

/-- The account that a call sets. -/
def accountSet (env : Env) (codec : Codec) (db : StateDB) : StateCall → Option (Address × Account)
  | .setAccount address account _ => some (address, account)
  | .setCode address code _ =>
    (db.view codec address).map fun account =>
      (address, { account with codeHash := some (env.sha256 code) })
  | _ => none

/-- The state after a run of calls. -/
def afterCalls (env : Env) (codec : Codec) (db : StateDB) (calls : List StateCall) : StateDB :=
  calls.foldl (afterCall env codec) db

/-- The account last set at each address in a run of calls. -/
def lastSet (env : Env) (codec : Codec) : StateDB → List StateCall → Accounts
  | _, [] => fun _ => none
  | db, call :: calls => fun address =>
    (lastSet env codec (db.afterCall env codec call) calls address).or
      ((db.accountSet env codec call).bind fun set =>
        if set.1 = address then some set.2 else none)

/-- Two states from which the same is read. -/
structure SameReads (codec : Codec) (db db' : StateDB) : Prop where
  account : ∀ address, (db.getAccount codec address).2 = (db'.getAccount codec address).2
  storage : ∀ address key, (db.getStorage address key).2 = (db'.getStorage address key).2
  code : ∀ codeHash, (db.getCode codeHash).2 = (db'.getCode codeHash).2

variable {env : Env} {codec : Codec} {db : StateDB}

/-! ## What is read -/

/-- A slot is read from the cache, or else from the backend, or else it is 0. -/
theorem getStorage_apply (address : Address) (key : H256) : (db.getStorage address key).2
    = ((db.storage.lookup (addressHash address, key)).or
        (db.backend.loadStorage address key)).getD (Vector.replicate 32 0) := by
  unfold getStorage
  cases db.storage.lookup (addressHash address, key) with
  | some value => rfl
  | none => cases db.backend.loadStorage address key <;> rfl

/-- Code is read from the cache, or else from the backend. -/
theorem getCode_apply (codeHash : H256) : (db.getCode codeHash).2
    = (db.code.lookup codeHash).or (db.backend (codeKey codeHash)) := by
  unfold getCode
  cases db.code.lookup codeHash with
  | some code => rfl
  | none => cases db.backend (codeKey codeHash) <;> rfl

/-- A read depends on what is cached, and on the backend where nothing is. -/
theorem sameReads_of_or {db' : StateDB}
    (haccount : ∀ address, (db.accounts.lookup address).or (db.backend.loadAccount codec address)
      = (db'.accounts.lookup address).or (db'.backend.loadAccount codec address))
    (hstorage : ∀ address key,
      (db.storage.lookup (addressHash address, key)).or (db.backend.loadStorage address key)
        = (db'.storage.lookup (addressHash address, key)).or (db'.backend.loadStorage address key))
    (hcode : ∀ codeHash, (db.code.lookup codeHash).or (db.backend (codeKey codeHash))
      = (db'.code.lookup codeHash).or (db'.backend (codeKey codeHash))) :
    SameReads codec db db' where
  account address := by
    show db.view codec address = db'.view codec address
    rw [view_apply, view_apply, haccount]
  storage address key := by rw [getStorage_apply, getStorage_apply, hstorage]
  code codeHash := by rw [getCode_apply, getCode_apply, hcode]

/-- Reads that agree agree from one state to the next. -/
theorem SameReads.trans {db' db'' : StateDB} (h : SameReads codec db db')
    (h' : SameReads codec db' db'') : SameReads codec db db'' where
  account address := (h.account address).trans (h'.account address)
  storage address key := (h.storage address key).trans (h'.storage address key)
  code codeHash := (h.code codeHash).trans (h'.code codeHash)

/-! ## What a call leaves alone -/

/-- A read of an account changes the cache of the accounts only. -/
theorem getAccount_eq (codec : Codec) (db : StateDB) (address : Address) :
    ∃ accounts, (db.getAccount codec address).1 = { db with accounts } := by
  unfold getAccount
  split
  next => exact ⟨_, rfl⟩
  next =>
    split
    next => exact ⟨_, rfl⟩
    next => exact ⟨_, rfl⟩

/-- A read fills a cache, and changes nothing that is read. -/
theorem sameReads_afterRead (db : StateDB) (read : StateRead) :
    SameReads codec (db.afterRead codec read) db := by
  have hrefl : SameReads codec db db := ⟨fun _ => rfl, fun _ _ => rfl, fun _ => rfl⟩
  cases read with
  | getAccount address =>
    obtain ⟨accounts, heq⟩ := getAccount_eq codec db address
    have hview : (db.getAccount codec address).1.view codec = db.view codec :=
      view_getAccount address
    rw [heq] at hview
    rw [afterRead, heq]
    refine sameReads_of_or (fun a => ?_) (fun _ _ => rfl) fun _ => rfl
    have hone := congrFun hview a
    rw [view_apply, view_apply] at hone
    exact hone
  | getStorage address key =>
    rw [afterRead, getStorage]
    split
    next => exact hrefl
    next hnone =>
      split
      next value hload =>
        refine sameReads_of_or (fun _ => rfl) (fun a k => ?_) fun _ => rfl
        dsimp only
        -- the slot that was loaded reads as the backend has it
        by_cases hslot : (addressHash a, k) = (addressHash address, key)
        · obtain ⟨haddress, rfl⟩ := Prod.mk.inj hslot
          obtain rfl := addressHash_injective haddress
          rw [AList.lookup_insert, hnone, hload]
          rfl
        · rw [AList.lookup_insert_ne hslot]
      next => exact hrefl
  | getCode codeHash =>
    rw [afterRead, getCode]
    split
    next => exact hrefl
    next hnone =>
      split
      next code hload =>
        refine sameReads_of_or (fun _ => rfl) (fun _ _ => rfl) fun h => ?_
        dsimp only
        by_cases hh : h = codeHash
        -- code that was loaded reads as the backend has it
        · rw [hh, AList.lookup_insert, hnone, hload]
          rfl
        · rw [AList.lookup_insert_ne hh]
      next => exact hrefl

/-- A read changes neither the backend nor what is dirty. -/
theorem afterRead_frame (db : StateDB) (read : StateRead) :
    (db.afterRead codec read).backend = db.backend ∧
      (db.afterRead codec read).dirtyAccounts = db.dirtyAccounts := by
  cases read with
  | getAccount address =>
    obtain ⟨accounts, heq⟩ := getAccount_eq codec db address
    rw [afterRead, heq]
    exact ⟨rfl, rfl⟩
  | getStorage address key =>
    rw [afterRead, getStorage]
    split
    next => exact ⟨rfl, rfl⟩
    next => split <;> exact ⟨rfl, rfl⟩
  | getCode codeHash =>
    rw [afterRead, getCode]
    split
    next => exact ⟨rfl, rfl⟩
    next => split <;> exact ⟨rfl, rfl⟩

/-- Setting an account leaves the backend, and makes the account dirty. -/
theorem setAccount_frame (db : StateDB) (address : Address) (account : Account)
    (eviction : Eviction) :
    (db.setAccount address account eviction).backend = db.backend ∧
      (db.setAccount address account eviction).dirtyAccounts
        = db.dirtyAccounts.insert address account := by
  obtain ⟨accounts, heq, -⟩ := setAccount_eq db address account eviction
  rw [heq]
  exact ⟨rfl, rfl⟩

/-- `set_code` is a `set_account` if the account exists. -/
theorem setCode_frame (db : StateDB) (address : Address) (code : List UInt8)
    (eviction : Eviction) :
    (db.setCode env codec address code eviction).1.backend = db.backend ∧
      (db.setCode env codec address code eviction).1.dirtyAccounts
        = match db.view codec address with
          | some account =>
            db.dirtyAccounts.insert address { account with codeHash := some (env.sha256 code) }
          | none => db.dirtyAccounts := by
  have hview : { db with code := db.code.insert (env.sha256 code) code }.view codec address
      = db.view codec address := by
    rw [view_apply, view_apply]
  obtain ⟨accounts, heq⟩ := getAccount_eq codec
    { db with code := db.code.insert (env.sha256 code) code } address
  rw [view] at hview
  unfold setCode
  dsimp only
  split
  next db' account hget =>
    rw [hget] at hview heq
    dsimp only at hview heq ⊢
    obtain ⟨hbackend, hdirty⟩ := setAccount_frame db' address
      { account with codeHash := some (env.sha256 code) } eviction
    rw [hbackend, hdirty, ← hview, heq]
    exact ⟨rfl, rfl⟩
  next db' hget =>
    rw [hget] at hview heq
    dsimp only at hview heq ⊢
    rw [← hview, heq]
    exact ⟨rfl, rfl⟩

/-- Only a commit reaches the backend. -/
theorem afterCall_backend (db : StateDB) (call : StateCall) :
    (db.afterCall env codec call).backend = db.backend := by
  cases call with
  | read read => exact (afterRead_frame db read).1
  | setAccount address account eviction => exact (setAccount_frame ..).1
  | setStorage address key value => rfl
  | setCode address code eviction => exact (setCode_frame ..).1

/-- The account that a call sets gets into the dirty map. -/
theorem afterCall_dirty (db : StateDB) (call : StateCall) (address : Address) :
    (db.afterCall env codec call).dirtyAccounts.lookup address
      = ((db.accountSet env codec call).bind fun set =>
          if set.1 = address then some set.2 else none).or (db.dirtyAccounts.lookup address) := by
  have hinsert : ∀ (owner : Address) (account : Account),
      (db.dirtyAccounts.insert owner account).lookup address
        = (if owner = address then some account else none).or (db.dirtyAccounts.lookup address) := by
    intro owner account
    by_cases howner : owner = address
    · rw [if_pos howner, ← howner, AList.lookup_insert]
      rfl
    · rw [if_neg howner, AList.lookup_insert_ne (Ne.symm howner)]
      rfl
  cases call with
  | read read =>
    rw [afterCall, (afterRead_frame db read).2]
    rfl
  | setAccount owner account eviction =>
    rw [afterCall, (setAccount_frame ..).2, hinsert]
    rfl
  | setStorage owner key value => rfl
  | setCode owner code eviction =>
    rw [afterCall, (setCode_frame ..).2, accountSet]
    cases db.view codec owner with
    | none => rfl
    | some account => exact hinsert ..

/-- A run without a commit leaves the backend. -/
theorem afterCalls_backend (calls : List StateCall) : ∀ db : StateDB,
    (db.afterCalls env codec calls).backend = db.backend := by
  induction calls with
  | nil => exact fun _ => rfl
  | cons call calls ih => exact fun db => (ih _).trans (afterCall_backend db call)

/-- After some calls the account last set is dirty, or else what was. -/
theorem afterCalls_dirty (calls : List StateCall) : ∀ (db : StateDB) (address : Address),
    (db.afterCalls env codec calls).dirtyAccounts.lookup address
      = (db.lastSet env codec calls address).or (db.dirtyAccounts.lookup address) := by
  induction calls with
  | nil => exact fun _ _ => rfl
  | cons call calls ih =>
    intro db address
    refine (ih (db.afterCall env codec call) address).trans ?_
    rw [afterCall_dirty, lastSet, Option.or_assoc]

/-! ## After a restore -/

/-- Some reads. -/
def afterReads (codec : Codec) (db : StateDB) (reads : List StateRead) : StateDB :=
  reads.foldl (afterRead codec) db

/-- Reads make nothing dirty. -/
theorem afterReads_dirty (reads : List StateRead) : ∀ db : StateDB,
    (db.afterReads codec reads).dirtyAccounts = db.dirtyAccounts := by
  induction reads with
  | nil => exact fun _ => rfl
  | cons read reads ih => exact fun db => (ih _).trans (afterRead_frame db read).2

/-- Reads leave all reads as they are. -/
theorem sameReads_afterReads (reads : List StateRead) : ∀ db : StateDB,
    SameReads codec (db.afterReads codec reads) db := by
  induction reads with
  | nil => exact fun _ => ⟨fun _ => rfl, fun _ _ => rfl, fun _ => rfl⟩
  | cons read reads ih => exact fun db => (ih _).trans (sameReads_afterRead db read)

/-- A slot that some reads have cached is a slot of an address. -/
theorem storage_afterReads (slot : H256 × H256) (reads : List StateRead) : ∀ db : StateDB,
    (db.afterReads codec reads).storage.lookup slot = db.storage.lookup slot ∨
      ∃ address, slot.1 = addressHash address := by
  induction reads with
  | nil => exact fun _ => .inl rfl
  | cons read reads ih =>
    intro db
    refine (ih (db.afterRead codec read)).elim (fun hsame => ?_) .inr
    have hone : (db.afterRead codec read).storage.lookup slot = db.storage.lookup slot ∨
        ∃ address, slot.1 = addressHash address := by
      cases read with
      | getAccount address =>
        obtain ⟨accounts, heq⟩ := getAccount_eq codec db address
        rw [afterRead, heq]
        exact .inl rfl
      | getStorage address key =>
        rw [afterRead, getStorage]
        split
        next => exact .inl rfl
        next =>
          split
          next =>
            -- Only a slot that is asked for is loaded, and the address is hashed for that.
            by_cases hslot : slot = (addressHash address, key)
            · exact .inr ⟨address, congrArg Prod.fst hslot⟩
            · exact .inl (AList.lookup_insert_ne hslot)
          next => exact .inl rfl
      | getCode codeHash =>
        rw [afterRead, getCode]
        split
        next => exact .inl rfl
        next => split <;> exact .inl rfl
    exact hone.elim (fun h => .inl (hsame.trans h)) .inr

/-- What is written has the value that it had in the state `db`: an account as it was
read or dirty, a slot and a code as they were read or cached. -/
inductive AsOf (codec : Codec) (db : StateDB) : String × List UInt8 → Prop
  | account (address : Address) (account : Account) :
      (db.getAccount codec address).2 = some account ∨
        db.dirtyAccounts.lookup address = some account →
      AsOf codec db (accountKey address, codec.serialize account)
  | storage (address : Address) (key : H256) :
      AsOf codec db
        (storageKeyFromHash (addressHash address) key, (db.getStorage address key).2.toList)
  | slot (slot : H256 × H256) (value : H256) : db.storage.lookup slot = some value →
      AsOf codec db (storageKeyFromHash slot.1 slot.2, value.toList)
  | code (codeHash : H256) (code : List UInt8) : (db.getCode codeHash).2 = some code →
      AsOf codec db (codeKey codeHash, code)

/-- An account that is written is as it was, just if it was read so or dirty. -/
theorem asOf_account_iff (address : Address) (account : Account) :
    AsOf codec db (accountKey address, codec.serialize account) ↔
      (db.getAccount codec address).2 = some account ∨
        db.dirtyAccounts.lookup address = some account := by
  constructor
  · generalize hentry : (accountKey address, codec.serialize account) = entry
    rintro (⟨a, x, h⟩ | ⟨a, key⟩ | ⟨slot, value, _⟩ | ⟨codeHash, code, _⟩)
    · obtain ⟨hkey, hvalue⟩ := Prod.mk.inj hentry
      obtain rfl := accountKey_injective hkey
      have hx := congrArg codec.deserialize hvalue
      rw [codec.deserialize_serialize, codec.deserialize_serialize] at hx
      rw [Option.some.inj hx]
      exact h
    · exact absurd (Prod.mk.inj hentry).1 (accountKey_ne_storageKey _ _ _)
    · exact absurd (Prod.mk.inj hentry).1 (accountKey_ne_storageKey _ _ _)
    · exact absurd (Prod.mk.inj hentry).1 (accountKey_ne_codeKey _ _)
  · exact .account address account

/-- A restore brings back what the snapshot has read. -/
theorem sameReads_restoreSnapshot (db db' : StateDB) (orders : CommitOrders)
    (hbackend : db'.backend = db.backend) :
    SameReads codec (db'.restoreSnapshot (db.createSnapshot orders)) db := by
  have haccounts : ∀ address, (db'.restoreSnapshot (db.createSnapshot orders)).accounts.lookup
      address = db.accounts.lookup address := lookup_insertAll_of_perm (orders.accounts.perm _)
  have hstorage : ∀ slot, (db'.restoreSnapshot (db.createSnapshot orders)).storage.lookup slot
      = db.storage.lookup slot := lookup_insertAll_of_perm (orders.storage.perm _)
  have hcode : ∀ codeHash, (db'.restoreSnapshot (db.createSnapshot orders)).code.lookup codeHash
      = db.code.lookup codeHash := lookup_insertAll_of_perm (orders.code.perm _)
  have hkept : (db'.restoreSnapshot (db.createSnapshot orders)).backend = db.backend := hbackend
  refine sameReads_of_or (fun address => ?_) (fun address key => ?_) fun codeHash => ?_
  · rw [haccounts, hkept]
  · rw [hstorage, hkept]
  · rw [hcode, hkept]

/-- A snapshot is taken, some calls are made that are no commit, the snapshot is
restored, and maybe something is read. Then everything is read as at the time of the
snapshot. A commit writes it as of then if and only if every account that the calls have
set, as they have last set it, was read so or dirty at that time. -/
theorem restore_iff (env : Env) (codec : Codec) (db : StateDB) (orders : CommitOrders)
    (calls : List StateCall) (reads : List StateRead) :
    let restored := ((db.afterCalls env codec calls).restoreSnapshot
      (db.createSnapshot orders)).afterReads codec reads
    SameReads codec restored db ∧
      ((∀ commitOrders, ∀ entry ∈ restored.commitBatch codec commitOrders, AsOf codec db entry) ↔
        ∀ address account, db.lastSet env codec calls address = some account →
          (db.getAccount codec address).2 = some account ∨
            db.dirtyAccounts.lookup address = some account) := by
  intro restored
  have hsame : SameReads codec restored db := (sameReads_afterReads reads _).trans
    (sameReads_restoreSnapshot db _ orders (afterCalls_backend calls db))
  -- a restore leaves the marks, so what was set since is still dirty
  have hdirty : ∀ address, restored.dirtyAccounts.lookup address
      = (db.lastSet env codec calls address).or (db.dirtyAccounts.lookup address) := by
    intro address
    rw [afterReads_dirty]
    exact afterCalls_dirty calls db address
  refine ⟨hsame, fun hwrites address account hset => ?_, fun hsets commitOrders entry hentry => ?_⟩
  -- a dirty account is written by the next commit, in whatever order
  · have hmem : (⟨address, account⟩ : Sigma fun _ : Address => Account)
        ∈ orders.accounts.arrange restored.dirtyAccounts.entries := by
      refine (orders.accounts.perm _).mem_iff.mpr (AList.mem_lookup_iff.mp ?_)
      rw [hdirty, hset]
      rfl
    refine (asOf_account_iff address account).mp (hwrites orders _ ?_)
    exact List.mem_append_left _ (List.mem_append_left _ (List.mem_map_of_mem hmem))
  -- the batch has accounts, then slots, then code
  · rcases List.mem_append.mp hentry with hentry | hentry
    · rcases List.mem_append.mp hentry with hentry | hentry
      · obtain ⟨⟨address, account⟩, hmem, rfl⟩ := List.mem_map.mp hentry
        have hlookup : restored.dirtyAccounts.lookup address = some account :=
          AList.mem_lookup_iff.mpr ((commitOrders.accounts.perm _).mem_iff.mp hmem)
        refine (asOf_account_iff address account).mpr ?_
        rw [hdirty] at hlookup
        cases hset : db.lastSet env codec calls address with
        | none =>
          rw [hset] at hlookup
          exact .inr hlookup
        | some last =>
          rw [hset] at hlookup
          exact hsets address account (hset.trans hlookup)
      · obtain ⟨⟨slot, value⟩, hmem, rfl⟩ := List.mem_map.mp hentry
        have hlookup : restored.storage.lookup slot = some value :=
          AList.mem_lookup_iff.mpr ((commitOrders.storage.perm _).mem_iff.mp hmem)
        -- a slot is as the snapshot has it, or a read has loaded it since
        rcases storage_afterReads slot reads
          ((db.afterCalls env codec calls).restoreSnapshot (db.createSnapshot orders)) with
          hkept | ⟨address, haddress⟩
        · refine .slot slot value ?_
          rw [← hlookup, hkept]
          exact (lookup_insertAll_of_perm (orders.storage.perm _) slot).symm
        · obtain ⟨hash, key⟩ := slot
          obtain rfl : hash = addressHash address := haddress
          have hread := hsame.storage address key
          rw [getStorage_apply, hlookup] at hread
          have hvalue : (db.getStorage address key).2 = value := hread.symm
          exact hvalue ▸ .storage address key
    · obtain ⟨⟨codeHash, code⟩, hmem, rfl⟩ := List.mem_map.mp hentry
      have hlookup : restored.code.lookup codeHash = some code :=
        AList.mem_lookup_iff.mpr ((commitOrders.code.perm _).mem_iff.mp hmem)
      have hread := hsame.code codeHash
      rw [getCode_apply, hlookup] at hread
      exact .code codeHash code hread.symm

/-- The choices of the sample runs. -/
def sampleOrders : CommitOrders :=
  { accounts := sampleOrder, storage := sampleOrder, code := sampleOrder }

/-- Alice's account is set after the snapshot, and written by the commit after the
restore. -/
theorem restored_set_is_written :
    ¬ ∀ entry ∈ (((new fun _ => none).afterCalls sampleEnv sampleCodec
        [.setAccount alice { (default : Account) with balance := 1 }
          { order := sampleOrder, coin := fun _ => false }]).restoreSnapshot
          ((new fun _ => none).createSnapshot sampleOrders)).commitBatch sampleCodec sampleOrders,
      AsOf sampleCodec (new fun _ => none) entry := by
  intro h
  have halice := h (accountKey alice,
    sampleCodec.serialize { (default : Account) with balance := 1 }) (by decide +kernel)
  rw [asOf_account_iff] at halice
  exact absurd halice (by decide +kernel)

end StateDB

end InterBit.StateMachine
