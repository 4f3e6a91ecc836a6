import InterBit.StateMachine.StateDB

/-!
# Contract storage and code

`get_storage`, `set_storage`, `get_code`, `set_code` and `rollback` of
`state_machine/state.rs`.

`commit` writes a slot under `storage_key_from_hash`, which puts the address in hex as
32 bytes, and `get_storage` reads it under `storage_key`, which puts it as 20. No key of
one kind is a key of the other, so a commit changes nothing that `get_storage` reads
from the backend. `storage_survives_iff` says what is left: a value survives if it was
there before.
-/

namespace InterBit.StateMachine

open InterBit.Lib

/-- The address as the 32 bytes of the cache key. -/
def addressHash (address : Address) : H256 :=
  (Vector.replicate 12 (0 : UInt8) ++ address : Vector UInt8 (12 + 20))

/-- `storage_key`. -/
def storageKey (address : Address) (key : H256) : String :=
  "storage:" ++ hexEncode address.toList ++ ":" ++ hexEncode key.toList

/-- The value that `get_storage` loads from the backend. -/
def Backend.loadStorage (backend : Backend) (address : Address) (key : H256) : Option H256 :=
  (backend (storageKey address key)).bind fun data =>
    if data.length = 32 then some (hashOfBytes data) else none

namespace StateDB

/-- `get_storage`. -/
def getStorage (db : StateDB) (address : Address) (key : H256) : StateDB × H256 :=
  match db.storage.lookup (addressHash address, key) with
  | some value => (db, value)
  | none =>
    match db.backend.loadStorage address key with
    | some value =>
      ({ db with storage := db.storage.insert (addressHash address, key) value }, value)
    | none => (db, Vector.replicate 32 0)

/-- `set_storage`. -/
def setStorage (db : StateDB) (address : Address) (key value : H256) : StateDB :=
  { db with storage := db.storage.insert (addressHash address, key) value }

/-- `get_code`. -/
def getCode (db : StateDB) (codeHash : H256) : StateDB × Option (List UInt8) :=
  match db.code.lookup codeHash with
  | some code => (db, some code)
  | none =>
    match db.backend (codeKey codeHash) with
    | some code => ({ db with code := db.code.insert codeHash code }, some code)
    | none => (db, none)

/-- `set_code`. -/
def setCode (env : Env) (codec : Codec) (db : StateDB) (address : Address) (code : List UInt8)
    (eviction : Eviction) : StateDB × H256 :=
  let codeHash := env.sha256 code
  let db := { db with code := db.code.insert codeHash code }
  match db.getAccount codec address with
  | (db, some account) =>
    (db.setAccount address { account with codeHash := some codeHash } eviction, codeHash)
  | (db, none) => (db, codeHash)

/-- `rollback`. -/
def rollback (db : StateDB) : StateDB :=
  { db with accounts := ∅, storage := ∅, dirtyAccounts := ∅ }

end StateDB

theorem addressHash_injective : Function.Injective addressHash := by
  intro a b h
  have hlist := congrArg Vector.toList h
  unfold addressHash at hlist
  rw [Vector.toList_append, Vector.toList_append] at hlist
  exact Vector.toList_inj.mp (List.append_cancel_left hlist)

/-! ## The two kinds of storage keys -/

theorem length_hexDigits (bytes : List UInt8) : (hexDigits bytes).length = 2 * bytes.length := by
  induction bytes with
  | nil => rfl
  | cons b bytes ih =>
    rw [hexDigits, List.length_cons, List.length_cons, ih, List.length_cons]
    omega

theorem length_hexEncode {n : Nat} (bytes : Vector UInt8 n) :
    (hexEncode bytes.toList).length = 2 * n := by
  rw [hexEncode, String.length_ofList, length_hexDigits, Vector.length_toList]

/-- What `commit` writes is never what `get_storage` reads. -/
theorem storageKey_ne_fromHash (address : Address) (key addressHash key' : H256) :
    storageKey address key ≠ storageKeyFromHash addressHash key' := by
  intro h
  have hlength := congrArg String.length h
  rw [storageKey, storageKeyFromHash] at hlength
  simp only [String.length_append, length_hexEncode] at hlength
  omega

theorem storageKey_ne_accountKey (address owner : Address) (key : H256) :
    storageKey address key ≠ accountKey owner := by
  intro h
  have h := congrArg (fun s => s.toList.head?) h
  simp [accountKey, storageKey] at h

theorem storageKey_ne_codeKey (address : Address) (key codeHash : H256) :
    storageKey address key ≠ codeKey codeHash := by
  intro h
  have h := congrArg (fun s => s.toList.head?) h
  simp [codeKey, storageKey] at h

theorem storageKey_ne_blockKey (address : Address) (key blockHash : H256) :
    storageKey address key ≠ blockKey blockHash := by
  intro h
  have h := congrArg (fun s => s.toList.head?) h
  simp [blockKey, storageKey] at h

namespace StateDB

/-- A commit changes no slot as it is loaded from the backend. -/
theorem loadStorage_commit (codec : Codec) (db : StateDB) (blockHash : H256)
    (orders : CommitOrders) (address : Address) (key : H256) :
    (db.commit codec blockHash orders).backend.loadStorage address key
      = db.backend.loadStorage address key := by
  have hkey : (db.commit codec blockHash orders).backend (storageKey address key)
      = db.backend (storageKey address key) := by
    unfold commit commitBatch
    dsimp only
    rw [Backend.put, Function.update_of_ne (storageKey_ne_blockKey address key blockHash),
      Backend.batchPut_append, Backend.batchPut_append, Backend.batchPut_of_forall_ne,
      Backend.batchPut_of_forall_ne, Backend.batchPut_of_forall_ne]
    · intro entry hmem
      obtain ⟨e, -, rfl⟩ := List.mem_map.mp hmem
      exact storageKey_ne_accountKey _ _ _
    · intro entry hmem
      obtain ⟨e, -, rfl⟩ := List.mem_map.mp hmem
      exact storageKey_ne_fromHash _ _ _ _
    · intro entry hmem
      obtain ⟨e, -, rfl⟩ := List.mem_map.mp hmem
      exact storageKey_ne_codeKey _ _ _
  rw [Backend.loadStorage, hkey, Backend.loadStorage]

/-- With nothing cached, `get_storage` returns what the backend has, or zero. -/
theorem getStorage_of_empty {db : StateDB} (h : db.storage = ∅) (address : Address) (key : H256) :
    (db.getStorage address key).2
      = (db.backend.loadStorage address key).getD (Vector.replicate 32 0) := by
  rw [getStorage, h, AList.lookup_empty]
  dsimp only
  cases db.backend.loadStorage address key with
  | none => rfl
  | some value => rfl

/-! ## What survives a commit -/

/-- A sequence of `set_storage` calls. -/
def setStorages (db : StateDB) (sets : List (Address × H256 × H256)) : StateDB :=
  sets.foldl (fun db set => db.setStorage set.1 set.2.1 set.2.2) db

/-- The value last set in a slot. -/
def lastValue (sets : List (Address × H256 × H256)) (address : Address) (key : H256) :
    Option H256 :=
  (sets.reverse.find? fun set => set.1 = address ∧ set.2.1 = key).map (·.2.2)

/-- `get_storage` returns the value last set, in every slot. -/
def Survives (sets : List (Address × H256 × H256)) (db : StateDB) : Prop :=
  ∀ address key value, lastValue sets address key = some value →
    (db.getStorage address key).2 = value

/-- The backend has the value last set already, or it is zero and the backend has none. -/
def AlreadyStored (sets : List (Address × H256 × H256)) (backend : Backend) : Prop :=
  ∀ address key value, lastValue sets address key = some value →
    (backend.loadStorage address key).getD (Vector.replicate 32 0) = value

theorem backend_setStorages (sets : List (Address × H256 × H256)) : ∀ db : StateDB,
    (db.setStorages sets).backend = db.backend := by
  induction sets with
  | nil => exact fun _ => rfl
  | cons set sets ih => exact fun db => ih (db.setStorage set.1 set.2.1 set.2.2)

/-- After some `set_storage` calls and a commit, with the storage cache empty again,
every slot has the value last set if and only if the backend had it before. -/
theorem storage_survives_iff (codec : Codec) (db : StateDB)
    (sets : List (Address × H256 × H256)) (blockHash : H256) (orders : CommitOrders) :
    let committed := (db.setStorages sets).commit codec blockHash orders
    (Survives sets committed.rollback ↔ AlreadyStored sets db.backend) ∧
      (Survives sets (new committed.backend) ↔ AlreadyStored sets db.backend) := by
  intro committed
  have hread : ∀ fresh : StateDB, fresh.storage = ∅ → fresh.backend = committed.backend →
      (Survives sets fresh ↔ AlreadyStored sets db.backend) := by
    intro fresh hstorage hbackend
    refine forall₃_congr fun address key value => ?_
    rw [getStorage_of_empty hstorage, hbackend, loadStorage_commit, backend_setStorages]
  exact ⟨hread _ rfl rfl, hread _ rfl rfl⟩

/-- One slot is set and committed, and is zero afterwards. -/
theorem oneSet_is_lost :
    ¬ Survives [(alice, Vector.replicate 32 1, Vector.replicate 32 2)]
      (((new fun _ => none).setStorages
        [(alice, Vector.replicate 32 1, Vector.replicate 32 2)]).commit sampleCodec
          (Vector.replicate 32 0)
          { accounts := sampleOrder, storage := sampleOrder, code := sampleOrder }).rollback := by
  intro h
  have hvalue := h alice (Vector.replicate 32 1) (Vector.replicate 32 2) (by decide +kernel)
  exact absurd hvalue (by decide +kernel)

end StateDB

end InterBit.StateMachine
