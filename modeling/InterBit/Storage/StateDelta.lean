import InterBit.Lib.Assoc
import InterBit.StateMachine.Executor

/-!
# State deltas

`create_delta` and `apply_delta` of `storage/snapshot.rs`. A delta is a list of
changes, found by four loops over the hash maps of the two states; every order of
iteration is an `IterOrder`.

Accounts always come out right. `createDelta_exact_iff` says when the rest does:
there is no change for a storage slot or a code that goes away, none for a code that
no new account owns, and none for the root.
-/

namespace InterBit.Storage

open InterBit.Lib InterBit.StateMachine

/-- `struct AccountSnapshot`. -/
structure AccountSnapshot where
  nonce : U64
  balance : U256
  storageRoot : H256
  codeHash : Option H256
  deriving DecidableEq

/-- `struct StateData`. -/
structure StateData where
  root : H256
  accounts : AList fun _ : Address => AccountSnapshot
  storage : AList fun _ : Address × H256 => H256
  code : AList fun _ : H256 => List UInt8

/-- `enum StateChange`. -/
inductive StateChange where
  | accountCreated (address : Address) (account : AccountSnapshot)
  | accountUpdated (address : Address) (old new : AccountSnapshot)
  | accountDeleted (address : Address)
  | storageUpdated (address : Address) (key oldValue newValue : H256)
  | codeDeployed (address : Address) (codeHash : H256) (code : List UInt8)

/-- `struct MerkleProof`, whose list of nodes is always empty here. -/
structure MerkleProof where
  root : H256

/-- `struct StateDelta`. -/
structure StateDelta where
  fromHeight : U64
  toHeight : U64
  changes : List StateChange
  proof : MerkleProof

/-- The orders in which `create_delta` iterates over the two states. -/
structure DeltaOrders where
  newAccounts : IterOrder (Sigma fun _ : Address => AccountSnapshot)
  oldAccounts : IterOrder (Sigma fun _ : Address => AccountSnapshot)
  newStorage : IterOrder (Sigma fun _ : Address × H256 => H256)
  newCode : IterOrder (Sigma fun _ : H256 => List UInt8)
  /-- The search for the owner of a code. -/
  owners : IterOrder (Sigma fun _ : Address => AccountSnapshot)

/-- The change for an account of the new state. -/
def accountChange (old : StateData) (entry : Sigma fun _ : Address => AccountSnapshot) :
    Option StateChange :=
  match old.accounts.lookup entry.1 with
  | some oldAccount =>
    if oldAccount ≠ entry.2 then some (.accountUpdated entry.1 oldAccount entry.2) else none
  | none => some (.accountCreated entry.1 entry.2)

/-- The change for an account of the old state. -/
def deletedChange (new : StateData) (entry : Sigma fun _ : Address => AccountSnapshot) :
    Option StateChange :=
  if entry.1 ∈ new.accounts then none else some (.accountDeleted entry.1)

/-- The change for a storage slot of the new state. -/
def storageChange (old : StateData) (entry : Sigma fun _ : Address × H256 => H256) :
    Option StateChange :=
  match old.storage.lookup entry.1 with
  | some oldValue =>
    if oldValue ≠ entry.2 then some (.storageUpdated entry.1.1 entry.1.2 oldValue entry.2) else none
  | none => some (.storageUpdated entry.1.1 entry.1.2 (Vector.replicate 32 0) entry.2)

/-- The change for a code of the new state; `owners` are the new accounts. -/
def codeChange (old : StateData) (owners : List (Sigma fun _ : Address => AccountSnapshot))
    (entry : Sigma fun _ : H256 => List UInt8) : Option StateChange :=
  if entry.1 ∈ old.code then none
  else
    (owners.find? fun owner => owner.2.codeHash = some entry.1).map fun owner =>
      .codeDeployed owner.1 entry.1 entry.2

/-- `create_delta`. -/
def createDelta (orders : DeltaOrders) (fromHeight toHeight : U64) (old new : StateData) :
    StateDelta :=
  { fromHeight, toHeight
    changes :=
      (orders.newAccounts.arrange new.accounts.entries).filterMap (accountChange old) ++
      (orders.oldAccounts.arrange old.accounts.entries).filterMap (deletedChange new) ++
      (orders.newStorage.arrange new.storage.entries).filterMap (storageChange old) ++
      (orders.newCode.arrange new.code.entries).filterMap
        (codeChange old (orders.owners.arrange new.accounts.entries))
    proof := { root := new.root } }

/-- One turn of the loop of `apply_delta`. -/
def applyChange (state : StateData) : StateChange → StateData
  | .accountCreated address account =>
    { state with accounts := state.accounts.insert address account }
  | .accountUpdated address _ new => { state with accounts := state.accounts.insert address new }
  | .accountDeleted address => { state with accounts := state.accounts.erase address }
  | .storageUpdated address key _ newValue =>
    { state with storage := state.storage.insert (address, key) newValue }
  | .codeDeployed _ codeHash code => { state with code := state.code.insert codeHash code }

/-- `apply_delta`. -/
def applyDelta (delta : StateDelta) (state : StateData) : StateData :=
  delta.changes.foldl applyChange state

/-- Two states have the same accounts, storage, code and root. -/
structure SameState (a b : StateData) : Prop where
  accounts : ∀ address, a.accounts.lookup address = b.accounts.lookup address
  storage : ∀ slot, a.storage.lookup slot = b.storage.lookup slot
  code : ∀ codeHash, a.code.lookup codeHash = b.code.lookup codeHash
  root : a.root = b.root

/-! ## What each loop does -/

theorem foldl_accountChange (old : StateData)
    (entries : List (Sigma fun _ : Address => AccountSnapshot)) (state : StateData) :
    (entries.filterMap (accountChange old)).foldl applyChange state
      = { state with
          accounts := insertWhere (fun a v => old.accounts.lookup a ≠ some v) entries
            state.accounts } := by
  refine foldl_filterMap_part StateData.accounts (fun s accounts => { s with accounts })
    (fun _ => rfl) (fun _ _ => rfl) (fun _ _ _ => rfl) (fun s e => ?_) entries state
  unfold accountChange
  cases hold : old.accounts.lookup e.1 with
  | none => simp [hold, applyChange]
  | some account => by_cases heq : account = e.2 <;> simp [hold, heq, applyChange]

theorem foldl_deletedChange (new : StateData)
    (entries : List (Sigma fun _ : Address => AccountSnapshot)) (state : StateData) :
    (entries.filterMap (deletedChange new)).foldl applyChange state
      = { state with
          accounts := eraseWhere (fun a => a ∉ new.accounts) entries state.accounts } := by
  refine foldl_filterMap_part StateData.accounts (fun s accounts => { s with accounts })
    (fun _ => rfl) (fun _ _ => rfl) (fun _ _ _ => rfl) (fun s e => ?_) entries state
  unfold deletedChange
  by_cases hmem : e.1 ∈ new.accounts <;> simp [hmem, applyChange]

theorem foldl_storageChange (old : StateData)
    (entries : List (Sigma fun _ : Address × H256 => H256)) (state : StateData) :
    (entries.filterMap (storageChange old)).foldl applyChange state
      = { state with
          storage := insertWhere (fun s v => old.storage.lookup s ≠ some v) entries
            state.storage } := by
  refine foldl_filterMap_part StateData.storage (fun s storage => { s with storage })
    (fun _ => rfl) (fun _ _ => rfl) (fun _ _ _ => rfl) (fun s e => ?_) entries state
  unfold storageChange
  cases hold : old.storage.lookup e.1 with
  | none => simp [hold, applyChange]
  | some value => by_cases heq : value = e.2 <;> simp [hold, heq, applyChange]

theorem foldl_codeChange (old : StateData)
    (owners : List (Sigma fun _ : Address => AccountSnapshot))
    (entries : List (Sigma fun _ : H256 => List UInt8)) (state : StateData) :
    (entries.filterMap (codeChange old owners)).foldl applyChange state
      = { state with
          code := insertWhere
            (fun h _ => h ∉ old.code ∧ (owners.find? fun o => o.2.codeHash = some h).isSome) entries
            state.code } := by
  refine foldl_filterMap_part StateData.code (fun s code => { s with code })
    (fun _ => rfl) (fun _ _ => rfl) (fun _ _ _ => rfl) (fun s e => ?_) entries state
  unfold codeChange
  by_cases hmem : e.1 ∈ old.code
  · simp [hmem]
  · cases hfind : owners.find? fun o => o.2.codeHash = some e.1 <;> simp [hmem, hfind, applyChange]

/-- A state after the delta, map by map. -/
theorem applyDelta_createDelta (orders : DeltaOrders) (fromHeight toHeight : U64)
    (old new state : StateData) :
    applyDelta (createDelta orders fromHeight toHeight old new) state
      = { root := state.root
          accounts := eraseWhere (fun a => a ∉ new.accounts)
            (orders.oldAccounts.arrange old.accounts.entries)
            (insertWhere (fun a v => old.accounts.lookup a ≠ some v)
              (orders.newAccounts.arrange new.accounts.entries) state.accounts)
          storage := insertWhere (fun s v => old.storage.lookup s ≠ some v)
            (orders.newStorage.arrange new.storage.entries) state.storage
          code := insertWhere
            (fun h _ => h ∉ old.code ∧
              ((orders.owners.arrange new.accounts.entries).find?
                fun o => o.2.codeHash = some h).isSome)
            (orders.newCode.arrange new.code.entries) state.code } := by
  rw [applyDelta, createDelta]
  dsimp only
  rw [List.foldl_append, List.foldl_append, List.foldl_append, foldl_accountChange,
    foldl_deletedChange, foldl_storageChange, foldl_codeChange]

/-! ## When a delta is exact -/

/-- Some account of the state has the code. -/
def Owned (state : StateData) (codeHash : H256) : Prop :=
  ∃ address account, state.accounts.lookup address = some account ∧
    account.codeHash = some codeHash

/-- The search for an owner finds one if there is one. -/
theorem find_owner_isSome (order : IterOrder (Sigma fun _ : Address => AccountSnapshot))
    (state : StateData) (codeHash : H256) :
    ((order.arrange state.accounts.entries).find? fun o => o.2.codeHash = some codeHash).isSome
      ↔ Owned state codeHash := by
  rw [List.find?_isSome]
  constructor
  · rintro ⟨⟨address, account⟩, hmem, hcode⟩
    rw [decide_eq_true_iff] at hcode
    have hmem := (order.perm _).mem_iff.mp hmem
    exact ⟨address, account, AList.mem_lookup_iff.mpr hmem, hcode⟩
  · rintro ⟨address, account, hlookup, hcode⟩
    exact ⟨⟨address, account⟩, (order.perm _).mem_iff.mpr (AList.mem_lookup_iff.mp hlookup),
      decide_eq_true hcode⟩

section Exact

variable (orders : DeltaOrders) (fromHeight toHeight : U64) (old new : StateData)

/-- Accounts are always exact, in every state that has the accounts of the old one. -/
theorem accounts_applyDelta {state : StateData} {address : Address}
    (h : state.accounts.lookup address = old.accounts.lookup address) :
    (applyDelta (createDelta orders fromHeight toHeight old new) state).accounts.lookup address
      = new.accounts.lookup address := by
  rw [applyDelta_createDelta]
  dsimp only
  rw [lookup_eraseWhere, lookup_insertWhere_of_perm (orders.newAccounts.perm _), h]
  cases hnew : new.accounts.lookup address with
  | none =>
    have hgone : address ∉ new.accounts := AList.lookup_eq_none.mp hnew
    dsimp only
    by_cases hold : address ∈ old.accounts
    · exact if_pos ⟨decide_eq_true hgone,
        ((orders.oldAccounts.perm old.accounts.entries).map Sigma.fst).mem_iff.mpr hold⟩
    · rw [AList.lookup_eq_none.mpr hold, ite_self]
  | some account =>
    have hmem : address ∈ new.accounts := AList.lookup_isSome.mp (by rw [hnew]; rfl)
    rw [if_neg fun h => (of_decide_eq_true h.1 : address ∉ new.accounts) hmem]
    dsimp only
    split
    next => rfl
    next h => exact not_not.mp fun hne => h (decide_eq_true hne)

/-- Storage is exact just if no slot goes away. -/
theorem storage_applyDelta_iff :
    (∀ slot, (applyDelta (createDelta orders fromHeight toHeight old new) old).storage.lookup slot
        = new.storage.lookup slot)
      ↔ ∀ slot, slot ∈ old.storage → slot ∈ new.storage := by
  rw [applyDelta_createDelta]
  dsimp only
  refine forall_congr' fun slot => ?_
  rw [lookup_insertWhere_of_perm (orders.newStorage.perm _)]
  cases hnew : new.storage.lookup slot with
  | none =>
    have hgone : slot ∉ new.storage := AList.lookup_eq_none.mp hnew
    dsimp only
    rw [AList.lookup_eq_none]
    exact ⟨fun h hold => absurd hold h, fun h hold => hgone (h hold)⟩
  | some value =>
    have hmem : slot ∈ new.storage := AList.lookup_isSome.mp (by rw [hnew]; rfl)
    refine iff_of_true ?_ fun _ => hmem
    dsimp only
    split
    next => rfl
    next h => exact not_not.mp fun hne => h (decide_eq_true hne)

/-- Code is exact just if the old code is still there, and new code has an owner. -/
theorem code_applyDelta_iff :
    (∀ codeHash,
        (applyDelta (createDelta orders fromHeight toHeight old new) old).code.lookup codeHash
          = new.code.lookup codeHash)
      ↔ (∀ codeHash code, old.code.lookup codeHash = some code →
            new.code.lookup codeHash = some code) ∧
        ∀ codeHash, codeHash ∈ new.code → codeHash ∉ old.code → Owned new codeHash := by
  rw [applyDelta_createDelta, ← forall_and]
  dsimp only
  refine forall_congr' fun codeHash => ?_
  rw [lookup_insertWhere_of_perm (orders.newCode.perm _)]
  cases hnew : new.code.lookup codeHash with
  | none =>
    have hgone : codeHash ∉ new.code := AList.lookup_eq_none.mp hnew
    dsimp only
    constructor
    · intro h
      rw [h]
      exact ⟨fun _ hc => absurd hc (Option.some_ne_none _).symm, fun hmem => absurd hmem hgone⟩
    · intro h
      refine Option.eq_none_iff_forall_ne_some.mpr fun code hcode => ?_
      exact absurd (h.1 code hcode) (Option.some_ne_none _).symm
  | some v =>
    have hmem : codeHash ∈ new.code := AList.lookup_isSome.mp (by rw [hnew]; rfl)
    dsimp only
    by_cases hold : codeHash ∈ old.code
    · -- A known hash is never deployed again.
      obtain ⟨code, hcode⟩ := Option.isSome_iff_exists.mp (AList.lookup_isSome.mpr hold)
      rw [if_neg fun h => (of_decide_eq_true h).1 hold, hcode]
      constructor
      · intro h
        exact ⟨fun c hc => h.symm.trans hc, fun _ hno => absurd hold hno⟩
      · intro h
        exact (h.1 code rfl).symm
    · rw [AList.lookup_eq_none.mpr hold]
      by_cases howned : Owned new codeHash
      · rw [if_pos (decide_eq_true ⟨hold, (find_owner_isSome ..).mpr howned⟩)]
        exact iff_of_true rfl ⟨fun _ h => absurd h (Option.some_ne_none _).symm, fun _ _ => howned⟩
      · rw [if_neg fun h => howned ((find_owner_isSome ..).mp (of_decide_eq_true h).2)]
        exact iff_of_false (Option.some_ne_none _).symm fun h => howned (h.2 hmem hold)

/-- A delta is exact if and only if no storage slot and no code goes away or changes
its content under the same hash, every new code has an owner, and the root stays. -/
theorem createDelta_exact_iff :
    SameState (applyDelta (createDelta orders fromHeight toHeight old new) old) new ↔
      (∀ slot, slot ∈ old.storage → slot ∈ new.storage) ∧
      (∀ codeHash code, old.code.lookup codeHash = some code →
        new.code.lookup codeHash = some code) ∧
      (∀ codeHash, codeHash ∈ new.code → codeHash ∉ old.code → Owned new codeHash) ∧
      old.root = new.root := by
  have hroot : (applyDelta (createDelta orders fromHeight toHeight old new) old).root
      = old.root := by rw [applyDelta_createDelta]
  constructor
  · intro h
    obtain ⟨hkept, howned⟩ := (code_applyDelta_iff ..).mp h.code
    exact ⟨(storage_applyDelta_iff ..).mp h.storage, hkept, howned, hroot.symm.trans h.root⟩
  · rintro ⟨hstorage, hkept, howned, hsame⟩
    exact ⟨fun _ => accounts_applyDelta orders fromHeight toHeight old new rfl,
      (storage_applyDelta_iff ..).mpr hstorage, (code_applyDelta_iff ..).mpr ⟨hkept, howned⟩,
      hroot.trans hsame⟩

end Exact

/-- One storage slot, and nothing else. -/
def oneSlot : StateData :=
  { root := Vector.replicate 32 0, accounts := ∅
    storage := AList.insert (alice, Vector.replicate 32 1) (Vector.replicate 32 2) ∅, code := ∅ }

/-- The delta to a state without the slot leaves the slot as it is. -/
theorem deleted_slot_survives :
    ¬ SameState
      (applyDelta
        (createDelta
          { newAccounts := sampleOrder, oldAccounts := sampleOrder, newStorage := sampleOrder
            newCode := sampleOrder, owners := sampleOrder } 0 1 oneSlot { oneSlot with storage := ∅ })
        oneSlot)
      { oneSlot with storage := ∅ } :=
  fun h => absurd (h.storage (alice, Vector.replicate 32 1)) (by decide)

end InterBit.Storage
