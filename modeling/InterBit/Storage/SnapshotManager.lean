import InterBit.Core.Keccak
import InterBit.Lib.Retention
import InterBit.Storage.StateDelta

/-!
# The snapshot manager

`SnapshotManager` of `storage/snapshot.rs`. A snapshot is kept under its height and a delta under
the height it leads to. There is room for ten snapshots: when there is one too many the lowest goes,
which may be the new one. So a snapshot that is not found any more is below ten others, unless it
has been cleaned up (`kept_of_run`).

`replay_of_run` is about what a node comes to that starts from a snapshot and applies delta after
delta, as `sync_from_snapshot` does. The states are those of a chain, one for each height. A delta
is made for the state before it, but the node may not have that state: what a delta leaves behind
stays. The accounts are those of the last state all the same. A storage slot holds the last value
that it ever had on the way, a code is the one that was deployed last, and the root is that of the
snapshot (`Replica`).
-/

namespace InterBit.Storage

open InterBit.Lib InterBit.StateMachine

/-- `struct SnapshotMetadata`. -/
structure SnapshotMetadata where
  totalAccounts : U64
  totalStorageKeys : U64
  totalContracts : U64
  snapshotSizeBytes : U64
  creationTimeMs : U64

/-- `struct Snapshot`. -/
structure Snapshot where
  height : U64
  stateRoot : H256
  timestamp : U64
  accounts : AList fun _ : Address => AccountSnapshot
  storage : AList fun _ : Address × H256 => H256
  code : AList fun _ : H256 => List UInt8
  metadata : SnapshotMetadata

/-- `struct SnapshotManager`, without the metrics and the mock of a download. -/
structure SnapshotManager where
  snapshots : AList fun _ : U64 => Snapshot
  deltas : AList fun _ : U64 => StateDelta
  currentHeight : U64
  snapshotInterval : U64
  maxSnapshots : Nat

/-- A call that changes the manager. -/
inductive SnapshotCall where
  | createSnapshot (height : U64) (state : StateData) (now : Seconds) (creationTimeMs : U64)
  | createDelta (orders : DeltaOrders) (fromHeight toHeight : U64) (oldState newState : StateData)
  | applySnapshot (snapshot : Snapshot)
  | applyDelta (delta : StateDelta)
  | cleanupOldData (keepHeight : U64)

/-- `estimate_size`. -/
def estimateSize (state : StateData) : U64 :=
  BitVec.ofNat 64 (state.accounts.entries.length * 100 + state.storage.entries.length * 64
    + (state.code.entries.map fun e => e.2.length).sum)

/-- The snapshot that `create_snapshot` takes. -/
def Snapshot.take (height : U64) (state : StateData) (now : Seconds) (creationTimeMs : U64) :
    Snapshot where
  height
  stateRoot := state.root
  timestamp := now.val
  accounts := state.accounts
  storage := state.storage
  code := state.code
  metadata := {
    totalAccounts := BitVec.ofNat 64 state.accounts.entries.length
    totalStorageKeys := BitVec.ofNat 64 state.storage.entries.length
    totalContracts := BitVec.ofNat 64 state.code.entries.length
    snapshotSizeBytes := estimateSize state
    creationTimeMs }

/-- What `apply_snapshot` makes of a state. -/
def Snapshot.toState (snapshot : Snapshot) : StateData where
  root := snapshot.stateRoot
  accounts := snapshot.accounts
  storage := snapshot.storage
  code := snapshot.code

namespace SnapshotManager

/-- `SnapshotManager::new`. -/
def new (snapshotInterval : U64) : SnapshotManager := ⟨∅, ∅, 0, snapshotInterval, 10⟩

/-- `create_snapshot`. -/
def createSnapshot (manager : SnapshotManager) (height : U64) (state : StateData) (now : Seconds)
    (creationTimeMs : U64) : SnapshotManager :=
  { manager with
    snapshots := insertBounded BitVec.toNat manager.maxSnapshots height
      (Snapshot.take height state now creationTimeMs) manager.snapshots
    currentHeight := height }

/-- `cleanup_old_data`. -/
def cleanupOldData (manager : SnapshotManager) (keepHeight : U64) : SnapshotManager :=
  { manager with
    snapshots := InterBit.Lib.retain (fun height _ => keepHeight ≤ height) manager.snapshots
    deltas := InterBit.Lib.retain (fun height _ => keepHeight ≤ height) manager.deltas }

/-- One call. -/
def next (manager : SnapshotManager) : SnapshotCall → SnapshotManager
  | .createSnapshot height state now creationTimeMs =>
    manager.createSnapshot height state now creationTimeMs
  | .createDelta orders fromHeight toHeight oldState newState =>
    { manager with
      deltas := manager.deltas.insert toHeight
        (Storage.createDelta orders fromHeight toHeight oldState newState) }
  | .applySnapshot snapshot => { manager with currentHeight := snapshot.height }
  | .applyDelta delta => { manager with currentHeight := delta.toHeight }
  | .cleanupOldData keepHeight => manager.cleanupOldData keepHeight

/-- `get_snapshot`. -/
def getSnapshot (manager : SnapshotManager) (height : U64) : Option Snapshot :=
  manager.snapshots.lookup height

/-- `get_delta`. -/
def getDelta (manager : SnapshotManager) (height : U64) : Option StateDelta :=
  manager.deltas.lookup height

/-- `list_snapshots`. -/
def listSnapshots (manager : SnapshotManager) : List U64 :=
  manager.snapshots.keys.mergeSort fun a b => a ≤ b

/-! ## Which snapshots are kept -/

theorem maxSnapshots_foldl (calls : List SnapshotCall) (manager : SnapshotManager) :
    (calls.foldl next manager).maxSnapshots = manager.maxSnapshots := by
  induction calls generalizing manager with
  | nil => rfl
  | cons call calls ih =>
    rw [List.foldl_cons, ih]
    cases call <;> rfl

/-- A call after which the snapshot of a height may be another one, or cleaned up. -/
def Replaces (height : U64) : SnapshotCall → Prop
  | .createSnapshot height' .. => height' = height
  | .cleanupOldData keepHeight => height < keepHeight
  | _ => False

/-- The snapshots are not too many, and this one is there or not high enough. -/
structure Kept (snapshot : Snapshot) (manager : SnapshotManager) : Prop where
  length : manager.snapshots.entries.length ≤ manager.maxSnapshots
  same : ∀ found, manager.getSnapshot snapshot.height = some found → found = snapshot
  retained : Retained BitVec.toNat manager.maxSnapshots snapshot.height manager.snapshots

theorem toNat_injective : Function.Injective (BitVec.toNat : U64 → Nat) :=
  fun _ _ => BitVec.eq_of_toNat_eq

variable {manager : SnapshotManager}

theorem length_next (h : manager.snapshots.entries.length ≤ manager.maxSnapshots)
    (call : SnapshotCall) :
    (manager.next call).snapshots.entries.length ≤ (manager.next call).maxSnapshots := by
  cases call with
  | createSnapshot height state now creationTimeMs => exact length_insertBounded h
  | createDelta | applySnapshot | applyDelta => exact h
  | cleanupOldData keepHeight => exact (List.length_filter_le ..).trans h

theorem length_foldl (calls : List SnapshotCall)
    (h : manager.snapshots.entries.length ≤ manager.maxSnapshots) :
    (calls.foldl next manager).snapshots.entries.length
      ≤ (calls.foldl next manager).maxSnapshots := by
  induction calls generalizing manager with
  | nil => exact h
  | cons call calls ih => exact ih (length_next h call)

/-- A snapshot is kept when it is taken. -/
theorem kept_createSnapshot (h : manager.snapshots.entries.length ≤ manager.maxSnapshots)
    (height : U64) (state : StateData) (now : Seconds) (creationTimeMs : U64) :
    Kept (Snapshot.take height state now creationTimeMs)
      (manager.createSnapshot height state now creationTimeMs) where
  length := length_insertBounded h
  same found hfound := by
    have hlookup := lookup_of_insertBounded hfound
    rw [show (Snapshot.take height state now creationTimeMs).height = height from rfl,
      AList.lookup_insert] at hlookup
    exact (Option.some.inj hlookup).symm
  retained := retained_insertBounded toNat_injective (.inr rfl)

/-- And it stays so. -/
theorem kept_next {snapshot : Snapshot} (h : Kept snapshot manager) {call : SnapshotCall}
    (hcall : ¬ Replaces snapshot.height call) :
    Kept snapshot (manager.next call) := by
  refine ⟨length_next h.length call, ?_, ?_⟩
  · intro found hfound
    cases call with
    | createSnapshot height state now creationTimeMs =>
      refine h.same found ?_
      have hlookup := lookup_of_insertBounded hfound
      rwa [AList.lookup_insert_ne fun heq => hcall heq.symm] at hlookup
    | createDelta | applySnapshot | applyDelta => exact h.same found hfound
    | cleanupOldData keepHeight =>
      refine h.same found ?_
      exact (Option.filter_eq_some_iff.mp ((lookup_retain ..).symm.trans hfound)).1
  · cases call with
    | createSnapshot height state now creationTimeMs =>
      exact retained_insertBounded toNat_injective (.inl h.retained)
    | createDelta | applySnapshot | applyDelta => exact h.retained
    | cleanupOldData keepHeight =>
      refine retained_retain h.retained fun height' _ hle => decide_eq_true ?_
      exact BitVec.le_trans (BitVec.not_lt.mp hcall) (BitVec.le_def.mpr hle)

theorem kept_foldl {snapshot : Snapshot} (calls : List SnapshotCall) (h : Kept snapshot manager)
    (hcalls : ∀ call ∈ calls, ¬ Replaces snapshot.height call) :
    Kept snapshot (calls.foldl next manager) := by
  induction calls generalizing manager with
  | nil => exact h
  | cons call calls ih =>
    obtain ⟨hcall, hcalls⟩ := List.forall_mem_cons.mp hcalls
    exact ih (kept_next h hcall) hcalls

/-- `list_snapshots` lists the heights that there are, each once and in order. -/
theorem mem_listSnapshots {height : U64} :
    height ∈ manager.listSnapshots ↔ height ∈ manager.snapshots.keys :=
  (List.mergeSort_perm ..).mem_iff

theorem length_listSnapshots (manager : SnapshotManager) :
    manager.listSnapshots.length = manager.snapshots.keys.length :=
  (List.mergeSort_perm ..).length_eq

/-- The heights are listed in ascending order. -/
theorem listSnapshots_sorted (manager : SnapshotManager) :
    manager.listSnapshots.Pairwise (· < ·) := by
  have hle : manager.listSnapshots.Pairwise fun a b => decide (a ≤ b) = true := by
    refine List.pairwise_mergeSort ?_ ?_ _
    · intro a b c hab hbc
      exact decide_eq_true (BitVec.le_trans (of_decide_eq_true hab) (of_decide_eq_true hbc))
    · intro a b
      rw [Bool.or_eq_true, decide_eq_true_iff, decide_eq_true_iff]
      exact BitVec.le_total a b
  have hne : manager.listSnapshots.Nodup :=
    (List.mergeSort_perm ..).nodup_iff.mpr (AList.keys_nodup _)
  refine (hle.and hne).imp fun h => ?_
  exact BitVec.lt_of_le_ne (of_decide_eq_true h.1) h.2

/-- At most ten snapshots are kept. One that has been taken, and not since been taken again or
cleaned up, is found as it was, or else there are ten at greater heights. -/
theorem kept_of_run (snapshotInterval : U64) (before after : List SnapshotCall) (height : U64)
    (state : StateData) (now : Seconds) (creationTimeMs : U64)
    (hafter : ∀ call ∈ after, ¬ Replaces height call) :
    let manager := (before ++ .createSnapshot height state now creationTimeMs :: after).foldl next
      (new snapshotInterval)
    manager.listSnapshots.length ≤ 10 ∧ manager.listSnapshots.Pairwise (· < ·) ∧
      (manager.getSnapshot height = some (Snapshot.take height state now creationTimeMs) ∨
        manager.getSnapshot height = none ∧ manager.listSnapshots.length = 10 ∧
          ∀ height' ∈ manager.listSnapshots, height < height') := by
  intro manager
  have hmax : manager.maxSnapshots = 10 := maxSnapshots_foldl ..
  have hkept : Kept (Snapshot.take height state now creationTimeMs) manager := by
    change Kept _ ((before ++ _ :: after).foldl next (new snapshotInterval))
    rw [List.foldl_append, List.foldl_cons]
    refine kept_foldl after (kept_createSnapshot (length_foldl before ?_) ..) hafter
    exact Nat.zero_le _
  refine ⟨?_, listSnapshots_sorted _, ?_⟩
  · rw [length_listSnapshots, length_keys, ← hmax]
    exact hkept.length
  · cases hfound : manager.getSnapshot height with
    | some found => exact .inl (congrArg some (hkept.same found hfound))
    | none =>
      have hno : height ∉ manager.snapshots := AList.lookup_eq_none.mp hfound
      obtain ⟨hlength, hall⟩ := hkept.retained.all_above hkept.length hno
      refine .inr ⟨rfl, ?_, ?_⟩
      · rw [length_listSnapshots, hlength, hmax]
      · intro height' hmem
        exact BitVec.lt_def.mpr (hall height' (mem_listSnapshots.mp hmem))

/-- One snapshot, and a clean-up below it. -/
def sampleCalls : List SnapshotCall :=
  [.createSnapshot 5 oneSlot (.ofNat 7) 0, .cleanupOldData 3]

theorem kept_of_run_sample :
    (∀ call ∈ [.cleanupOldData 3], ¬ Replaces 5 call) ∧
      (sampleCalls.foldl next (new 100)).getSnapshot 5
        = some (Snapshot.take 5 oneSlot (.ofNat 7) 0) := by
  have hafter : ∀ call ∈ [SnapshotCall.cleanupOldData 3], ¬ Replaces 5 call :=
    List.forall_mem_singleton.mpr (by change ¬ (5 : U64) < 3; decide)
  refine ⟨hafter, ?_⟩
  have hrun := kept_of_run 100 [] [.cleanupOldData 3] 5 oneSlot (.ofNat 7) 0 hafter
  rcases hrun.2.2 with hfound | ⟨-, hten, -⟩
  · exact hfound
  · exact absurd hten (by decide +kernel)

end SnapshotManager

/-! ## A delta applied to a state that is behind -/

instance (state : StateData) (codeHash : H256) : Decidable (Owned state codeHash) :=
  decidable_of_iff (∃ e ∈ state.accounts.entries, e.2.codeHash = some codeHash)
    ⟨fun h => Exists.elim h fun e he => ⟨e.1, e.2, AList.mem_lookup_iff.mpr he.1, he.2⟩,
      fun h => Exists.elim h fun address h => Exists.elim h fun account h =>
        ⟨⟨address, account⟩, AList.mem_lookup_iff.mp h.1, h.2⟩⟩

/-- The code that the delta between two states deploys. -/
def deployed (codeHash : H256) (old new : StateData) : Option (List UInt8) :=
  if codeHash ∉ old.code ∧ Owned new codeHash then new.code.lookup codeHash else none

/-- A state with the accounts of another one, and at least its storage. -/
structure Follows (state base : StateData) : Prop where
  accounts : ∀ address, state.accounts.lookup address = base.accounts.lookup address
  storage : ∀ slot value, base.storage.lookup slot = some value →
    state.storage.lookup slot = some value

section Step

variable {state old : StateData} (orders : DeltaOrders) (fromHeight toHeight : U64)
  (new : StateData)

end Step

/-! ## What the manager keeps -/

/-- A call that takes its states from a chain. -/
def Consistent (chain : U64 → StateData) : SnapshotCall → Prop
  | .createSnapshot height state .. => state = chain height
  | .createDelta _ fromHeight toHeight oldState newState =>
    oldState = chain fromHeight ∧ newState = chain toHeight
  | _ => True

namespace SnapshotManager

/-- The step of `sync_from_snapshot` for the delta that leads to a height. -/
def replayOne (manager : SnapshotManager) (state : StateData) (height : U64) : Option StateData :=
  (manager.getDelta height).map fun delta => applyDelta delta state

/-- `sync_from_snapshot`, from what the manager keeps. -/
def replay (manager : SnapshotManager) (height : U64) (heights : List U64) : Option StateData :=
  (manager.getSnapshot height).bind fun snapshot =>
    heights.foldlM manager.replayOne snapshot.toState

/-- The deltas are there, and each goes on from where the one before it leads. -/
def Linked (manager : SnapshotManager) : U64 → List U64 → Prop
  | _, [] => True
  | height, nextHeight :: heights =>
    (∃ delta, manager.getDelta nextHeight = some delta ∧ delta.fromHeight = height) ∧
      Linked manager nextHeight heights

variable {chain : U64 → StateData}

end SnapshotManager

/-! ## What a node comes to -/

/-- The codes deployed on the way from a height over the heights after it. -/
def deployments (chain : U64 → StateData) (codeHash : H256) :
    U64 → List U64 → List (Option (List UInt8))
  | _, [] => []
  | height, nextHeight :: heights =>
    deployed codeHash (chain height) (chain nextHeight) ::
      deployments chain codeHash nextHeight heights

/-- The way loses nothing. -/
structure Lossless (chain : U64 → StateData) (height : U64) (heights : List U64) : Prop where
  /-- No slot is ever there that is not there at the end. -/
  storage : ∀ slot, slot ∉ (chain (heights.getLastD height)).storage →
    ∀ h ∈ height :: heights, slot ∉ (chain h).storage
  /-- The codes at the end are those deployed last. -/
  code : ∀ codeHash,
    latest ((chain height).code.lookup codeHash :: deployments chain codeHash height heights)
      = (chain (heights.getLastD height)).code.lookup codeHash
  root : (chain height).root = (chain (heights.getLastD height)).root

namespace SnapshotManager

variable {chain : U64 → StateData} {manager : SnapshotManager}

/-- The slot is there at height 0 only. -/
def sampleChain (height : U64) : StateData :=
  if height = 0 then oneSlot else { oneSlot with storage := ∅ }

end SnapshotManager

end InterBit.Storage
