import InterBit.Lib.RelyGuarantee
import InterBit.Security.MultiSigWallet
import InterBit.StateMachine.Executor

/-!
# The key manager

`KeyManager` of `security/key_management.rs`. What a call does while it holds `keys` or
`recovery_shares` is one section; `rotate_key` has three, since it lets go of the keys before it
generates the new one.

`Changes` says once what a section can do: a key stays what it is, except for its status and its
count, and a key that is not active stays so. Random ids are `Fresh` if none is drawn twice.
-/

namespace InterBit.Security

open InterBit.Lib InterBit.StateMachine

/-- What the key manager takes from outside the repository. -/
structure KeyEnv extends Env where
  /-- `Aes256Gcm::encrypt` with the key and the nonce that are all zero. -/
  encrypt : List UInt8 → Option (List UInt8)
  decrypt : List UInt8 → Option (List UInt8)
  /-- `SigningKey::verifying_key`. -/
  verifyingKey : Vector UInt8 32 → List UInt8
  /-- `SigningKey::sign`. -/
  signature : Vector UInt8 32 → List UInt8 → List UInt8
  /-- `Sha3_256`. -/
  sha3 : List UInt8 → H256

/-- `enum KeyType`. -/
inductive KeyType where
  | signing
  | encryption
  | consensus
  | trading
  deriving DecidableEq

/-- `enum KeyStatus`. -/
inductive KeyStatus where
  | active
  | rotating
  | deprecated
  | compromised
  | recovered
  deriving DecidableEq

/-- The errors of `KeyError` that a key manager returns. -/
inductive KeyManagerError where
  | keyNotFound
  | keyNotActive
  | invalidThreshold
  | hardwareNotAvailable
  | encryptionFailed
  | decryptionFailed
  | insufficientShares
  | invalidShares
  deriving DecidableEq

/-- `struct KeyMetadata`. -/
structure KeyMetadata where
  keyId : H256
  keyType : KeyType
  status : KeyStatus
  createdAt : U64
  rotatedAt : Option U64
  expiry : Option U64
  usageCount : U64
  hardwareBacked : Bool

/-- `struct KeyEntry`. -/
structure KeyEntry where
  metadata : KeyMetadata
  encryptedKey : List UInt8
  publicKey : List UInt8

/-- `struct RecoveryShare`. -/
structure RecoveryShare where
  shareId : H256
  keyId : H256
  shareIndex : U32
  encryptedShare : List UInt8
  validator : Address

/-- `struct KeyManager`, with the one setting that is read. -/
structure KeyManager where
  rotationIntervalDays : U32
  keys : AList fun _ : H256 => KeyEntry
  /-- Whether there is a hardware wallet. What it answers is a parameter of the calls. -/
  hardwareInterface : Bool
  recoveryShares : List RecoveryShare

/-- What `generate_key` draws and reads: the random id and key, the answer of the hardware wallet,
and the clock. -/
structure KeyDraw where
  keyId : H256
  signingKey : Vector UInt8 32
  hardwareKey : Except KeyManagerError (List UInt8)
  createdAt : Seconds
  now : Seconds

/-- A call. -/
inductive KeyCall where
  | generateKey (keyType : KeyType) (useHardware : Bool) (draw : KeyDraw)
  | rotateKey (oldKeyId : H256) (rotatedAt : Seconds) (draw : KeyDraw)
  | batchRotate (keyType : KeyType) (order : IterOrder (Sigma fun _ : H256 => KeyEntry))
      (clock : H256 → Seconds) (rotatedAt : Nat → Seconds) (draws : Nat → KeyDraw)
  | sign (keyId : H256) (message : List UInt8)
      (hardwareSignature : Except KeyManagerError (List UInt8))
  | createRecoveryShares (keyId : H256) (numShares threshold : U32) (now : Seconds)
      (shareIds : Nat → H256)
  | recoverKey (shares : List RecoveryShare) (newKeyId : H256) (createdAt now : Seconds)

/-- What a call returns. -/
inductive KeyAnswer where
  | key (result : Except KeyManagerError H256)
  | keys (result : Except KeyManagerError (List H256))
  | signature (result : Except KeyManagerError (List UInt8))
  | shares (result : Except KeyManagerError (List RecoveryShare))

namespace KeyManager

/-- `KeyManager::new`. -/
def new (rotationIntervalDays : U32) : KeyManager := ⟨rotationIntervalDays, ∅, false, []⟩

/-- `set_hardware_wallet`. -/
def setHardwareWallet (manager : KeyManager) : KeyManager :=
  { manager with hardwareInterface := true }

variable (env : KeyEnv)

/-- `encrypt_key`. -/
def encryptKey (key : List UInt8) : Except KeyManagerError (List UInt8) :=
  (env.encrypt key).elim (.error .encryptionFailed) .ok

/-- `decrypt_key`. -/
def decryptKey (encrypted : List UInt8) : Except KeyManagerError (List UInt8) :=
  (env.decrypt encrypted).elim (.error .decryptionFailed) .ok

/-- The key that `generate_key` makes. -/
def newEntry (manager : KeyManager) (keyType : KeyType) (useHardware : Bool) (draw : KeyDraw) :
    Except KeyManagerError KeyEntry := do
  let (privateKey, publicKey) ←
    if useHardware ∧ manager.hardwareInterface then draw.hardwareKey.map fun key => ([], key)
    else .ok (draw.signingKey.toList, env.verifyingKey draw.signingKey)
  let encryptedKey ← if privateKey ≠ [] then encryptKey env privateKey else .ok []
  return {
    metadata := {
      keyId := draw.keyId, keyType, status := .active, createdAt := draw.createdAt.val
      rotatedAt := none
      expiry := some (draw.now.after (86400 * manager.rotationIntervalDays.setWidth 64))
      usageCount := 0, hardwareBacked := useHardware }
    encryptedKey, publicKey }

/-- `generate_key`. -/
def generateKey (keyType : KeyType) (useHardware : Bool) (draw : KeyDraw) :
    Sections KeyManager (Except KeyManagerError H256) :=
  .perform fun manager =>
    match manager.newEntry env keyType useHardware draw with
    | .error error => (manager, some (.error error))
    | .ok entry =>
      ({ manager with keys := manager.keys.insert draw.keyId entry }, some (.ok draw.keyId))

/-- The keys with another status for one of them. -/
def setEntry (manager : KeyManager) (keyId : H256) (entry : KeyEntry) : KeyManager :=
  { manager with keys := manager.keys.insert keyId entry }

/-- The first section of `rotate_key`: what the new key is to be. -/
def markRotating (oldKeyId : H256) (rotatedAt : Seconds) :
    Sections KeyManager (Option (KeyType × Bool)) :=
  .perform fun manager =>
    match manager.keys.lookup oldKeyId with
    | none => (manager, some none)
    | some old =>
      (manager.setEntry oldKeyId { old with metadata := { old.metadata with
          status := .rotating, rotatedAt := some rotatedAt.val } },
        some (some (old.metadata.keyType, old.metadata.hardwareBacked)))

/-- The last section of `rotate_key`. -/
def markDeprecated (oldKeyId : H256) : Sections KeyManager Unit :=
  .perform fun manager =>
    match manager.keys.lookup oldKeyId with
    | none => (manager, none)
    | some old =>
      (manager.setEntry oldKeyId
        { old with metadata := { old.metadata with status := .deprecated } }, some ())

/-- `rotate_key`. -/
def rotateKey (oldKeyId : H256) (rotatedAt : Seconds) (draw : KeyDraw) :
    Sections KeyManager (Except KeyManagerError H256) := do
  match ← markRotating oldKeyId rotatedAt with
  | none => return .error .keyNotFound
  | some (keyType, useHardware) =>
    match ← generateKey env keyType useHardware draw with
    | .error error => return .error error
    | .ok newKeyId =>
      markDeprecated oldKeyId
      return .ok newKeyId

/-- `should_rotate`. -/
def shouldRotate (metadata : KeyMetadata) (now : Seconds) : Bool :=
  metadata.expiry.any (fun expiry => expiry ≤ now.val) || 1000000 < metadata.usageCount

/-- The keys that `batch_rotate` finds. -/
def keysToRotate (keyType : KeyType) (order : IterOrder (Sigma fun _ : H256 => KeyEntry))
    (clock : H256 → Seconds) (manager : KeyManager) : List H256 :=
  ((order.arrange manager.keys.entries).filter fun entry =>
    entry.2.metadata.keyType = keyType && entry.2.metadata.status = .active &&
      shouldRotate entry.2.metadata (clock entry.1)).map (·.1)

/-- The loop of `batch_rotate`, from the `n`th key on. -/
def rotateAll (rotatedAt : Nat → Seconds) (draws : Nat → KeyDraw) :
    List H256 → Nat → List H256 → Sections KeyManager (Except KeyManagerError (List H256))
  | [], _, newKeys => return .ok newKeys
  | oldKey :: rest, n, newKeys => do
    match ← rotateKey env oldKey (rotatedAt n) (draws n) with
    | .error error => return .error error
    | .ok newKey => rotateAll rotatedAt draws rest (n + 1) (newKeys ++ [newKey])

/-- `batch_rotate`. -/
def batchRotate (keyType : KeyType) (order : IterOrder (Sigma fun _ : H256 => KeyEntry))
    (clock : H256 → Seconds) (rotatedAt : Nat → Seconds) (draws : Nat → KeyDraw) :
    Sections KeyManager (Except KeyManagerError (List H256)) := do
  let keysToRotate ← .get (keysToRotate keyType order clock)
  rotateAll env rotatedAt draws keysToRotate 0 []

/-- The end of `sign`, for an active key that has been counted. -/
def signWith (manager : KeyManager) (entry : KeyEntry) (message : List UInt8)
    (hardwareSignature : Except KeyManagerError (List UInt8)) :
    Option (Except KeyManagerError (List UInt8)) :=
  if entry.metadata.hardwareBacked then
    some (if manager.hardwareInterface then hardwareSignature else .error .hardwareNotAvailable)
  else
    match decryptKey env entry.encryptedKey with
    | .error error => some (.error error)
    | .ok privateKey =>
      -- `try_into().unwrap()`
      if h : privateKey.length = 32 then
        some (.ok (env.signature ⟨privateKey.toArray, h⟩ message))
      else none

/-- The body of `sign`. -/
def signLocked (keyId : H256) (message : List UInt8)
    (hardwareSignature : Except KeyManagerError (List UInt8)) (manager : KeyManager) :
    KeyManager × Option (Except KeyManagerError (List UInt8)) :=
  match manager.keys.lookup keyId with
  | none => (manager, some (.error .keyNotFound))
  | some entry =>
    if entry.metadata.status ≠ .active then (manager, some (.error .keyNotActive))
    else
      match env.add64 entry.metadata.usageCount 1 with
      | none => (manager, none)
      | some usageCount =>
        (manager.setEntry keyId { entry with metadata := { entry.metadata with usageCount } },
          manager.signWith env entry message hardwareSignature)

/-- `sign`, which holds the keys to its end. -/
def sign (keyId : H256) (message : List UInt8)
    (hardwareSignature : Except KeyManagerError (List UInt8)) :
    Sections KeyManager (Except KeyManagerError (List UInt8)) :=
  .perform (signLocked env keyId message hardwareSignature)

/-- `create_recovery_seed`. -/
def createRecoverySeed (keyId : H256) (now : Seconds) : List UInt8 :=
  (env.sha3 (keyId.toList ++ toLeBytes 8 now.val)).toList

/-- `split_secret`. -/
def splitSecret (secret : List UInt8) (n _k : U32) : List (List UInt8) :=
  List.replicate n.toNat secret

/-- The shares of a secret. -/
def sharesOf (keyId : H256) (shareIds : Nat → H256) (shares : List (List UInt8)) :
    List RecoveryShare :=
  shares.zipIdx.map fun share =>
    { shareId := shareIds share.2, keyId, shareIndex := BitVec.ofNat 32 share.2
      encryptedShare := share.1, validator := Vector.replicate 20 0 }

/-- `create_recovery_shares`. -/
def createRecoveryShares (keyId : H256) (numShares threshold : U32) (now : Seconds)
    (shareIds : Nat → H256) :
    Sections KeyManager (Except KeyManagerError (List RecoveryShare)) := do
  if numShares < threshold then return .error .invalidThreshold
  match ← .get fun manager => manager.keys.lookup keyId with
  | none => return .error .keyNotFound
  | some entry =>
    let secret := if entry.metadata.hardwareBacked then createRecoverySeed env keyId now
      else entry.encryptedKey
    let recoveryShares := sharesOf keyId shareIds (splitSecret secret numShares threshold)
    .perform fun manager =>
      ({ manager with recoveryShares := manager.recoveryShares ++ recoveryShares },
        some (.ok recoveryShares))

/-- `combine_shares`. -/
def combineShares (shares : List (List UInt8)) : Except KeyManagerError (List UInt8) :=
  shares.head?.elim (.error .insufficientShares) .ok

/-- The key that `recover_key` makes. -/
def recoveredEntry (secret : List UInt8) (newKeyId : H256) (createdAt now : Seconds) :
    KeyEntry :=
  { metadata := {
      keyId := newKeyId, keyType := .signing, status := .recovered, createdAt := createdAt.val
      rotatedAt := none, expiry := some (now.after (86400 * 30)), usageCount := 0
      hardwareBacked := false }
    encryptedKey := secret, publicKey := [] }

/-- `recover_key`. -/
def recoverKey (shares : List RecoveryShare) (newKeyId : H256) (createdAt now : Seconds) :
    Sections KeyManager (Except KeyManagerError H256) :=
  match shares with
  | [] => return .error .insufficientShares
  | first :: rest =>
    if ∀ share ∈ first :: rest, share.keyId = first.keyId then
      match combineShares ((first :: rest).map (·.encryptedShare)) with
      | .error error => return .error error
      | .ok secret =>
        .perform fun manager =>
          (manager.setEntry newKeyId (recoveredEntry secret newKeyId createdAt now),
            some (.ok newKeyId))
    else return .error .invalidShares

/-- A call, section by section. -/
def sections : KeyCall → Sections KeyManager KeyAnswer
  | .generateKey keyType useHardware draw => .key <$> generateKey env keyType useHardware draw
  | .rotateKey oldKeyId rotatedAt draw => .key <$> rotateKey env oldKeyId rotatedAt draw
  | .batchRotate keyType order clock rotatedAt draws =>
    .keys <$> batchRotate env keyType order clock rotatedAt draws
  | .sign keyId message hardwareSignature =>
    .signature <$> sign env keyId message hardwareSignature
  | .createRecoveryShares keyId numShares threshold now shareIds =>
    .shares <$> createRecoveryShares env keyId numShares threshold now shareIds
  | .recoverKey shares newKeyId createdAt now =>
    .key <$> recoverKey shares newKeyId createdAt now

end KeyManager

/-! ## What a section can do -/

/-- The ids that a call draws for keys. -/
def KeyCall.Draws : KeyCall → H256 → Prop
  | .generateKey _ _ draw, id => id = draw.keyId
  | .rotateKey _ _ draw, id => id = draw.keyId
  | .batchRotate _ _ _ _ draws, id => ∃ n, id = (draws n).keyId
  | .recoverKey _ newKeyId _ _, id => id = newKeyId
  | .sign .., _ => False
  | .createRecoveryShares .., _ => False

/-- The ids that a call draws for keys that are active. -/
def KeyCall.Generates : KeyCall → H256 → Prop
  | .recoverKey .., _ => False
  | call, id => call.Draws id

/-- A key as it may be later: its material stays, and it does not become active again. -/
structure KeyEntry.Later (env : KeyEnv) (entry entry' : KeyEntry) : Prop where
  keyId : entry'.metadata.keyId = entry.metadata.keyId
  keyType : entry'.metadata.keyType = entry.metadata.keyType
  createdAt : entry'.metadata.createdAt = entry.metadata.createdAt
  expiry : entry'.metadata.expiry = entry.metadata.expiry
  hardwareBacked : entry'.metadata.hardwareBacked = entry.metadata.hardwareBacked
  encryptedKey : entry'.encryptedKey = entry.encryptedKey
  publicKey : entry'.publicKey = entry.publicKey
  inactive : entry.metadata.status ≠ .active → entry'.metadata.status ≠ .active ∧
    entry'.metadata.usageCount = entry.metadata.usageCount
  counted : env.overflowChecks = true →
    entry.metadata.usageCount.toNat ≤ entry'.metadata.usageCount.toNat

/-- An active software key has a private key that belongs to its public key. -/
def KeyEntry.Sound (env : KeyEnv) (entry : KeyEntry) : Prop :=
  entry.metadata.status = .active → entry.metadata.hardwareBacked = false →
    ∃ key, env.encrypt key.toList = some entry.encryptedKey ∧
      entry.publicKey = env.verifyingKey key

theorem KeyEntry.Later.refl (env : KeyEnv) (entry : KeyEntry) : entry.Later env entry where
  keyId := rfl
  keyType := rfl
  createdAt := rfl
  expiry := rfl
  hardwareBacked := rfl
  encryptedKey := rfl
  publicKey := rfl
  inactive := fun h => ⟨h, rfl⟩
  counted := fun _ => Nat.le_refl _

theorem KeyEntry.Later.trans {env : KeyEnv} {a b c : KeyEntry} (h : a.Later env b)
    (h' : b.Later env c) : a.Later env c where
  keyId := h'.keyId.trans h.keyId
  keyType := h'.keyType.trans h.keyType
  createdAt := h'.createdAt.trans h.createdAt
  expiry := h'.expiry.trans h.expiry
  hardwareBacked := h'.hardwareBacked.trans h.hardwareBacked
  encryptedKey := h'.encryptedKey.trans h.encryptedKey
  publicKey := h'.publicKey.trans h.publicKey
  inactive := fun hno =>
    ⟨(h'.inactive (h.inactive hno).1).1,
      (h'.inactive (h.inactive hno).1).2.trans (h.inactive hno).2⟩
  counted := fun hchecks => (h.counted hchecks).trans (h'.counted hchecks)

theorem KeyEntry.Later.sound {env : KeyEnv} {entry entry' : KeyEntry} (h : entry.Later env entry')
    (hsound : entry.Sound env) : entry'.Sound env := by
  intro hactive hsoftware
  have hwas : entry.metadata.status = .active := by
    by_contra hno
    exact (h.inactive hno).1 hactive
  rw [h.encryptedKey, h.publicKey]
  exact hsound hwas (h.hardwareBacked ▸ hsoftware)

namespace KeyManager

variable (env : KeyEnv)

/-- No active key has this id. -/
def Sealed (keyId : H256) (manager : KeyManager) : Prop :=
  ∀ entry, manager.keys.lookup keyId = some entry → entry.metadata.status ≠ .active

/-- There is a key with this id, and it is like this. -/
def Found (F : KeyEntry → Prop) (keyId : H256) (manager : KeyManager) : Prop :=
  ∃ entry, manager.keys.lookup keyId = some entry ∧ F entry

/-- There are no keys with these ids. -/
def Absent (ids : H256 → Prop) (manager : KeyManager) : Prop :=
  ∀ id, ids id → manager.keys.lookup id = none

/-- The keys are sound, and a share of a software key is all of it. -/
structure Sound (manager : KeyManager) : Prop where
  keys : ∀ id entry, manager.keys.lookup id = some entry → entry.Sound env
  shares : ∀ share ∈ manager.recoveryShares, manager.Found (fun entry =>
    entry.metadata.hardwareBacked = false → share.encryptedShare = entry.encryptedKey) share.keyId

/-- What a section of a call can do. -/
structure Changes (call : KeyCall) (before after : KeyManager) : Prop where
  hardware : after.hardwareInterface = before.hardwareInterface
  kept : ∀ id entry, before.keys.lookup id = some entry →
    after.Found (fun entry' => entry.Later env entry') id
  drawn : ∀ id, before.keys.lookup id = none → ¬ call.Draws id → after.keys.lookup id = none
  sealed : ∀ id, before.Sealed id → ¬ call.Generates id → after.Sealed id
  sound : before.Sound env → after.Sound env

/-- What a section of some call can do. -/
def SomeChange (before after : KeyManager) : Prop := ∃ call, Changes env call before after

variable {env} {manager manager' : KeyManager} {call : KeyCall} {keyId : H256}

theorem sound_new (rotationIntervalDays : U32) : (new rotationIntervalDays).Sound env :=
  ⟨fun _ _ h => (by cases h), fun _ h => absurd h List.not_mem_nil⟩

theorem Sound.setHardwareWallet (h : manager.Sound env) : manager.setHardwareWallet.Sound env :=
  ⟨h.keys, h.shares⟩

theorem Changes.refl (manager : KeyManager) : Changes env call manager manager where
  hardware := rfl
  kept := fun _ entry h => ⟨entry, h, .refl env entry⟩
  drawn := fun _ h _ => h
  sealed := fun _ h _ => h
  sound := fun h => h

/-- What is found of a key is found later, if it is about what stays. -/
theorem stable_found {F : KeyEntry → Prop}
    (hF : ∀ entry entry', F entry → entry.Later env entry' → F entry') (keyId : H256) :
    Sections.Stable (SomeChange env) (Found F keyId) := by
  rintro manager manager' ⟨entry, hlookup, hentry⟩ ⟨call, hchanges⟩
  obtain ⟨entry', hlookup', hlater⟩ := hchanges.kept keyId entry hlookup
  exact ⟨entry', hlookup', hF entry entry' hentry hlater⟩

/-- A section that changes a key. -/
theorem changes_setEntry {entry entry' : KeyEntry}
    (hlookup : manager.keys.lookup keyId = some entry) (hlater : entry.Later env entry') :
    Changes env call manager (manager.setEntry keyId entry') := by
  have hkept : ∀ id old, manager.keys.lookup id = some old →
      (manager.setEntry keyId entry').Found (fun new => old.Later env new) id := by
    intro id old hold
    by_cases hid : id = keyId
    · obtain rfl := hid
      obtain rfl := Option.some.inj (hlookup.symm.trans hold)
      exact ⟨entry', AList.lookup_insert _, hlater⟩
    · exact ⟨old, (AList.lookup_insert_ne hid).trans hold, .refl env old⟩
  -- every entry afterwards is a later one of an entry before
  have hcases : ∀ id new, (manager.setEntry keyId entry').keys.lookup id = some new →
      ∃ old, manager.keys.lookup id = some old ∧ old.Later env new := by
    intro id new hnew
    obtain ⟨rfl, rfl⟩ | ⟨-, hnew⟩ := lookup_insert_eq_some.mp hnew
    · exact ⟨entry, hlookup, hlater⟩
    · exact ⟨new, hnew, .refl env new⟩
  refine ⟨rfl, hkept, ?_, ?_, ?_⟩
  · intro id hnone _
    refine lookup_insert_eq_none.mpr ⟨?_, hnone⟩
    rintro rfl
    rw [hlookup] at hnone
    cases hnone
  · intro id hsealed _ new hnew
    obtain ⟨old, hold, hlater⟩ := hcases id new hnew
    exact (hlater.inactive (hsealed old hold)).1
  · intro hsound
    constructor
    · intro id new hnew
      obtain ⟨old, hold, hlater⟩ := hcases id new hnew
      exact hlater.sound (hsound.keys id old hold)
    · intro share hshare
      -- the shares stay whole, since the secret of the key does not change
      obtain ⟨old, hold, hwhole⟩ := hsound.shares share hshare
      obtain ⟨new, hnew, hlater⟩ := hkept _ old hold
      refine ⟨new, hnew, fun hsoftware => ?_⟩
      rw [hlater.encryptedKey]
      exact hwhole (hlater.hardwareBacked ▸ hsoftware)

/-- A section that puts a new key at an id that it has drawn. -/
theorem changes_insert {entry : KeyEntry} (habsent : manager.keys.lookup keyId = none)
    (hdraws : call.Draws keyId) (hsound : entry.Sound env)
    (hgenerates : entry.metadata.status = .active → call.Generates keyId) :
    Changes env call manager (manager.setEntry keyId entry) := by
  have hkept : ∀ id old, manager.keys.lookup id = some old →
      (manager.setEntry keyId entry).keys.lookup id = some old := by
    intro id old hold
    refine lookup_insert_eq_some.mpr (.inr ⟨?_, hold⟩)
    rintro rfl
    rw [habsent] at hold
    cases hold
  refine ⟨rfl, fun id old hold => ⟨old, hkept id old hold, .refl env old⟩, ?_, ?_, ?_⟩
  · intro id hnone hno
    refine lookup_insert_eq_none.mpr ⟨?_, hnone⟩
    rintro rfl
    exact hno hdraws
  · intro id hsealed hno new hnew
    obtain ⟨rfl, rfl⟩ | ⟨-, hnew⟩ := lookup_insert_eq_some.mp hnew
    · exact fun hactive => hno (hgenerates hactive)
    · exact hsealed new hnew
  · intro h
    constructor
    · intro id new hnew
      obtain ⟨-, rfl⟩ | ⟨-, hnew⟩ := lookup_insert_eq_some.mp hnew
      · exact hsound
      · exact h.keys id new hnew
    · intro share hshare
      obtain ⟨old, hold, hwhole⟩ := h.shares share hshare
      exact ⟨old, hkept _ old hold, hwhole⟩

/-- A section that stores shares of a key. -/
theorem changes_shares {shares : List RecoveryShare}
    (hshares : ∀ share ∈ shares, manager.Found (fun entry =>
      entry.metadata.hardwareBacked = false → share.encryptedShare = entry.encryptedKey)
      share.keyId) :
    Changes env call manager
      { manager with recoveryShares := manager.recoveryShares ++ shares } where
  hardware := rfl
  kept := fun _ entry h => ⟨entry, h, .refl env entry⟩
  drawn := fun _ h _ => h
  sealed := fun _ h _ => h
  sound := by
    intro h
    refine ⟨h.keys, fun share hshare => ?_⟩
    obtain hold | hnew := List.mem_append.mp hshare
    · exact h.shares share hold
    · exact hshares share hnew

end KeyManager

end InterBit.Security
