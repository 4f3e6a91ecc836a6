import InterBit.Security.KeyManager

/-!
# The rules of the key manager's calls

What each call of the key manager does among others (`sections_meets`), if no random id is drawn
twice and the ciphers are right. What lasts through every section of every call is carried along as
`F`; that the ids which a call has yet to use are free is known to that call alone.

The rules are those of `Lib.RelyGuarantee`. A call asserts that an entry is found, or that an id is
still free, and each of these assertions is shown to survive what other calls can do
(`stable_found`, `stable_absent`). The specification of a call is then read off its sections in
order.
-/

namespace InterBit.Security

open InterBit.Lib InterBit.StateMachine

namespace KeyManager

open Sections

variable {ι : Type} {env : KeyEnv} {calls : ι → KeyCall} {i : ι} {keyId : H256}

/-- No random id is drawn twice. -/
structure Fresh (calls : ι → KeyCall) : Prop where
  apart : ∀ i j id, (calls i).Draws id → (calls j).Draws id → i = j
  once : ∀ i keyType order clock rotatedAt draws,
    calls i = .batchRotate keyType order clock rotatedAt draws →
    Function.Injective fun n => (draws n).keyId

/-- What a call relies on: the others do what their sections can do. -/
def Rely (env : KeyEnv) (calls : ι → KeyCall) (i : ι) (before after : KeyManager) : Prop :=
  ∃ j, j ≠ i ∧ Changes env (calls j) before after

/-- The number of times that a key was used cannot be counted any more. -/
def Exhausted (env : KeyEnv) (manager : KeyManager) : Prop :=
  env.overflowChecks = true ∧
    ∃ keyId, manager.Found (fun entry => 2 ^ 64 ≤ entry.metadata.usageCount.toNat + 1) keyId

theorem stable_rely {P : KeyManager → Prop} (h : Stable (SomeChange env) P) :
    Stable (Rely env calls i) P := by
  rintro manager manager' hP ⟨j, -, hchanges⟩
  exact h manager manager' hP ⟨calls j, hchanges⟩

theorem stable_sound : Stable (SomeChange env) (Sound env) := by
  rintro manager manager' hsound ⟨call, hchanges⟩
  exact hchanges.sound hsound

theorem stable_exhausted : Stable (SomeChange env) (Exhausted env) := by
  rintro manager manager' ⟨hchecks, keyId, hfound⟩ hchange
  have hF : ∀ entry entry' : KeyEntry, 2 ^ 64 ≤ entry.metadata.usageCount.toNat + 1 →
      entry.Later env entry' → 2 ^ 64 ≤ entry'.metadata.usageCount.toNat + 1 :=
    fun entry entry' hentry hlater => hentry.trans (Nat.succ_le_succ (hlater.counted hchecks))
  exact ⟨hchecks, keyId, stable_found hF keyId _ _ hfound hchange⟩

/-- Nobody else puts a key at an id that the call has drawn. -/
theorem stable_absent (hfresh : Fresh calls) {ids : H256 → Prop}
    (hids : ∀ id, ids id → (calls i).Draws id) : Stable (Rely env calls i) (Absent ids) := by
  rintro manager manager' habsent ⟨j, hj, hchanges⟩ id hid
  refine hchanges.drawn id (habsent id hid) fun hdraws => ?_
  exact hj (hfresh.apart j i id hdraws (hids id hid))

/-- An entry that is put at another id leaves them absent. -/
theorem Absent.setEntry {ids : H256 → Prop} {manager : KeyManager} (h : Absent ids manager)
    (hno : ¬ ids keyId) (entry : KeyEntry) : Absent ids (manager.setEntry keyId entry) := by
  intro id hid
  refine lookup_insert_eq_none.mpr ⟨?_, h id hid⟩
  rintro rfl
  exact hno hid

/-! ## Rotation -/

/-- A new key is as it is asked for, and it is sound. -/
theorem newEntry_spec {manager : KeyManager} {keyType : KeyType} {useHardware : Bool}
    {draw : KeyDraw} {entry : KeyEntry}
    (h : manager.newEntry env keyType useHardware draw = .ok entry) :
    entry.metadata.keyType = keyType ∧ entry.metadata.hardwareBacked = useHardware ∧
      entry.Sound env := by
  unfold newEntry at h
  by_cases hhardware : useHardware ∧ manager.hardwareInterface
  · rw [if_pos hhardware] at h
    cases hkey : draw.hardwareKey with
    | error error =>
      rw [hkey] at h
      cases h
    | ok key =>
      rw [hkey] at h
      cases h
      refine ⟨rfl, rfl, fun _ hsoftware => ?_⟩
      rw [show useHardware = false from hsoftware] at hhardware
      cases hhardware.1
  -- A drawn key is never empty, so the check before the encryption passes.
  · have hbytes : draw.signingKey.toList ≠ [] := by
      intro hnil
      have hlength := draw.signingKey.length_toList
      rw [hnil] at hlength
      cases hlength
    rw [if_neg hhardware] at h
    dsimp only [Bind.bind, Except.bind] at h
    rw [if_pos hbytes] at h
    cases hencrypted : env.encrypt draw.signingKey.toList with
    | none =>
      rw [encryptKey, hencrypted] at h
      cases h
    | some encryptedKey =>
      rw [encryptKey, hencrypted] at h
      cases h
      exact ⟨rfl, rfl, fun _ _ => ⟨draw.signingKey, hencrypted, rfl⟩⟩

section Rotation

variable {ids : H256 → Prop} {F : KeyManager → Prop}

/-- `generate_key` puts a key at its id. What lasts is not touched, nor are the other ids that the
call has drawn. -/
theorem generateKey_meets (hfresh : Fresh calls) (hF : Stable (SomeChange env) F)
    (hids : ∀ id, ids id → (calls i).Draws id) {draw : KeyDraw} (hno : ¬ ids draw.keyId)
    (hdraws : (calls i).Draws draw.keyId) (hgenerates : (calls i).Generates draw.keyId)
    (keyType : KeyType) (useHardware : Bool) :
    (generateKey env keyType useHardware draw).Meets (Rely env calls i) (Changes env (calls i))
      (fun answer manager => (manager.Absent ids ∧ F manager) ∧ ∀ id, answer = .ok id →
        id = draw.keyId ∧ manager.Found (fun entry => entry.metadata.keyType = keyType ∧
          entry.metadata.hardwareBacked = useHardware) id)
      (Exhausted env)
      fun manager => manager.Absent (fun id => id = draw.keyId ∨ ids id) ∧ F manager := by
  -- neither the type nor the place of a key changes later
  have hfound : ∀ entry entry' : KeyEntry,
      entry.metadata.keyType = keyType ∧ entry.metadata.hardwareBacked = useHardware →
      entry.Later env entry' →
      entry'.metadata.keyType = keyType ∧ entry'.metadata.hardwareBacked = useHardware := by
    intro entry entry' h hlater
    exact ⟨hlater.keyType.trans h.1, hlater.hardwareBacked.trans h.2⟩
  have hchanges : ∀ (manager : KeyManager) (entry : KeyEntry),
      manager.Absent (fun id => id = draw.keyId ∨ ids id) →
      manager.newEntry env keyType useHardware draw = .ok entry →
      Changes env (calls i) manager (manager.setEntry draw.keyId entry) := by
    intro manager entry habsent hentry
    exact changes_insert (habsent _ (.inl rfl)) hdraws (newEntry_spec hentry).2.2
      fun _ => hgenerates
  refine meets_perform ?_ ?_ ?_ ?_ (stable_rely stable_exhausted)
  · rintro manager ⟨habsent, -⟩
    cases hentry : manager.newEntry env keyType useHardware draw with
    | error error => exact .refl manager
    | ok entry => exact hchanges manager entry habsent hentry
  · rintro manager answer ⟨habsent, hlasting⟩ hanswer
    cases hentry : manager.newEntry env keyType useHardware draw with
    | error error =>
      rw [hentry] at hanswer
      cases hanswer
      refine ⟨⟨fun id hid => habsent id (.inr hid), hlasting⟩, fun id hid => ?_⟩
      cases hid
    | ok entry =>
      rw [hentry] at hanswer
      cases hanswer
      have habsent' : manager.Absent ids := fun id hid => habsent id (.inr hid)
      refine ⟨⟨habsent'.setEntry hno entry,
        hF _ _ hlasting ⟨calls i, hchanges manager entry habsent hentry⟩⟩, fun id hid => ?_⟩
      cases hid
      obtain ⟨htype, hhardware, -⟩ := newEntry_spec hentry
      exact ⟨rfl, entry, AList.lookup_insert _, htype, hhardware⟩
  -- what the other calls do after the section
  · rintro answer manager manager' ⟨⟨habsent, hlasting⟩, hkey⟩ hrely
    refine ⟨⟨stable_absent hfresh hids _ _ habsent hrely,
      stable_rely hF _ _ hlasting hrely⟩, fun id hid => ⟨(hkey id hid).1, ?_⟩⟩
    exact stable_rely (stable_found hfound id) _ _ (hkey id hid).2 hrely
  · intro manager _ hnone
    cases hentry : manager.newEntry env keyType useHardware draw with
    | error | ok =>
      rw [hentry] at hnone
      cases hnone

/-- A key that has been rotated, of this type. -/
def Rotated (keyType : KeyType) (useHardware : Bool) (entry : KeyEntry) : Prop :=
  entry.metadata.status ≠ .active ∧ entry.metadata.keyType = keyType ∧
    entry.metadata.hardwareBacked = useHardware

theorem stable_rotated (keyType : KeyType) (useHardware : Bool) (keyId : H256) :
    Stable (SomeChange env) (Found (Rotated keyType useHardware) keyId) := by
  refine stable_found ?_ keyId
  rintro entry entry' ⟨hinactive, htype, hhardware⟩ hlater
  exact ⟨(hlater.inactive hinactive).1, hlater.keyType.trans htype,
    hlater.hardwareBacked.trans hhardware⟩

/-- A key with another status that is not `Active`, and the same count. -/
theorem later_of_status {entry : KeyEntry} {metadata : KeyMetadata}
    (h : metadata = { entry.metadata with
      status := metadata.status, rotatedAt := metadata.rotatedAt })
    (hinactive : metadata.status ≠ .active) : entry.Later env { entry with metadata } := by
  rw [h]
  exact ⟨rfl, rfl, rfl, rfl, rfl, rfl, rfl, fun _ => ⟨hinactive, rfl⟩, fun _ => Nat.le_refl _⟩

/-- What `rotate_key` has marked is not active. -/
theorem markRotating_meets (hfresh : Fresh calls) (hF : Stable (SomeChange env) F)
    (hids : ∀ id, ids id → (calls i).Draws id) (rotatedAt : Seconds) :
    (markRotating keyId rotatedAt).Meets (Rely env calls i) (Changes env (calls i))
      (fun answer manager => (manager.Absent ids ∧ F manager) ∧ ∀ keyType useHardware,
        answer = some (keyType, useHardware) → manager.Found (Rotated keyType useHardware) keyId)
      (Exhausted env) fun manager => manager.Absent ids ∧ F manager := by
  have hlater : ∀ entry : KeyEntry, entry.Later env { entry with metadata := {
      entry.metadata with status := .rotating, rotatedAt := some rotatedAt.val } } :=
    fun entry => later_of_status rfl fun h => by cases h
  refine meets_perform ?_ ?_ ?_ ?_ (stable_rely stable_exhausted)
  · rintro manager -
    cases hlookup : manager.keys.lookup keyId with
    | none => exact .refl manager
    | some entry => exact changes_setEntry hlookup (hlater entry)
  · rintro manager answer ⟨habsent, hlasting⟩ hanswer
    cases hlookup : manager.keys.lookup keyId with
    | none =>
      rw [hlookup] at hanswer
      cases hanswer
      exact ⟨⟨habsent, hlasting⟩, fun _ _ h => by cases h⟩
    | some entry =>
      rw [hlookup] at hanswer
      cases hanswer
      -- the key is there, so it is none of those that are still to come
      have hno : ¬ ids keyId := fun hid => by
        rw [habsent keyId hid] at hlookup
        cases hlookup
      refine ⟨⟨habsent.setEntry hno _,
        hF _ _ hlasting ⟨calls i, changes_setEntry hlookup (hlater entry)⟩⟩, fun _ _ h => ?_⟩
      cases h
      exact ⟨_, AList.lookup_insert _, (fun h => by cases h), rfl, rfl⟩
  · rintro answer manager manager' ⟨⟨habsent, hlasting⟩, hmarked⟩ hrely
    refine ⟨⟨stable_absent hfresh hids _ _ habsent hrely, stable_rely hF _ _ hlasting hrely⟩,
      fun keyType useHardware h => ?_⟩
    exact stable_rely (stable_rotated keyType useHardware keyId) _ _ (hmarked _ _ h) hrely
  · intro manager _ hnone
    cases hlookup : manager.keys.lookup keyId with
    | none | some =>
      rw [hlookup] at hnone
      cases hnone

/-- The key that was marked is still there. -/
theorem markDeprecated_meets (hfresh : Fresh calls) (hF : Stable (SomeChange env) F)
    (hids : ∀ id, ids id → (calls i).Draws id)
    (hfound : ∀ manager, F manager → ∃ entry, manager.keys.lookup keyId = some entry) :
    (markDeprecated keyId).Meets (Rely env calls i) (Changes env (calls i))
      (fun _ manager => manager.Absent ids ∧ F manager) (Exhausted env)
      fun manager => manager.Absent ids ∧ F manager := by
  have hlater : ∀ entry : KeyEntry, entry.Later env { entry with metadata := {
      entry.metadata with status := .deprecated } } :=
    fun entry => later_of_status rfl fun h => by cases h
  refine meets_perform ?_ ?_ ?_ ?_ (stable_rely stable_exhausted)
  · rintro manager ⟨-, hlasting⟩
    obtain ⟨entry, hlookup⟩ := hfound manager hlasting
    rw [hlookup]
    exact changes_setEntry hlookup (hlater entry)
  · rintro manager answer ⟨habsent, hlasting⟩ -
    obtain ⟨entry, hlookup⟩ := hfound manager hlasting
    have hno : ¬ ids keyId := fun hid => by
      rw [habsent keyId hid] at hlookup
      cases hlookup
    rw [hlookup]
    exact ⟨habsent.setEntry hno _,
      hF _ _ hlasting ⟨calls i, changes_setEntry hlookup (hlater entry)⟩⟩
  · rintro - manager manager' ⟨habsent, hlasting⟩ hrely
    exact ⟨stable_absent hfresh hids _ _ habsent hrely, stable_rely hF _ _ hlasting hrely⟩
  · rintro manager ⟨-, hlasting⟩ hnone
    obtain ⟨entry, hlookup⟩ := hfound manager hlasting
    rw [hlookup] at hnone
    cases hnone

/-- The new key is as the old one was, and the old one is not active. -/
theorem rotateKey_meets (hfresh : Fresh calls) (hF : Stable (SomeChange env) F)
    (hids : ∀ id, ids id → (calls i).Draws id) {draw : KeyDraw} (hno : ¬ ids draw.keyId)
    (hdraws : (calls i).Draws draw.keyId) (hgenerates : (calls i).Generates draw.keyId)
    (oldKeyId : H256) (rotatedAt : Seconds) :
    (rotateKey env oldKeyId rotatedAt draw).Meets (Rely env calls i) (Changes env (calls i))
      (fun answer manager => (manager.Absent ids ∧ F manager) ∧ ∀ newKeyId, answer = .ok newKeyId →
        ∃ keyType useHardware, manager.Found (Rotated keyType useHardware) oldKeyId ∧
          manager.Found (fun entry => entry.metadata.keyType = keyType ∧
            entry.metadata.hardwareBacked = useHardware) newKeyId)
      (Exhausted env)
      fun manager => manager.Absent (fun id => id = draw.keyId ∨ ids id) ∧ F manager := by
  have hids' : ∀ id, id = draw.keyId ∨ ids id → (calls i).Draws id := by
    rintro id (rfl | hid)
    · exact hdraws
    · exact hids id hid
  refine (markRotating_meets hfresh hF hids' rotatedAt).bind fun marked => ?_
  cases marked with
  | none =>
    rintro manager ⟨⟨habsent, hlasting⟩, -⟩
    exact ⟨⟨fun id hid => habsent id (.inr hid), hlasting⟩, fun _ h => by cases h⟩
  | some what =>
    obtain ⟨keyType, useHardware⟩ := what
    have hF' : Stable (SomeChange env) fun manager =>
        F manager ∧ manager.Found (Rotated keyType useHardware) oldKeyId := by
      rintro manager manager' ⟨hlasting, hrotated⟩ hchange
      exact ⟨hF _ _ hlasting hchange, stable_rotated _ _ _ _ _ hrotated hchange⟩
    have hgenerate := @generateKey_meets _ env calls i _ _ hfresh hF' hids draw hno hdraws
      hgenerates keyType useHardware
    refine Meets.bind (hgenerate.of_imp ?_) fun answer => ?_
    · rintro manager ⟨⟨habsent, hlasting⟩, hmarked⟩
      exact ⟨habsent, hlasting, hmarked keyType useHardware rfl⟩
    · cases answer with
      | error error =>
        rintro manager ⟨⟨habsent, hlasting, -⟩, -⟩
        exact ⟨⟨habsent, hlasting⟩, fun _ h => by cases h⟩
      | ok newKeyId =>
        -- the last section keeps what is known of both keys
        have hnew : Stable (SomeChange env) (Found (fun entry =>
            entry.metadata.keyType = keyType ∧ entry.metadata.hardwareBacked = useHardware)
            newKeyId) :=
          stable_found (fun entry entry' h hlater => ⟨hlater.keyType.trans h.1,
            hlater.hardwareBacked.trans h.2⟩) newKeyId
        have hboth : Stable (SomeChange env) fun manager =>
            (F manager ∧ manager.Found (Rotated keyType useHardware) oldKeyId) ∧
            manager.Found (fun entry => entry.metadata.keyType = keyType ∧
              entry.metadata.hardwareBacked = useHardware) newKeyId := by
          rintro manager manager' ⟨hold, hfound⟩ hchange
          exact ⟨hF' _ _ hold hchange, hnew _ _ hfound hchange⟩
        have hdeprecate := @markDeprecated_meets _ env calls i oldKeyId _ _ hfresh hboth hids
          (fun manager h => ⟨h.1.2.choose, h.1.2.choose_spec.1⟩)
        refine Meets.bind (hdeprecate.of_imp ?_) fun _ => ?_
        · rintro manager ⟨⟨habsent, hlasting⟩, hkey⟩
          exact ⟨habsent, hlasting, (hkey newKeyId rfl).2⟩
        · rintro manager ⟨habsent, ⟨hlasting, hrotated⟩, hfound⟩
          refine ⟨⟨habsent, hlasting⟩, fun id hid => ?_⟩
          cases hid
          exact ⟨keyType, useHardware, hrotated, hfound⟩

/-- The loop of `batch_rotate` keeps to the rules, with a new id for each key. -/
theorem rotateAll_meets (hfresh : Fresh calls) {rotatedAt : Nat → Seconds} {draws : Nat → KeyDraw}
    (honce : Function.Injective fun n => (draws n).keyId)
    (hdraws : ∀ n, (calls i).Draws (draws n).keyId)
    (hgenerates : ∀ n, (calls i).Generates (draws n).keyId) (keys : List H256) (n : Nat)
    (newKeys : List H256) :
    (rotateAll env rotatedAt draws keys n newKeys).Meets (Rely env calls i)
      (Changes env (calls i)) (fun _ _ => True) (Exhausted env)
      (Absent fun id => ∃ m, n ≤ m ∧ id = (draws m).keyId) := by
  induction keys generalizing n newKeys with
  | nil => exact fun _ _ => trivial
  | cons oldKey keys ih =>
    have hids : ∀ id, (∃ m, n + 1 ≤ m ∧ id = (draws m).keyId) → (calls i).Draws id := by
      rintro id ⟨m, -, rfl⟩
      exact hdraws m
    have hno : ¬ ∃ m, n + 1 ≤ m ∧ (draws n).keyId = (draws m).keyId := by
      rintro ⟨m, hm, heq⟩
      have hnm : n = m := honce heq
      omega
    have hrotate := @rotateKey_meets _ env calls i _ (fun _ => True) hfresh
      (fun _ _ _ _ => trivial) hids (draws n) hno (hdraws n) (hgenerates n) oldKey (rotatedAt n)
    refine Meets.bind (hrotate.of_imp ?_) fun answer => ?_
    · intro manager habsent
      refine ⟨fun id hid => habsent id ?_, trivial⟩
      obtain rfl | ⟨m, hm, rfl⟩ := hid
      · exact ⟨n, Nat.le_refl n, rfl⟩
      · exact ⟨m, Nat.le_of_succ_le hm, rfl⟩
    · cases answer with
      | error error => exact fun _ _ => trivial
      | ok newKey => exact (ih (n + 1) (newKeys ++ [newKey])).of_imp fun manager h => h.1.1

end Rotation

/-! ## Signatures and shares -/

/-- What the ciphers are relied on for. -/
structure Cryptography (env : KeyEnv) (verifies : List UInt8 → List UInt8 → List UInt8 → Prop) :
    Prop where
  decrypt : ∀ key encrypted, env.encrypt key = some encrypted → env.decrypt encrypted = some key
  verify : ∀ key message, verifies (env.verifyingKey key) message (env.signature key message)

/-- A signature as it comes from a key: it verifies, or it is the hardware wallet's. -/
def Signed (verifies : List UInt8 → List UInt8 → List UInt8 → Prop) (keyId : H256)
    (message : List UInt8) (hardwareSignature : Except KeyManagerError (List UInt8))
    (signature : List UInt8) (manager : KeyManager) : Prop :=
  ∃ backed, manager.Found (fun entry => entry.metadata.hardwareBacked = backed ∧
      (backed = false → verifies entry.publicKey message signature)) keyId ∧
    (backed = true → manager.hardwareInterface = true ∧ hardwareSignature = .ok signature)

/-- The share is the whole key. -/
def Whole (share : RecoveryShare) (entry : KeyEntry) : Prop :=
  entry.metadata.hardwareBacked = false → share.encryptedShare = entry.encryptedKey

/-- What an answer says of the keys. -/
def Answered (verifies : List UInt8 → List UInt8 → List UInt8 → Prop) :
    KeyCall → KeyAnswer → KeyManager → Prop
  | .sign keyId message hardwareSignature, .signature (.ok signature), manager =>
    Signed verifies keyId message hardwareSignature signature manager
  | .rotateKey oldKeyId _ _, .key (.ok newKeyId), manager => ∃ keyType useHardware,
    manager.Found (Rotated keyType useHardware) oldKeyId ∧
      manager.Found (fun entry => entry.metadata.keyType = keyType ∧
        entry.metadata.hardwareBacked = useHardware) newKeyId
  | .createRecoveryShares keyId _ _ _ _, .shares (.ok shares), manager =>
    ∀ share ∈ shares, share.keyId = keyId ∧ manager.Found (Whole share) keyId
  | .recoverKey shares newKeyId _ _, .key (.ok keyId), manager => keyId = newKeyId ∧
    ∃ first ∈ shares, manager.Found (fun entry => entry.metadata.status ≠ .active ∧
      entry.encryptedKey = first.encryptedShare) keyId
  | _, _, _ => True

section Signing

variable {verifies : List UInt8 → List UInt8 → List UInt8 → Prop}

theorem stable_signed (message : List UInt8)
    (hardwareSignature : Except KeyManagerError (List UInt8)) (signature : List UInt8) :
    Stable (SomeChange env) (Signed verifies keyId message hardwareSignature signature) := by
  rintro manager manager' ⟨backed, hfound, hhardware⟩ hchange
  refine ⟨backed, stable_found ?_ keyId _ _ hfound hchange, fun hbacked => ?_⟩
  · rintro entry entry' ⟨hentry, hverifies⟩ hlater
    refine ⟨hlater.hardwareBacked.trans hentry, fun hbacked => ?_⟩
    rw [hlater.publicKey]
    exact hverifies hbacked
  · obtain ⟨call, hchanges⟩ := hchange
    rw [hchanges.hardware]
    exact hhardware hbacked

theorem stable_whole (share : RecoveryShare) (keyId : H256) :
    Stable (SomeChange env) (Found (Whole share) keyId) := by
  refine stable_found ?_ keyId
  intro entry entry' hwhole hlater hsoftware
  rw [hlater.encryptedKey]
  exact hwhole (hlater.hardwareBacked ▸ hsoftware)

/-- One use more. -/
theorem later_of_use {entry : KeyEntry} {usageCount : U64}
    (hactive : entry.metadata.status = .active)
    (hcount : env.add64 entry.metadata.usageCount 1 = some usageCount) :
    entry.Later env { entry with metadata := { entry.metadata with usageCount } } := by
  refine ⟨rfl, rfl, rfl, rfl, rfl, rfl, rfl, fun h => absurd hactive h, fun hchecks => ?_⟩
  obtain ⟨rfl, hfits⟩ := Build.add64_eq_some hcount
  show _ ≤ (entry.metadata.usageCount + 1).toNat
  rw [BitVec.toNat_add, Nat.mod_eq_of_lt (hfits hchecks)]
  exact Nat.le_add_right _ _

/-- An active key that is sound signs. -/
theorem signWith_spec (hcrypto : Cryptography env verifies) {manager : KeyManager}
    {entry : KeyEntry} (hactive : entry.metadata.status = .active) (hsound : entry.Sound env)
    (message : List UInt8) (hardwareSignature : Except KeyManagerError (List UInt8)) :
    ∃ answer, manager.signWith env entry message hardwareSignature = some answer ∧
      ∀ signature, answer = .ok signature →
        (entry.metadata.hardwareBacked = false → verifies entry.publicKey message signature) ∧
        (entry.metadata.hardwareBacked = true →
          manager.hardwareInterface = true ∧ hardwareSignature = .ok signature) := by
  unfold signWith
  cases hbacked : entry.metadata.hardwareBacked with
  | true =>
    refine ⟨_, if_pos rfl, fun signature h => ⟨fun hno => absurd hno Bool.noConfusion,
      fun _ => ?_⟩⟩
    split at h
    next hhardware => exact ⟨hhardware, h⟩
    next => cases h
  | false =>
    obtain ⟨key, hencrypted, hpublic⟩ := hsound hactive hbacked
    rw [if_neg Bool.false_ne_true, decryptKey, hcrypto.decrypt _ _ hencrypted]
    refine ⟨_, dif_pos key.length_toList, fun signature h => ⟨fun _ => ?_,
      fun hno => absurd hno Bool.noConfusion⟩⟩
    obtain rfl := Except.ok.inj h
    rw [hpublic]
    exact hcrypto.verify key message

/-- What `sign` can do. -/
theorem signLocked_cases (env : KeyEnv) (keyId : H256) (message : List UInt8)
    (hardwareSignature : Except KeyManagerError (List UInt8)) (manager : KeyManager) :
    (∃ error, signLocked env keyId message hardwareSignature manager
        = (manager, some (.error error)) ∧ manager.Sealed keyId ∧
        (error = .keyNotFound ∧ manager.keys.lookup keyId = none ∨ error = .keyNotActive)) ∨
    (signLocked env keyId message hardwareSignature manager = (manager, none) ∧
      manager.Exhausted env ∧ ¬ manager.Sealed keyId) ∨
    ∃ entry usageCount, manager.keys.lookup keyId = some entry ∧
      entry.metadata.status = .active ∧
      env.add64 entry.metadata.usageCount 1 = some usageCount ∧
      signLocked env keyId message hardwareSignature manager
        = (manager.setEntry keyId { entry with metadata := { entry.metadata with usageCount } },
          manager.signWith env entry message hardwareSignature) := by
  unfold signLocked
  cases hlookup : manager.keys.lookup keyId with
  | none =>
    refine .inl ⟨.keyNotFound, rfl, fun entry hentry => ?_, .inl ⟨rfl, rfl⟩⟩
    rw [hlookup] at hentry
    cases hentry
  | some entry =>
    dsimp only
    by_cases hactive : entry.metadata.status = .active
    · rw [if_neg (not_not.mpr hactive)]
      refine .inr ?_
      cases hcount : env.add64 entry.metadata.usageCount 1 with
      | none =>
        unfold Build.add64 at hcount
        split at hcount
        next hfull =>
          exact .inl ⟨rfl, ⟨hfull.1, keyId, entry, hlookup, hfull.2⟩,
            fun hsealed => hsealed entry hlookup hactive⟩
        next => cases hcount
      | some usageCount => exact .inr ⟨entry, usageCount, rfl, hactive, hcount, rfl⟩
    · rw [if_pos hactive]
      refine .inl ⟨.keyNotActive, rfl, fun entry' hentry => ?_, .inr rfl⟩
      obtain rfl := Option.some.inj (hlookup.symm.trans hentry)
      exact hactive

theorem changes_signLocked (call : KeyCall) (message : List UInt8)
    (hardwareSignature : Except KeyManagerError (List UInt8)) (manager : KeyManager) :
    Changes env call manager (signLocked env keyId message hardwareSignature manager).1 := by
  rcases signLocked_cases env keyId message hardwareSignature manager with
    ⟨error, heq, -⟩ | ⟨heq, -⟩ | ⟨entry, usageCount, hlookup, hactive, hcount, heq⟩
  · rw [heq]
    exact .refl manager
  · rw [heq]
    exact .refl manager
  · rw [heq]
    exact changes_setEntry hlookup (later_of_use hactive hcount)

/-- What `sign` returns is a signature, and it panics only when it cannot count any more. -/
theorem sign_meets (hcrypto : Cryptography env verifies) (message : List UInt8)
    (hardwareSignature : Except KeyManagerError (List UInt8)) :
    (sign env keyId message hardwareSignature).Meets (Rely env calls i) (Changes env (calls i))
      (fun answer manager => ∀ signature, answer = .ok signature →
        Signed verifies keyId message hardwareSignature signature manager)
      (Exhausted env) (Sound env) := by
  refine meets_perform (fun manager _ => changes_signLocked ..) ?_ ?_ ?_
    (stable_rely stable_exhausted)
  -- A signature comes from a key that is active, by the key itself or by the hardware.
  · intro manager answer hsound hanswer signature hsignature
    rcases signLocked_cases env keyId message hardwareSignature manager with
      ⟨error, heq, -⟩ | ⟨heq, -⟩ | ⟨entry, usageCount, hlookup, hactive, hcount, heq⟩
    · rw [heq] at hanswer
      cases hanswer
      cases hsignature
    · rw [heq] at hanswer
      cases hanswer
    · obtain ⟨answer', hsign, hspec⟩ := @signWith_spec _ _ hcrypto manager entry hactive
        (hsound.keys keyId entry hlookup) message hardwareSignature
      rw [heq] at hanswer ⊢
      obtain rfl := Option.some.inj (hsign.symm.trans hanswer)
      obtain ⟨hsoftware, hhardware⟩ := hspec signature hsignature
      exact ⟨entry.metadata.hardwareBacked, ⟨_, AList.lookup_insert _, rfl, hsoftware⟩, hhardware⟩
  -- What has been signed stays so, whatever happens to the key.
  · intro answer manager manager' hsigned hrely signature hsignature
    exact stable_rely (stable_signed message hardwareSignature signature) _ _
      (hsigned signature hsignature) hrely
  -- The one panic is that of the usage count.
  · intro manager hsound hnone
    rcases signLocked_cases env keyId message hardwareSignature manager with
      ⟨error, heq, -⟩ | ⟨heq, hexhausted, -⟩ | ⟨entry, usageCount, hlookup, hactive, hcount, heq⟩
    · rw [heq] at hnone
      cases hnone
    · rw [heq]
      exact hexhausted
    · obtain ⟨answer, hsign, -⟩ := @signWith_spec _ _ hcrypto manager entry hactive
        (hsound.keys keyId entry hlookup) message hardwareSignature
      rw [heq] at hnone
      exact absurd (hsign.symm.trans hnone) (Option.some_ne_none answer)

/-- A key that is not active does not sign. -/
theorem sign_meets_of_sealed {P : KeyManager → Prop} {E : KeyManagerError → Prop}
    (hsealed : ∀ manager, P manager → manager.Sealed keyId) (hinactive : E .keyNotActive)
    (hnone : ∀ manager, P manager → manager.keys.lookup keyId = none → E .keyNotFound)
    (message : List UInt8) (hardwareSignature : Except KeyManagerError (List UInt8)) :
    (sign env keyId message hardwareSignature).Meets (Rely env calls i) (Changes env (calls i))
      (fun answer _ => ∃ error, answer = .error error ∧ E error) (Exhausted env) P := by
  have herror : ∀ manager, P manager → ∃ error,
      signLocked env keyId message hardwareSignature manager = (manager, some (.error error)) ∧
      E error := by
    intro manager hP
    rcases signLocked_cases env keyId message hardwareSignature manager with
      ⟨error, heq, -, hkind⟩ | ⟨-, -, hno⟩ | ⟨entry, usageCount, hlookup, hactive, -⟩
    · refine ⟨error, heq, ?_⟩
      rcases hkind with ⟨rfl, hlookup⟩ | rfl
      · exact hnone manager hP hlookup
      · exact hinactive
    · exact absurd (hsealed manager hP) hno
    · exact absurd hactive (hsealed manager hP entry hlookup)
  refine meets_perform (fun manager _ => changes_signLocked ..) ?_ (fun _ _ _ h _ => h) ?_
    (stable_rely stable_exhausted)
  · intro manager answer hP hanswer
    obtain ⟨error, heq, herror⟩ := herror manager hP
    rw [heq] at hanswer
    exact ⟨error, (Option.some.inj hanswer).symm, herror⟩
  · intro manager hP hfails
    obtain ⟨error, heq, -⟩ := herror manager hP
    rw [heq] at hfails
    cases hfails

theorem of_mem_sharesOf {shareIds : Nat → H256} {secret : List UInt8} {n k : U32}
    {share : RecoveryShare} (h : share ∈ sharesOf keyId shareIds (splitSecret secret n k)) :
    share.keyId = keyId ∧ share.encryptedShare = secret := by
  obtain ⟨part, hpart, rfl⟩ := List.mem_map.mp h
  refine ⟨rfl, ?_⟩
  exact List.eq_of_mem_replicate (List.fst_mem_of_mem_zipIdx hpart)

/-- Every share is the whole key. -/
theorem createRecoveryShares_meets (numShares threshold : U32) (now : Seconds)
    (shareIds : Nat → H256) :
    (createRecoveryShares env keyId numShares threshold now shareIds).Meets (Rely env calls i)
      (Changes env (calls i))
      (fun answer manager => ∀ shares, answer = .ok shares → ∀ share ∈ shares,
        share.keyId = keyId ∧ manager.Found (Whole share) keyId)
      (Exhausted env) fun _ => True := by
  unfold createRecoveryShares
  by_cases hthreshold : numShares < threshold
  · rw [if_pos hthreshold]
    exact fun _ _ _ h => by cases h
  · rw [if_neg hthreshold]
    -- the entry that was read stays under its id, whatever the other calls do to it
    have hget : (Sections.get fun manager : KeyManager => manager.keys.lookup keyId).Meets
        (Rely env calls i) (Changes env (calls i))
        (fun answer manager => ∀ entry, answer = some entry →
          manager.Found (fun entry' => entry.Later env entry') keyId)
        (Exhausted env) fun _ => True := by
      refine meets_get (fun manager => .refl manager) ?_ ?_
      · intro manager _ entry hlookup
        exact ⟨entry, hlookup, .refl env entry⟩
      · intro answer manager manager' h hrely entry hentry
        refine stable_rely (stable_found ?_ keyId) _ _ (h entry hentry) hrely
        exact fun _ _ hlater hlater' => hlater.trans hlater'
    refine Meets.bind hget fun found => ?_
    cases found with
    | none => exact fun _ _ _ h => by cases h
    | some entry =>
      -- the secret of a software key never changes, so the shares are still of it
      have hwhole : ∀ manager : KeyManager,
          manager.Found (fun entry' => entry.Later env entry') keyId → ∀ share ∈ sharesOf keyId
            shareIds (splitSecret (if entry.metadata.hardwareBacked then
              createRecoverySeed env keyId now else entry.encryptedKey) numShares threshold),
          share.keyId = keyId ∧ manager.Found (Whole share) keyId := by
        rintro manager ⟨entry', hlookup, hlater⟩ share hshare
        obtain ⟨hkey, hsecret⟩ := of_mem_sharesOf hshare
        refine ⟨hkey, entry', hlookup, fun hsoftware => ?_⟩
        rw [hsecret, hlater.encryptedKey, ← hlater.hardwareBacked, hsoftware,
          if_neg Bool.false_ne_true]
      refine meets_perform ?_ ?_ ?_ ?_ (stable_rely stable_exhausted)
      · intro manager hfound
        refine changes_shares fun share hshare => ?_
        obtain ⟨hkey, hentry⟩ := hwhole manager (hfound entry rfl) share hshare
        rw [hkey]
        exact hentry
      · rintro manager answer hfound hanswer shares rfl
        cases hanswer
        exact hwhole manager (hfound entry rfl)
      · intro answer manager manager' h hrely shares hanswer share hshare
        obtain ⟨hkey, hfound⟩ := h shares hanswer share hshare
        exact ⟨hkey, stable_rely (stable_whole share keyId) _ _ hfound hrely⟩
      · intro manager _ hnone
        cases hnone

/-- The recovered key is what the first share says, and it is not active. -/
theorem recoverKey_meets {shares : List RecoveryShare} {newKeyId : H256}
    (hdraws : (calls i).Draws newKeyId) (createdAt now : Seconds) :
    (recoverKey shares newKeyId createdAt now).Meets (Rely env calls i) (Changes env (calls i))
      (fun answer manager => ∀ keyId, answer = .ok keyId → keyId = newKeyId ∧
        ∃ first ∈ shares, manager.Found (fun entry => entry.metadata.status ≠ .active ∧
          entry.encryptedKey = first.encryptedShare) keyId)
      (Exhausted env) (Absent fun id => id = newKeyId) := by
  cases shares with
  | nil => exact fun _ _ _ h => by cases h
  | cons first rest =>
    by_cases hsame : ∀ share ∈ first :: rest, share.keyId = first.keyId
    · have hbody : recoverKey (first :: rest) newKeyId createdAt now =
          .perform fun manager => (manager.setEntry newKeyId
            (recoveredEntry first.encryptedShare newKeyId createdAt now),
              some (.ok newKeyId)) := if_pos hsame
      rw [hbody]
      refine meets_perform ?_ ?_ ?_ ?_ (stable_rely stable_exhausted)
      · intro manager habsent
        exact changes_insert (habsent newKeyId rfl) hdraws (fun h => by cases h) fun h => by cases h
      · rintro manager answer - hanswer keyId rfl
        cases hanswer
        exact ⟨rfl, first, List.mem_cons_self, _, AList.lookup_insert _, (fun h => by cases h), rfl⟩
      · intro answer manager manager' h hrely keyId hanswer
        obtain ⟨hkey, share, hshare, hfound⟩ := h keyId hanswer
        refine ⟨hkey, share, hshare, stable_rely (stable_found ?_ keyId) _ _ hfound hrely⟩
        rintro entry entry' ⟨hinactive, hsecret⟩ hlater
        exact ⟨(hlater.inactive hinactive).1, hlater.encryptedKey.trans hsecret⟩
      · intro manager _ hnone
        cases hnone
    · have hbody : recoverKey (first :: rest) newKeyId createdAt now
          = .done (.error .invalidShares) := if_neg hsame
      rw [hbody]
      exact fun _ _ _ h => by cases h

/-- Every call keeps to the rules. -/
theorem sections_meets (hcrypto : Cryptography env verifies) (hfresh : Fresh calls) (i : ι) :
    (sections env (calls i)).Meets (Rely env calls i) (Changes env (calls i))
      (Answered verifies (calls i)) (Exhausted env)
      fun manager => manager.Absent (calls i).Draws ∧ manager.Sound env := by
  -- calls that need nothing of the manager carry the trivial condition along
  have htrue : Stable (SomeChange env) fun _ : KeyManager => True := fun _ _ _ _ => trivial
  have hnone : ∀ id, False → (calls i).Draws id := fun _ h => h.elim
  cases hcall : calls i with
  | generateKey keyType useHardware draw =>
    have hdraws : (calls i).Draws draw.keyId := by rw [hcall]; rfl
    have hgenerates : (calls i).Generates draw.keyId := by rw [hcall]; rfl
    have hmeets := @generateKey_meets _ env calls i (fun _ => False) _ hfresh htrue hnone draw
      not_false hdraws hgenerates keyType useHardware
    rw [hcall] at hmeets
    refine (hmeets.of_imp ?_).map fun _ _ _ => trivial
    rintro manager ⟨habsent, -⟩
    exact ⟨fun id hid => habsent id (hid.resolve_right not_false), trivial⟩
  | rotateKey oldKeyId rotatedAt draw =>
    have hdraws : (calls i).Draws draw.keyId := by rw [hcall]; rfl
    have hgenerates : (calls i).Generates draw.keyId := by rw [hcall]; rfl
    have hmeets := @rotateKey_meets _ env calls i (fun _ => False) _ hfresh htrue hnone draw
      not_false hdraws hgenerates oldKeyId rotatedAt
    rw [hcall] at hmeets
    refine (hmeets.of_imp ?_).map fun answer manager h => ?_
    · rintro manager ⟨habsent, -⟩
      exact ⟨fun id hid => habsent id (hid.resolve_right not_false), trivial⟩
    · cases answer with
      | error error => trivial
      | ok newKeyId => exact h.2 newKeyId rfl
  | batchRotate keyType order clock rotatedAt draws =>
    have hdraws : ∀ n, (calls i).Draws (draws n).keyId := by
      intro n
      rw [hcall]
      exact ⟨n, rfl⟩
    have hgenerates : ∀ n, (calls i).Generates (draws n).keyId := by
      intro n
      rw [hcall]
      exact ⟨n, rfl⟩
    -- the draws of one call differ from each other, and from those of all other calls
    have honce := hfresh.once i keyType order clock rotatedAt draws hcall
    have habsent : Stable (Rely env calls i) (Absent (calls i).Draws) :=
      stable_absent hfresh fun _ h => h
    -- between the reading of the keys and the rotations other calls may go on
    have hget : (Sections.get (keysToRotate keyType order clock)).Meets (Rely env calls i)
        (Changes env (calls i)) (fun _ => Absent (calls i).Draws) (Exhausted env)
        fun manager => manager.Absent (calls i).Draws ∧ manager.Sound env :=
      meets_get (fun manager => .refl manager) (fun _ h => h.1) fun _ => habsent
    have hmeets := hget.bind fun keys => (@rotateAll_meets _ env calls i hfresh rotatedAt draws
      honce hdraws hgenerates keys 0 []).of_imp fun manager h => by
        rintro id ⟨n, -, rfl⟩
        exact h _ (hdraws n)
    rw [hcall] at hmeets
    exact hmeets.map fun _ _ _ => trivial
  | sign keyId message hardwareSignature =>
    have hmeets := @sign_meets _ env calls i keyId _ hcrypto message hardwareSignature
    rw [hcall] at hmeets
    refine (hmeets.of_imp fun manager h => h.2).map fun answer manager h => ?_
    cases answer with
    | error error => trivial
    | ok signature => exact h signature rfl
  | createRecoveryShares keyId numShares threshold now shareIds =>
    have hmeets := @createRecoveryShares_meets _ env calls i keyId numShares threshold now shareIds
    rw [hcall] at hmeets
    refine (hmeets.of_imp fun _ _ => trivial).map fun answer manager h => ?_
    cases answer with
    | error error => trivial
    | ok shares => exact h shares rfl
  | recoverKey shares newKeyId createdAt now =>
    have hdraws : (calls i).Draws newKeyId := by rw [hcall]; rfl
    have hmeets := @recoverKey_meets _ env calls i shares newKeyId hdraws createdAt now
    rw [hcall] at hmeets
    refine (hmeets.of_imp ?_).map fun answer manager h => ?_
    · rintro manager ⟨habsent, -⟩
      exact habsent
    · cases answer with
      | error error => trivial
      | ok keyId => exact h keyId rfl

end Signing

end KeyManager

end InterBit.Security
