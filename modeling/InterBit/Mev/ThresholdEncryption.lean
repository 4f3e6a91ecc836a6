import InterBit.Lib.Ballots
import InterBit.Mev.Protection
import InterBit.StateMachine.Executor

/-!
# Threshold encryption

`dex/mev_protection/threshold_encryption.rs`. A transaction is encrypted and waits in a pool;
validators send shares of its key, and from the threshold on each share that arrives makes the
system decrypt the transaction. `decrypt_batch` decrypts the whole pool with shares that the
caller brings along. AES-256-GCM, and the key and the nonce that it is used with, come from
outside. The locks are taken as if they were re-entrant: `attempt_decryption` asks for the lock on
the shares while its caller holds it.

Neither way looks at who has sent the shares, or at what has been decrypted already.
-/

namespace InterBit.Mev

open InterBit.Lib
open InterBit.StateMachine (IterOrder)

/-- What the system takes from outside the repository. -/
structure ThresholdEnv extends KeccakEnv where
  /-- `Aes256Gcm::encrypt` with a key and a nonce; an error is given as its text. -/
  encrypt : List UInt8 → List UInt8 → List UInt8 → Except String (List UInt8)
  /-- `Aes256Gcm::decrypt` with a key and a nonce. -/
  decrypt : List UInt8 → List UInt8 → List UInt8 → Except String (List UInt8)

/-- `struct EncryptedTransaction`. -/
structure EncryptedTransaction where
  txHash : H256
  encryptedData : List UInt8
  keySharesRequired : Nat
  participants : List Address
  timestamp : U64

/-- `struct KeyShare`. -/
structure KeyShare where
  shareId : Nat
  shareData : List UInt8
  validator : Address
  txHash : H256

/-- `struct DecryptionCommitment`. -/
structure DecryptionCommitment where
  txHash : H256
  validator : Address
  commitmentHash : H256
  revealDeadline : U64

/-- `struct ThresholdEncryptionSystem`. -/
structure ThresholdEncryptionSystem where
  threshold : Nat
  encryptedPool : AList fun _ : H256 => EncryptedTransaction
  keyShares : AList fun _ : H256 => List KeyShare
  decryptionCommitments : AList fun _ : H256 => List DecryptionCommitment
  decryptedTxs : List ProtectedTransaction

/-- What `encrypt_transaction` encrypts. -/
def transactionBytes (tx : ProtectedTransaction) : List UInt8 :=
  tx.sender.toList ++ toLeBytes 8 tx.nonce ++ toLeBytes 32 tx.gasPrice ++ tx.data

/-- `threshold_encrypt`, with the key and the nonce that it draws. -/
def thresholdEncrypt (env : ThresholdEnv) (key : Vector UInt8 32) (nonce : Vector UInt8 12)
    (data : List UInt8) : Except MevProtectionError (List UInt8) :=
  match env.encrypt key.toList nonce.toList data with
  | .ok ciphertext => .ok (nonce.toList ++ ciphertext)
  | .error message => .error (.encryptionFailed message)

/-- `select_participants`. -/
def selectParticipants : List Address := [1, 2, 3, 4, 5].map fun byte => Vector.replicate 20 byte

/-- One share of `reconstruct_key`. -/
def xorShare (key share : List UInt8) : List UInt8 :=
  (List.range 32).map fun j => key.getD j 0 ^^^ share.getD j 0

/-- `reconstruct_key`. -/
def reconstructKey (threshold : Nat) (shares : List (List UInt8)) :
    Except MevProtectionError (List UInt8) :=
  if shares.length < threshold then .error .thresholdNotMet
  else .ok ((shares.take threshold).foldl xorShare (List.replicate 32 0))

/-- `threshold_decrypt`. -/
def thresholdDecrypt (env : ThresholdEnv) (encryptedData key : List UInt8) :
    Except MevProtectionError (List UInt8) :=
  if encryptedData.length < 12 then .error (.decryptionFailed "Invalid encrypted data")
  else
    match env.decrypt key (encryptedData.take 12) (encryptedData.drop 12) with
    | .ok data => .ok data
    | .error message => .error (.decryptionFailed message)

/-- `parse_transaction`, at a time. -/
def parseTransaction (data : List UInt8) (txHash : H256) (now : Seconds) :
    Except MevProtectionError ProtectedTransaction :=
  if data.length < 60 then .error (.decryptionFailed "Invalid transaction data")
  else
    .ok
      { txHash
        sender := Vector.ofFn fun i => data.getD i 0
        nonce := BitVec.ofNat 64 (ofLeBytes ((data.drop 20).take 8))
        gasPrice := BitVec.ofNat 256 (ofLeBytes ((data.drop 28).take 32))
        data := data.drop 60
        protectionType := .thresholdEncrypted
        timestamp := now.val }

/-- `decrypt_with_shares`. -/
def decryptWithShares (env : ThresholdEnv) (threshold : Nat) (encryptedTx : EncryptedTransaction)
    (keyShares : List (List UInt8)) (now : Seconds) :
    Except MevProtectionError ProtectedTransaction := do
  let key ← reconstructKey threshold keyShares
  let data ← thresholdDecrypt env encryptedTx.encryptedData key
  parseTransaction data encryptedTx.txHash now

namespace ThresholdEncryptionSystem

/-- `ThresholdEncryptionSystem::new`. -/
def new (threshold : Nat) : ThresholdEncryptionSystem where
  threshold
  encryptedPool := ∅
  keyShares := ∅
  decryptionCommitments := ∅
  decryptedTxs := []

/-- `submit_encrypted`. -/
def submitEncrypted (env : ThresholdEnv) (system : ThresholdEncryptionSystem)
    (tx : ProtectedTransaction) (key : Vector UInt8 32) (nonce : Vector UInt8 12) :
    ThresholdEncryptionSystem × Except MevProtectionError H256 :=
  match thresholdEncrypt env key nonce (transactionBytes tx) with
  | .error error => (system, .error error)
  | .ok encryptedData =>
    let encryptedTx : EncryptedTransaction :=
      { txHash := tx.txHash
        encryptedData
        keySharesRequired := system.threshold
        participants := selectParticipants
        timestamp := tx.timestamp }
    ({ system with encryptedPool := system.encryptedPool.insert tx.txHash encryptedTx },
      .ok tx.txHash)

/-- `verify_key_share`. -/
def verifyKeyShare (_share : KeyShare) : Bool := true

/-- `attempt_decryption`. -/
def attemptDecryption (env : ThresholdEnv) (system : ThresholdEncryptionSystem) (txHash : H256)
    (now : Seconds) : ThresholdEncryptionSystem × Except MevProtectionError Unit :=
  match system.keyShares.lookup txHash, system.encryptedPool.lookup txHash with
  | some keyShares, some encryptedTx =>
    let shareData := keyShares.map (·.shareData)
    if system.threshold ≤ shareData.length then
      match decryptWithShares env system.threshold encryptedTx shareData now with
      | .ok tx => ({ system with decryptedTxs := system.decryptedTxs ++ [tx] }, .ok ())
      | .error error => (system, .error error)
    else (system, .ok ())
  | _, _ => (system, .ok ())

/-- A share is put in store. -/
def store (system : ThresholdEncryptionSystem) (share : KeyShare) : ThresholdEncryptionSystem :=
  { system with keyShares := pushVote system.keyShares share.txHash share }

/-- `submit_key_share`. -/
def submitKeyShare (env : ThresholdEnv) (system : ThresholdEncryptionSystem) (share : KeyShare)
    (now : Seconds) : ThresholdEncryptionSystem × Except MevProtectionError Unit :=
  if verifyKeyShare share then
    let stored := system.store share
    let shareCount := ((stored.keyShares.lookup share.txHash).map (·.length)).getD 0
    if system.threshold ≤ shareCount then stored.attemptDecryption env share.txHash now
    else (stored, .ok ())
  else (system, .error (.decryptionFailed "Invalid key share"))

/-- `decrypt_batch`, with the order in which it goes through the pool, and what it reads from the
clock. -/
def decryptBatch (env : ThresholdEnv) (system : ThresholdEncryptionSystem)
    (keyShares : List (List UInt8)) (order : IterOrder (Sigma fun _ : H256 => EncryptedTransaction))
    (clock : H256 → Seconds) :
    ThresholdEncryptionSystem × Except MevProtectionError (List ProtectedTransaction) :=
  if keyShares.length < system.threshold then (system, .error .thresholdNotMet)
  else
    let decrypted := (order.arrange system.encryptedPool.entries).filterMap fun e =>
      (decryptWithShares env system.threshold e.2 keyShares (clock e.1)).toOption
    ({ system with decryptedTxs := system.decryptedTxs ++ decrypted }, .ok decrypted)

/-- `commit_to_decrypt`. -/
def commitToDecrypt (system : ThresholdEncryptionSystem) (txHash : H256) (validator : Address)
    (commitment : H256) (now : Seconds) : ThresholdEncryptionSystem :=
  let commitment : DecryptionCommitment :=
    { txHash, validator, commitmentHash := commitment, revealDeadline := now.after 30 }
  { system with
    decryptionCommitments := pushVote system.decryptionCommitments txHash commitment }

/-- `verify_commitment`. -/
def verifyCommitment (env : KeccakEnv) (commitment : DecryptionCommitment)
    (shareData : List UInt8) : Bool :=
  env.keccak256 (commitment.txHash.toList ++ commitment.validator.toList ++ shareData)
    = commitment.commitmentHash

/-- The checks of `reveal_decryption`, and the share that it makes. -/
def revealedShare (env : KeccakEnv) (system : ThresholdEncryptionSystem) (txHash : H256)
    (validator : Address) (shareData : List UInt8) (now : Seconds) :
    Except MevProtectionError KeyShare :=
  match (system.decryptionCommitments.lookup txHash).bind
      fun commitments => commitments.find? (·.validator = validator) with
  | none => .error .invalidCommitment
  | some commitment =>
    if commitment.revealDeadline < now.val then .error .revealTimeout
    else if verifyCommitment env commitment shareData then
      .ok { shareId := 0, shareData, validator, txHash }
    else .error .invalidCommitment

/-- `reveal_decryption`. -/
def revealDecryption (env : ThresholdEnv) (system : ThresholdEncryptionSystem) (txHash : H256)
    (validator : Address) (shareData : List UInt8) (now later : Seconds) :
    ThresholdEncryptionSystem × Except MevProtectionError Unit :=
  match system.revealedShare env.toKeccakEnv txHash validator shareData now with
  | .error error => (system, .error error)
  | .ok share => system.submitKeyShare env share later

/-! ## What is decrypted -/

/-- The transaction that the shares in store decrypt, if there are enough of them. -/
def decryptable (env : ThresholdEnv) (system : ThresholdEncryptionSystem) (txHash : H256)
    (now : Seconds) : Option ProtectedTransaction := do
  let encryptedTx ← system.encryptedPool.lookup txHash
  let shareData := (bucket system.keyShares txHash).map (·.shareData)
  if system.threshold ≤ shareData.length then
    (decryptWithShares env system.threshold encryptedTx shareData now).toOption
  else none

theorem attemptDecryption_fst (env : ThresholdEnv) {system : ThresholdEncryptionSystem}
    {txHash : H256} {shares : List KeyShare}
    (hshares : system.keyShares.lookup txHash = some shares) (now : Seconds) :
    (system.attemptDecryption env txHash now).1 =
      { system with
        decryptedTxs := system.decryptedTxs ++ (system.decryptable env txHash now).toList } := by
  unfold attemptDecryption decryptable bucket
  rw [hshares]
  cases system.encryptedPool.lookup txHash with
  | none =>
    show system = { system with decryptedTxs := system.decryptedTxs ++ [] }
    rw [List.append_nil]
  | some encryptedTx =>
    simp only [Option.bind_eq_bind, Option.bind_some, Option.getD_some]
    split
    next =>
      cases decryptWithShares env system.threshold encryptedTx (shares.map (·.shareData)) now with
      | ok tx => rfl
      | error error =>
        show system = { system with decryptedTxs := system.decryptedTxs ++ [] }
        rw [List.append_nil]
    next =>
      show system = { system with decryptedTxs := system.decryptedTxs ++ [] }
      rw [List.append_nil]

/-- A share is stored, and what it decrypts is added to the list. -/
theorem submitKeyShare_fst (env : ThresholdEnv) (system : ThresholdEncryptionSystem)
    (share : KeyShare) (now : Seconds) : (system.submitKeyShare env share now).1 =
      { system.store share with
        decryptedTxs := system.decryptedTxs
          ++ ((system.store share).decryptable env share.txHash now).toList } := by
  have hlookup : (system.store share).keyShares.lookup share.txHash
      = some (bucket system.keyShares share.txHash ++ [share]) := AList.lookup_insert _
  have hattempt := attemptDecryption_fst env hlookup now
  unfold submitKeyShare verifyKeyShare
  rw [if_pos rfl]
  show (if system.threshold
      ≤ (((system.store share).keyShares.lookup share.txHash).map (·.length)).getD 0
    then (system.store share).attemptDecryption env share.txHash now
    else (system.store share, .ok ())).1 = _
  split
  next => exact hattempt
  next hfew =>
    have hnone : (system.store share).decryptable env share.txHash now = none := by
      unfold decryptable
      cases (system.store share).encryptedPool.lookup share.txHash with
      | none => rfl
      | some encryptedTx =>
        rw [hlookup, Option.map_some, Option.getD_some] at hfew
        refine if_neg ?_
        rw [bucket, hlookup, List.length_map]
        exact hfew
    rw [hnone]
    show system.store share = { system.store share with
      decryptedTxs := (system.store share).decryptedTxs ++ [] }
    rw [List.append_nil]

theorem toOption_eq_some {α : Type} {result : Except MevProtectionError α} {a : α} :
    result.toOption = some a ↔ result = .ok a := by
  cases result with
  | error _ => exact ⟨nofun, nofun⟩
  | ok a' => exact ⟨fun h => congrArg _ (Option.some.inj h), fun h => congrArg _ (Except.ok.inj h)⟩

/-- A decrypted transaction has the hash that it was submitted with. -/
theorem txHash_of_decryptWithShares {env : ThresholdEnv} {threshold : Nat}
    {encryptedTx : EncryptedTransaction} {shares : List (List UInt8)} {now : Seconds}
    {tx : ProtectedTransaction}
    (h : decryptWithShares env threshold encryptedTx shares now = .ok tx) :
    tx.txHash = encryptedTx.txHash := by
  unfold decryptWithShares at h
  cases hkey : reconstructKey threshold shares with
  | error _ =>
    rw [hkey] at h
    cases h
  | ok key =>
    cases hdata : thresholdDecrypt env encryptedTx.encryptedData key with
    | error _ =>
      rw [hkey] at h
      simp only [bind, Except.bind, hdata] at h
      cases h
    | ok data =>
      rw [hkey] at h
      simp only [bind, Except.bind, hdata] at h
      unfold parseTransaction at h
      split at h
      next => cases h
      next => exact (Except.ok.inj h) ▸ rfl

end ThresholdEncryptionSystem

end InterBit.Mev
