import InterBit.Lib.Assoc
import InterBit.Lib.Trace
import InterBit.Mev.ThresholdEncryption

/-!
# Each transaction is decrypted once, with enough shares

Shares are counted, not validators, and nothing marks a transaction as decrypted; `decrypt_batch`
does not look at the shares in store at all. `decrypted_once_iff` says that a run decrypts each
transaction at most once, and only with shares from enough validators in store, exactly if each
call that decrypts a transaction comes when it is due.
-/

namespace InterBit.Mev

open InterBit.Lib
open InterBit.StateMachine (IterOrder)

namespace ThresholdEncryptionSystem

/-! ## Runs -/

/-- A call. -/
inductive ThresholdCall where
  | submitEncrypted (tx : ProtectedTransaction) (key : Vector UInt8 32) (nonce : Vector UInt8 12)
  | submitKeyShare (share : KeyShare) (now : Seconds)
  | commitToDecrypt (txHash : H256) (validator : Address) (commitment : H256) (now : Seconds)
  | revealDecryption (txHash : H256) (validator : Address) (shareData : List UInt8)
      (now later : Seconds)
  | decryptBatch (keyShares : List (List UInt8))
      (order : IterOrder (Sigma fun _ : H256 => EncryptedTransaction)) (clock : H256 → Seconds)

/-- One call. -/
def next (env : ThresholdEnv) (system : ThresholdEncryptionSystem) :
    ThresholdCall → ThresholdEncryptionSystem
  | .submitEncrypted tx key nonce => (system.submitEncrypted env tx key nonce).1
  | .submitKeyShare share now => (system.submitKeyShare env share now).1
  | .commitToDecrypt txHash validator commitment now =>
    system.commitToDecrypt txHash validator commitment now
  | .revealDecryption txHash validator shareData now later =>
    (system.revealDecryption env txHash validator shareData now later).1
  | .decryptBatch keyShares order clock => (system.decryptBatch env keyShares order clock).1

/-- The validators from which there are shares for a transaction. -/
def sharers (system : ThresholdEncryptionSystem) (txHash : H256) : Finset Address :=
  ((bucket system.keyShares txHash).map (·.validator)).toFinset

/-- Enough validators have shared for a transaction, and it has not been decrypted. -/
def Due (system : ThresholdEncryptionSystem) (txHash : H256) : Prop :=
  txHash ∉ system.decryptedTxs.map (·.txHash) ∧ system.threshold ≤ (system.sharers txHash).card

/-- A share that decrypts a transaction is the last that it takes, and from another validator than
the shares before it. -/
def ProperShare (env : ThresholdEnv) (system : ThresholdEncryptionSystem) (share : KeyShare)
    (now : Seconds) : Prop :=
  (system.store share).decryptable env share.txHash now ≠ none →
    (system.store share).Due share.txHash

/-- A call that decrypts a transaction comes when it is due. -/
def Proper (env : ThresholdEnv) (system : ThresholdEncryptionSystem) : ThresholdCall → Prop
  | .submitKeyShare share now => system.ProperShare env share now
  | .revealDecryption txHash validator shareData now later =>
    ∀ share, system.revealedShare env.toKeccakEnv txHash validator shareData now = .ok share →
      system.ProperShare env share later
  | .decryptBatch keyShares _ clock => system.threshold ≤ keyShares.length →
    ∀ txHash encryptedTx, system.encryptedPool.lookup txHash = some encryptedTx →
      (∃ tx, decryptWithShares env system.threshold encryptedTx keyShares (clock txHash) = .ok tx) →
      system.Due txHash
  | _ => True

/-- Each transaction has been decrypted at most once, and with shares from enough validators. -/
structure Sound (system : ThresholdEncryptionSystem) : Prop where
  once : (system.decryptedTxs.map (·.txHash)).Nodup
  shared : ∀ tx ∈ system.decryptedTxs, system.threshold ≤ (system.sharers tx.txHash).card

/-- The pool is keyed by the hashes. -/
def Keyed (system : ThresholdEncryptionSystem) : Prop :=
  ∀ txHash encryptedTx, system.encryptedPool.lookup txHash = some encryptedTx →
    encryptedTx.txHash = txHash

/-! ## One call -/

variable {system : ThresholdEncryptionSystem} {env : ThresholdEnv}

/-- The transactions that are decrypted have to be due. -/
theorem Sound.append_iff (h : system.Sound) (txs : List ProtectedTransaction)
    (hnodup : (txs.map (·.txHash)).Nodup) :
    Sound { system with decryptedTxs := system.decryptedTxs ++ txs } ↔
      ∀ tx ∈ txs, system.Due tx.txHash := by
  constructor
  · rintro ⟨honce, hshared⟩ tx htx
    rw [List.map_append, List.nodup_append] at honce
    refine ⟨fun hmem => ?_, hshared tx (List.mem_append_right _ htx)⟩
    exact honce.2.2 _ hmem _ (List.mem_map_of_mem htx) rfl
  · intro hdue
    refine ⟨?_, List.forall_mem_append.mpr ⟨h.shared, fun tx htx => (hdue tx htx).2⟩⟩
    rw [List.map_append, List.nodup_append]
    refine ⟨h.once, hnodup, ?_⟩
    rintro a ha b hb rfl
    obtain ⟨tx, htx, rfl⟩ := List.mem_map.mp hb
    exact (hdue tx htx).1 ha

/-- A share that is stored takes nothing away. -/
theorem sharers_store (system : ThresholdEncryptionSystem) (share : KeyShare) (txHash : H256) :
    system.sharers txHash ⊆ (system.store share).sharers txHash := by
  intro validator hmem
  rw [sharers, List.mem_toFinset] at hmem ⊢
  show validator ∈ (bucket (pushVote system.keyShares share.txHash share) txHash).map _
  by_cases hsame : txHash = share.txHash
  · subst hsame
    rw [bucket_pushVote, List.map_append]
    exact List.mem_append_left _ hmem
  · rw [bucket_pushVote_of_ne _ _ hsame]
    exact hmem

theorem Sound.store (h : system.Sound) (share : KeyShare) : (system.store share).Sound := by
  refine ⟨h.once, fun tx htx => Nat.le_trans (h.shared tx htx) ?_⟩
  exact Finset.card_le_card (sharers_store system share tx.txHash)

theorem txHash_of_decryptable (hkeyed : system.Keyed) {txHash : H256} {now : Seconds}
    {tx : ProtectedTransaction} (h : system.decryptable env txHash now = some tx) :
    tx.txHash = txHash := by
  unfold decryptable at h
  obtain ⟨encryptedTx, hlookup, h⟩ := Option.bind_eq_some_iff.mp h
  dsimp only at h
  split at h
  next => rw [txHash_of_decryptWithShares (toOption_eq_some.mp h), hkeyed _ _ hlookup]
  next => cases h

theorem Sound.submitKeyShare_iff (h : system.Sound) (hkeyed : system.Keyed) (share : KeyShare)
    (now : Seconds) :
    (system.submitKeyShare env share now).1.Sound ↔ system.ProperShare env share now := by
  have hkeyed' : (system.store share).Keyed := hkeyed
  rw [submitKeyShare_fst, ProperShare]
  cases hdecryptable : (system.store share).decryptable env share.txHash now with
  | none =>
    have hnone := (h.store share).append_iff [] List.nodup_nil
    exact iff_of_true (hnone.mpr nofun) fun hne => absurd rfl hne
  | some tx =>
    refine ((h.store share).append_iff [tx] (List.nodup_singleton _)).trans ?_
    rw [List.forall_mem_singleton, txHash_of_decryptable hkeyed' hdecryptable]
    exact ⟨fun hdue _ => hdue, fun hdue => hdue nofun⟩

/-- What `decrypt_batch` adds, for an order of the pool. -/
theorem sublist_filterMap (hkeyed : system.Keyed) (keyShares : List (List UInt8))
    (clock : H256 → Seconds) :
    ∀ {entries : List (Sigma fun _ : H256 => EncryptedTransaction)},
      (∀ e ∈ entries, system.encryptedPool.lookup e.1 = some e.2) →
      ((entries.filterMap fun e => (decryptWithShares env system.threshold e.2 keyShares
        (clock e.1)).toOption).map (·.txHash)).Sublist (entries.map (·.1)) := by
  intro entries
  induction entries with
  | nil => exact fun _ => .slnil
  | cons e entries ih =>
    intro hentries
    obtain ⟨hhead, htail⟩ := List.forall_mem_cons.mp hentries
    rw [List.filterMap_cons]
    split
    next => exact (ih htail).cons _
    next tx hsome =>
      rw [List.map_cons, List.map_cons, txHash_of_decryptWithShares (toOption_eq_some.mp hsome),
        hkeyed _ _ hhead]
      exact (ih htail).cons_cons _

theorem Sound.decryptBatch_iff (h : system.Sound) (hkeyed : system.Keyed)
    (keyShares : List (List UInt8)) (order : IterOrder (Sigma fun _ : H256 => EncryptedTransaction))
    (clock : H256 → Seconds) :
    (system.decryptBatch env keyShares order clock).1.Sound ↔
      system.Proper env (.decryptBatch keyShares order clock) := by
  unfold decryptBatch
  split
  next hfew => exact iff_of_true h fun henough => absurd henough (Nat.not_le_of_lt hfew)
  next henough =>
    have hperm := order.perm system.encryptedPool.entries
    have hentries : ∀ e ∈ order.arrange system.encryptedPool.entries,
        system.encryptedPool.lookup e.1 = some e.2 :=
      fun e he => AList.mem_lookup_iff.mpr (hperm.mem_iff.mp he)
    have hnodup : ((order.arrange system.encryptedPool.entries).map (·.1)).Nodup :=
      (hperm.map _).nodup_iff.mpr system.encryptedPool.nodupKeys
    refine (h.append_iff _
      (hnodup.sublist (sublist_filterMap hkeyed keyShares clock hentries))).trans ?_
    constructor
    · rintro hdue - txHash encryptedTx hlookup ⟨tx, hdecrypt⟩
      have hmem : (⟨txHash, encryptedTx⟩ : Sigma fun _ : H256 => EncryptedTransaction)
          ∈ order.arrange system.encryptedPool.entries :=
        hperm.mem_iff.mpr (AList.mem_lookup_iff.mp hlookup)
      have htx := hdue tx (List.mem_filterMap.mpr ⟨_, hmem, toOption_eq_some.mpr hdecrypt⟩)
      rw [txHash_of_decryptWithShares hdecrypt, hkeyed _ _ hlookup] at htx
      exact htx
    · intro hproper tx htx
      obtain ⟨e, he, hsome⟩ := List.mem_filterMap.mp htx
      have hdecrypt := toOption_eq_some.mp hsome
      have hlookup := hentries e he
      rw [txHash_of_decryptWithShares hdecrypt, hkeyed _ _ hlookup]
      exact hproper (Nat.le_of_not_lt henough) _ _ hlookup ⟨tx, hdecrypt⟩

theorem submitEncrypted_fst (env : ThresholdEnv) (system : ThresholdEncryptionSystem)
    (tx : ProtectedTransaction) (key : Vector UInt8 32) (nonce : Vector UInt8 12) :
    (system.submitEncrypted env tx key nonce).1 = system ∨ ∃ encryptedTx : EncryptedTransaction,
      encryptedTx.txHash = tx.txHash ∧ (system.submitEncrypted env tx key nonce).1
        = { system with encryptedPool := system.encryptedPool.insert tx.txHash encryptedTx } := by
  unfold submitEncrypted
  split
  next => exact Or.inl rfl
  next => exact Or.inr ⟨_, rfl, rfl⟩

theorem Keyed.submitKeyShare (h : system.Keyed) (share : KeyShare) (now : Seconds) :
    (system.submitKeyShare env share now).1.Keyed := by
  rw [submitKeyShare_fst]
  exact h

theorem Keyed.next {env : ThresholdEnv} {system : ThresholdEncryptionSystem}
    (h : system.Keyed) (call : ThresholdCall) : (system.next env call).Keyed := by
  cases call with
  | submitEncrypted tx key nonce =>
    show (system.submitEncrypted env tx key nonce).1.Keyed
    rcases submitEncrypted_fst env system tx key nonce with heq | ⟨encryptedTx, hhash, heq⟩
    · rw [heq]
      exact h
    · rw [heq]
      intro txHash encryptedTx' hlookup
      rcases lookup_insert_eq_some.mp hlookup with ⟨rfl, rfl⟩ | ⟨_, hold⟩
      · exact hhash
      · exact h _ _ hold
  | submitKeyShare share now => exact h.submitKeyShare share now
  | commitToDecrypt _ _ _ _ => exact h
  | revealDecryption txHash validator shareData now later =>
    unfold ThresholdEncryptionSystem.next revealDecryption
    dsimp only
    split
    next => exact h
    next share _ => exact h.submitKeyShare share later
  | decryptBatch keyShares order clock =>
    unfold ThresholdEncryptionSystem.next decryptBatch
    dsimp only
    split
    next => exact h
    next => exact h

theorem Sound.next_iff (h : system.Sound) (hkeyed : system.Keyed) (call : ThresholdCall) :
    (system.next env call).Sound ↔ system.Proper env call := by
  cases call with
  | submitEncrypted tx key nonce =>
    refine iff_of_true ?_ trivial
    show (system.submitEncrypted env tx key nonce).1.Sound
    rcases submitEncrypted_fst env system tx key nonce with heq | ⟨_, _, heq⟩
    · rw [heq]
      exact h
    · rw [heq]
      exact ⟨h.once, h.shared⟩
  | submitKeyShare share now => exact h.submitKeyShare_iff hkeyed share now
  | commitToDecrypt _ _ _ _ => exact iff_of_true ⟨h.once, h.shared⟩ trivial
  | revealDecryption txHash validator shareData now later =>
    show (system.revealDecryption env txHash validator shareData now later).1.Sound ↔
      ∀ share, system.revealedShare env.toKeccakEnv txHash validator shareData now = .ok share →
        system.ProperShare env share later
    unfold revealDecryption
    cases system.revealedShare env.toKeccakEnv txHash validator shareData now with
    | error _ => exact iff_of_true h fun _ heq => nomatch heq
    | ok share =>
      refine (h.submitKeyShare_iff hkeyed share later).trans ?_
      exact ⟨fun hproper _ heq => Except.ok.inj heq ▸ hproper, fun hproper => hproper share rfl⟩
  | decryptBatch keyShares order clock => exact h.decryptBatch_iff hkeyed keyShares order clock

/-! ## Runs -/

/-- A run decrypts each transaction at most once, and with shares from enough validators, exactly
if whatever it decrypts is due. -/
theorem decrypted_once_iff (env : ThresholdEnv) (threshold : Nat) (calls : List ThresholdCall) :
    Always (next env) (fun system call => (system.next env call).Sound) (new threshold) calls ↔
      Always (next env) (Proper env) (new threshold) calls := by
  have hnew : (new threshold).Sound ∧ (new threshold).Keyed := by
    refine ⟨⟨List.nodup_nil, nofun⟩, fun txHash encryptedTx hlookup => ?_⟩
    cases hlookup
  refine always_iff (I := fun system => system.Sound ∧ system.Keyed) hnew ?_ ?_
  · rintro system call ⟨hsound, hkeyed⟩ hproper
    exact ⟨(hsound.next_iff hkeyed call).mpr hproper, hkeyed.next call⟩
  · rintro system call ⟨hsound, hkeyed⟩
    exact hsound.next_iff hkeyed call

/-! ## One validator is enough -/

/-- A cipher that puts the key before the data. -/
def sampleThresholdEnv : ThresholdEnv where
  toKeccakEnv := sampleKeccakEnv true
  encrypt key _ data := .ok (key ++ data)
  decrypt key _ ciphertext :=
    if ciphertext.take 32 = key then .ok (ciphertext.drop 32) else .error "aead::Error"

/-- A transaction that is to be encrypted. -/
def sampleSecret : ProtectedTransaction where
  txHash := Vector.replicate 32 1
  sender := Vector.replicate 20 1
  nonce := 0
  gasPrice := 20
  data := []
  protectionType := .thresholdEncrypted
  timestamp := 0

/-- A share from the same validator each time. -/
def sampleShare (shareData : List UInt8) : ThresholdCall :=
  .submitKeyShare ⟨0, shareData, Vector.replicate 20 1, Vector.replicate 32 1⟩ (.ofNat 0)

/-- The first of four shares is the key, the others are empty. -/
def sampleShares : List ThresholdCall :=
  [.submitEncrypted sampleSecret (Vector.replicate 32 9) (Vector.replicate 12 0),
    sampleShare (List.replicate 32 9), sampleShare [], sampleShare [], sampleShare []]

/-- With a threshold of three, three shares from one validator decrypt a transaction, and the
fourth decrypts it again. -/
theorem decrypted_by_one :
    (¬ Sound ((sampleShares.take 4).foldl (next sampleThresholdEnv) (new 3))) ∧
      ¬ ((sampleShares.foldl (next sampleThresholdEnv) (new 3)).decryptedTxs.map
        (·.txHash)).Nodup := by
  constructor
  · intro hsound
    have hone := hsound.shared sampleSecret (by decide +kernel)
    exact absurd hone (by decide +kernel)
  · decide +kernel

end ThresholdEncryptionSystem

end InterBit.Mev
