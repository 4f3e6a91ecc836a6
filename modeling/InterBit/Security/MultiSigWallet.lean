import InterBit.Core.Keccak
import InterBit.Lib.Assoc
import InterBit.Lib.Trace

/-!
# The multi-signature wallet

A submitted transaction waits for the signatures of enough of the listed signers, and the one that
completes them executes it. Each transaction is given a time at which it expires, which nothing
reads. `executes_properly_iff`: along a run each transaction is executed at most once, with enough
signatures and in time, exactly if no signature that completes a transaction comes too late.
-/

namespace InterBit.Security

open Lib

abbrev U32 := BitVec 32

/-- The errors of a wallet. -/
inductive KeyError where
  | invalidThreshold
  | unauthorizedSigner
  | transactionNotFound
  deriving DecidableEq

structure PendingTransaction where
  txHash : H256
  data : List UInt8
  signatures : AList fun _ : Address => List UInt8
  createdAt : U64
  expiry : U64

structure MultiSigWallet where
  walletId : H256
  signers : List Address
  threshold : U32
  pendingTransactions : AList fun _ : H256 => PendingTransaction

namespace MultiSigWallet

/-- `MultiSigWallet::new`. -/
def new (walletId : H256) (signers : List Address) (threshold : U32) :
    Except KeyError MultiSigWallet :=
  if threshold = 0 ∨ BitVec.ofNat 32 signers.length < threshold then .error .invalidThreshold
  else .ok ⟨walletId, signers, threshold, ∅⟩

/-- `submit_transaction`; the hash is drawn at random, and the clock is read twice. -/
def submitTransaction (wallet : MultiSigWallet) (data : List UInt8) (txHash : H256)
    (createdAt now : Seconds) : PendingTransaction × MultiSigWallet :=
  let pendingTx : PendingTransaction :=
    { txHash, data, signatures := ∅, createdAt := createdAt.val, expiry := now.after 86400 }
  (pendingTx, { wallet with
    pendingTransactions := wallet.pendingTransactions.insert txHash pendingTx })

/-- `execute_transaction`: what it prints. -/
def executeTransaction (tx : PendingTransaction) : List H256 := [tx.txHash]

/-- `sign_transaction`, with what is executed. -/
def signTransaction (wallet : MultiSigWallet) (txHash : H256) (signer : Address)
    (signature : List UInt8) : Except KeyError Bool × List H256 × MultiSigWallet :=
  if signer ∉ wallet.signers then (.error .unauthorizedSigner, [], wallet)
  else
    match wallet.pendingTransactions.lookup txHash with
    | none => (.error .transactionNotFound, [], wallet)
    | some tx =>
      let tx := { tx with signatures := tx.signatures.insert signer signature }
      -- a signer who signs again is not counted again
      if wallet.threshold.toNat ≤ tx.signatures.entries.length then
        (.ok true, executeTransaction tx, { wallet with
          pendingTransactions := wallet.pendingTransactions.erase txHash })
      else
        (.ok false, [], { wallet with
          pendingTransactions := wallet.pendingTransactions.insert txHash tx })

end MultiSigWallet

/-! ## Runs -/

/-- A call, with the time it is made at. -/
inductive WalletCall where
  | submit (data : List UInt8) (txHash : H256) (createdAt now : Seconds)
  | sign (txHash : H256) (signer : Address) (signature : List UInt8) (now : Seconds)

/-- The wallet, what has been submitted, which signatures have been accepted, what has been
executed, and the time of the last call. -/
structure WalletSession where
  wallet : MultiSigWallet
  submitted : List PendingTransaction
  signed : List (H256 × Address)
  executed : List H256
  clock : U64

/-- Distinct listed signers have signed a transaction. -/
def ApprovedBy (signers : List Address) (signed : List (H256 × Address)) (txHash : H256)
    (count : Nat) : Prop :=
  ∃ approvers : List Address, approvers.Nodup ∧ count ≤ approvers.length ∧
    ∀ approver ∈ approvers, approver ∈ signers ∧ (txHash, approver) ∈ signed

namespace WalletSession

/-- A wallet that is not used yet. -/
def start (wallet : MultiSigWallet) : WalletSession := ⟨wallet, [], [], [], 0⟩

/-- The signature is recorded if it is accepted. -/
def record (session : WalletSession) (txHash : H256) (signer : Address) :
    Except KeyError Bool → List (H256 × Address)
  | .ok _ => session.signed ++ [(txHash, signer)]
  | .error _ => session.signed

/-- What a call executes. -/
def executes (session : WalletSession) : WalletCall → List H256
  | .submit .. => []
  | .sign txHash signer signature _ =>
    (session.wallet.signTransaction txHash signer signature).2.1

/-- The session after a call. -/
def next (session : WalletSession) (call : WalletCall) : WalletSession :=
  match call with
  | .submit data txHash createdAt now =>
    let (tx, wallet) := session.wallet.submitTransaction data txHash createdAt now
    { session with wallet, submitted := session.submitted ++ [tx], clock := now.val }
  | .sign txHash signer signature now =>
    let (result, executed, wallet) := session.wallet.signTransaction txHash signer signature
    { session with
      wallet
      signed := session.record txHash signer result
      executed := session.executed ++ executed
      clock := now.val }

/-- The time of a call. -/
def timeOf : WalletCall → Seconds
  | .submit _ _ _ now => now
  | .sign _ _ _ now => now

/-- The clock does not go back. -/
def Timely (session : WalletSession) : WalletCall → Prop
  | .submit _ _ createdAt now => session.clock ≤ createdAt.val ∧ createdAt.val ≤ now.val
  | .sign _ _ _ now => session.clock ≤ now.val

/-- A hash that is drawn has not been drawn before. -/
def Fresh (session : WalletSession) : WalletCall → Prop
  | .submit _ txHash _ _ => ∀ tx ∈ session.submitted, tx.txHash ≠ txHash
  | .sign .. => True

/-- What a call executes has been submitted and not been executed, enough signers have signed it,
and it has not expired. -/
def Proper (session : WalletSession) (call : WalletCall) : Prop :=
  ∀ txHash ∈ session.executes call,
    txHash ∉ session.executed ∧
    ApprovedBy session.wallet.signers (session.next call).signed txHash
      session.wallet.threshold.toNat ∧
    ∃ tx ∈ session.submitted, tx.txHash = txHash ∧ (timeOf call).val ≤ tx.expiry

/-- A signature that completes a transaction is not later than its expiry. -/
def InTime (session : WalletSession) : WalletCall → Prop
  | .submit .. => True
  | .sign txHash signer signature now =>
    ∀ tx, session.wallet.pendingTransactions.lookup txHash = some tx →
      signer ∈ session.wallet.signers →
      session.wallet.threshold.toNat ≤ (tx.signatures.insert signer signature).entries.length →
      now.val ≤ tx.expiry

/-- What is known of a pending transaction. -/
structure Awaiting (session : WalletSession) (txHash : H256) (tx : PendingTransaction) : Prop where
  hash : tx.txHash = txHash
  origin : ∃ origin ∈ session.submitted, origin.txHash = txHash ∧ origin.expiry = tx.expiry
  fresh : txHash ∉ session.executed
  signed : ∀ signer ∈ tx.signatures, signer ∈ session.wallet.signers ∧
    (txHash, signer) ∈ session.signed

/-- What a run keeps. -/
structure Tracked (session : WalletSession) : Prop where
  pending : ∀ txHash tx, session.wallet.pendingTransactions.lookup txHash = some tx →
    session.Awaiting txHash tx
  executed : ∀ txHash ∈ session.executed, ∃ tx ∈ session.submitted, tx.txHash = txHash
  distinct : (session.submitted.map PendingTransaction.txHash).Nodup

variable {session : WalletSession}

variable {tx : PendingTransaction} {txHash : H256}

/-- What is known of a pending transaction stays known. -/
theorem Awaiting.mono {after : WalletSession} (h : session.Awaiting txHash tx)
    (hsubmitted : session.submitted ⊆ after.submitted) (hexecuted : txHash ∉ after.executed)
    (hsigners : after.wallet.signers = session.wallet.signers)
    (hsigned : session.signed ⊆ after.signed) : after.Awaiting txHash tx where
  hash := h.hash
  origin := by
    obtain ⟨origin, hmem, hsame⟩ := h.origin
    exact ⟨origin, hsubmitted hmem, hsame⟩
  fresh := hexecuted
  signed signer hmem := by
    obtain ⟨hlisted, hknown⟩ := h.signed signer hmem
    exact ⟨hsigners ▸ hlisted, hsigned hknown⟩

/-- Another signature of a listed signer. -/
theorem Awaiting.insert {txHash : H256} {tx : PendingTransaction} {signer : Address}
    (h : session.Awaiting txHash tx) (hlisted : signer ∈ session.wallet.signers)
    (hsigned : (txHash, signer) ∈ session.signed) (signature : List UInt8) :
    session.Awaiting txHash { tx with signatures := tx.signatures.insert signer signature } where
  hash := h.hash
  origin := h.origin
  fresh := h.fresh
  signed signer' hmem := by
    rcases (AList.mem_insert _).mp hmem with rfl | hold
    · exact ⟨hlisted, hsigned⟩
    · exact h.signed signer' hold

/-- The signers of a pending transaction have approved it. -/
theorem Awaiting.approved (h : session.Awaiting txHash tx) {count : Nat}
    (hcount : count ≤ tx.signatures.entries.length) :
    ApprovedBy session.wallet.signers session.signed txHash count :=
  ⟨tx.signatures.keys, tx.signatures.keys_nodup,
    hcount.trans_eq (List.length_map ..).symm, h.signed⟩

/-- A submitted transaction is pending, and nothing else changes. -/
theorem Tracked.submit (h : session.Tracked) {data : List UInt8} {createdAt now : Seconds}
    (hfresh : session.Fresh (.submit data txHash createdAt now)) :
    (session.next (.submit data txHash createdAt now)).Tracked where
  pending txHash' tx hlookup := by
    have hold : session.submitted ⊆ (session.next (.submit data txHash createdAt now)).submitted :=
      List.subset_append_left ..
    rcases lookup_insert_eq_some.mp hlookup with ⟨rfl, rfl⟩ | ⟨_, hpending⟩
    · refine ⟨rfl, ⟨_, List.mem_append_right _ (List.mem_singleton_self _), rfl, rfl⟩, ?_, ?_⟩
      · intro hmem
        obtain ⟨tx, hsubmitted, hsame⟩ := h.executed _ hmem
        exact hfresh tx hsubmitted hsame
      · intro signer hmem
        exact absurd hmem (AList.notMem_empty signer)
    · have hawaiting := h.pending txHash' tx hpending
      exact hawaiting.mono hold hawaiting.fresh rfl (List.Subset.refl _)
  executed txHash' hmem := by
    obtain ⟨tx, hsubmitted, hsame⟩ := h.executed txHash' hmem
    exact ⟨tx, List.mem_append_left _ hsubmitted, hsame⟩
  distinct := by
    refine (List.map_append ..).symm ▸ List.nodup_append.mpr ⟨h.distinct, ?_, ?_⟩
    · exact List.nodup_singleton _
    · intro hash hmem hash' hmem'
      obtain ⟨tx, hsubmitted, rfl⟩ := List.mem_map.mp hmem
      exact List.mem_singleton.mp hmem' ▸ hfresh tx hsubmitted

/-- A signature is refused, or it completes a pending transaction, or it waits with it. -/
theorem next_sign (session : WalletSession) (txHash : H256) (signer : Address)
    (signature : List UInt8) (now : Seconds) :
    ((signer ∉ session.wallet.signers ∨
        session.wallet.pendingTransactions.lookup txHash = none) ∧
      session.executes (.sign txHash signer signature now) = [] ∧
      session.next (.sign txHash signer signature now) = { session with clock := now.val }) ∨
    ∃ tx, session.wallet.pendingTransactions.lookup txHash = some tx ∧
      signer ∈ session.wallet.signers ∧
      ((session.wallet.threshold.toNat ≤ (tx.signatures.insert signer signature).entries.length ∧
        session.executes (.sign txHash signer signature now) = [tx.txHash] ∧
        session.next (.sign txHash signer signature now) = { session with
          wallet := { session.wallet with
            pendingTransactions := session.wallet.pendingTransactions.erase txHash }
          signed := session.signed ++ [(txHash, signer)]
          executed := session.executed ++ [tx.txHash]
          clock := now.val }) ∨
      ((tx.signatures.insert signer signature).entries.length < session.wallet.threshold.toNat ∧
        session.executes (.sign txHash signer signature now) = [] ∧
        session.next (.sign txHash signer signature now) = { session with
          wallet := { session.wallet with
            pendingTransactions := session.wallet.pendingTransactions.insert txHash
              { tx with signatures := tx.signatures.insert signer signature } }
          signed := session.signed ++ [(txHash, signer)]
          clock := now.val })) := by
  unfold executes next MultiSigWallet.signTransaction
  dsimp only
  split
  next hstranger =>
    refine .inl ⟨.inl hstranger, rfl, ?_⟩
    rw [List.append_nil]
    rfl
  next hlisted =>
    split
    next hunknown =>
      refine .inl ⟨.inr hunknown, rfl, ?_⟩
      rw [List.append_nil]
      rfl
    next tx hlookup =>
      refine .inr ⟨tx, hlookup, not_not.mp hlisted, ?_⟩
      split
      next hcomplete => exact .inl ⟨hcomplete, rfl, rfl⟩
      next hwaits =>
        refine .inr ⟨Nat.lt_of_not_le hwaits, rfl, ?_⟩
        rw [List.append_nil]
        rfl

/-- A transaction is executed, and is not pending any more. -/
theorem Tracked.complete (h : session.Tracked)
    (hlookup : session.wallet.pendingTransactions.lookup txHash = some tx) (signer : Address)
    (clock : U64) :
    Tracked { session with
      wallet := { session.wallet with
        pendingTransactions := session.wallet.pendingTransactions.erase txHash }
      signed := session.signed ++ [(txHash, signer)]
      executed := session.executed ++ [tx.txHash]
      clock } := by
  have htx := h.pending txHash tx hlookup
  refine ⟨fun txHash' tx' hlookup' => ?_, fun txHash' hmem => ?_, h.distinct⟩
  · have hne : txHash' ≠ txHash := by
      rintro rfl
      exact absurd ((AList.lookup_erase _ _).symm.trans hlookup') nofun
    have hpending := h.pending txHash' tx' ((AList.lookup_erase_ne hne).symm.trans hlookup')
    refine hpending.mono (List.Subset.refl _) (fun hmem => ?_) rfl (List.subset_append_left ..)
    rcases List.mem_append.mp hmem with hold | hlast
    · exact hpending.fresh hold
    · exact hne ((List.mem_singleton.mp hlast).trans htx.hash)
  · rcases List.mem_append.mp hmem with hold | hlast
    · exact h.executed txHash' hold
    · obtain ⟨origin, hsubmitted, hsame, _⟩ := htx.origin
      exact ⟨origin, hsubmitted, hsame.trans
        (htx.hash.symm.trans (List.mem_singleton.mp hlast).symm)⟩

/-- A signature waits with its transaction. -/
theorem Tracked.wait (h : session.Tracked) {txHash : H256} {tx : PendingTransaction}
    {signer : Address} (hlookup : session.wallet.pendingTransactions.lookup txHash = some tx)
    (hlisted : signer ∈ session.wallet.signers) (signature : List UInt8) (clock : U64) :
    Tracked { session with
      wallet := { session.wallet with
        pendingTransactions := session.wallet.pendingTransactions.insert txHash
          { tx with signatures := tx.signatures.insert signer signature } }
      signed := session.signed ++ [(txHash, signer)]
      clock } := by
  refine ⟨fun txHash' tx' hlookup' => ?_, h.executed, h.distinct⟩
  rcases lookup_insert_eq_some.mp hlookup' with ⟨rfl, rfl⟩ | ⟨_, hold⟩
  · have htx := h.pending txHash' tx hlookup
    refine Awaiting.insert ?_ ?_ ?_ signature
    · exact htx.mono (List.Subset.refl _) htx.fresh rfl (List.subset_append_left ..)
    · exact hlisted
    · exact List.mem_append_right _ (List.mem_singleton_self _)
  · have hpending := h.pending txHash' tx' hold
    exact hpending.mono (List.Subset.refl _) hpending.fresh rfl (List.subset_append_left ..)

/-- A signature leaves the other transactions as they are. -/
theorem Tracked.sign (h : session.Tracked) (txHash : H256) (signer : Address)
    (signature : List UInt8) (now : Seconds) :
    (session.next (.sign txHash signer signature now)).Tracked := by
  obtain ⟨_, _, hnext⟩ | ⟨tx, hlookup, hlisted, ⟨_, _, hnext⟩ | ⟨_, _, hnext⟩⟩ :=
    session.next_sign txHash signer signature now
  · rw [hnext]
    exact ⟨fun txHash' tx hlookup => (h.pending txHash' tx hlookup).mono (List.Subset.refl _)
      (h.pending txHash' tx hlookup).fresh rfl (List.Subset.refl _), h.executed, h.distinct⟩
  · rw [hnext]
    exact h.complete hlookup signer now.val
  · rw [hnext]
    exact h.wait hlookup hlisted signature now.val

theorem Tracked.next (h : session.Tracked) {call : WalletCall} (hfresh : session.Fresh call) :
    (session.next call).Tracked := by
  cases call with
  | submit data txHash createdAt now => exact h.submit hfresh
  | sign txHash signer signature now => exact h.sign txHash signer signature now

/-- With the signature that completes a transaction enough signers have approved it. -/
theorem Awaiting.approved_insert {signer : Address} {signature : List UInt8}
    (h : session.Awaiting txHash tx) (hlisted : signer ∈ session.wallet.signers) {count : Nat}
    (hcount : count ≤ (tx.signatures.insert signer signature).entries.length) :
    ApprovedBy session.wallet.signers (session.signed ++ [(txHash, signer)]) txHash count := by
  have hafter :
      Awaiting { session with signed := session.signed ++ [(txHash, signer)] } txHash tx :=
    h.mono (List.Subset.refl _) h.fresh rfl (List.subset_append_left ..)
  exact (hafter.insert hlisted (List.mem_append_right _ (List.mem_singleton_self _))
    signature).approved hcount

/-- One call executes properly exactly if it is in time. -/
theorem proper_iff_inTime (h : session.Tracked) (call : WalletCall) :
    session.Proper call ↔ session.InTime call := by
  cases call with
  | submit data txHash createdAt now =>
    exact iff_of_true (fun _ hmem => absurd hmem List.not_mem_nil) trivial
  | sign txHash signer signature now =>
    obtain ⟨hrefused, hexecutes, _⟩ |
        ⟨tx, hlookup, hlisted, ⟨hcomplete, hexecutes, hnext⟩ | ⟨hwaits, hexecutes, _⟩⟩ :=
      session.next_sign txHash signer signature now
    · refine iff_of_true (fun _ hmem => absurd (hexecutes ▸ hmem) List.not_mem_nil) ?_
      intro tx hlookup hlisted _
      rcases hrefused with hstranger | hunknown
      · exact absurd hlisted hstranger
      · exact nomatch hunknown.symm.trans hlookup
    · have htx := h.pending txHash tx hlookup
      obtain ⟨origin, hsubmitted, hsame, hexpiry⟩ := htx.origin
      constructor
      · intro hproper tx' hlookup' _ _
        obtain rfl := Option.some.inj (hlookup.symm.trans hlookup')
        obtain ⟨_, _, origin', hsubmitted', hsame', htime⟩ :=
          hproper tx.txHash (hexecutes ▸ List.mem_singleton_self _)
        -- one transaction has been submitted under the hash
        obtain rfl := List.inj_on_of_nodup_map h.distinct hsubmitted hsubmitted'
          (hsame.trans (htx.hash.symm.trans hsame'.symm))
        exact hexpiry ▸ htime
      · intro hin executed hmem
        obtain rfl := List.mem_singleton.mp (hexecutes ▸ hmem)
        rw [htx.hash, hnext]
        refine ⟨htx.fresh, htx.approved_insert hlisted hcomplete, origin, hsubmitted, hsame, ?_⟩
        exact hexpiry ▸ hin tx hlookup hlisted hcomplete
    · refine iff_of_true (fun _ hmem => absurd (hexecutes ▸ hmem) List.not_mem_nil) ?_
      intro tx' hlookup' _ hcomplete
      obtain rfl := Option.some.inj (hlookup.symm.trans hlookup')
      exact absurd hcomplete (Nat.not_le_of_lt hwaits)

theorem tracked_start {walletId : H256} {signers : List Address} {threshold : U32}
    {wallet : MultiSigWallet}
    (hnew : MultiSigWallet.new walletId signers threshold = .ok wallet) :
    (start wallet).Tracked := by
  unfold MultiSigWallet.new at hnew
  split at hnew
  next => cases hnew
  next =>
    obtain rfl := Except.ok.inj hnew
    exact ⟨nofun, nofun, List.nodup_nil⟩

/-- Every transaction is executed at most once, with enough signatures and in time, exactly if no
signature completes a transaction too late. -/
theorem executes_properly_iff (walletId : H256) (signers : List Address) (threshold : U32)
    (wallet : MultiSigWallet) (calls : List WalletCall)
    (hnew : MultiSigWallet.new walletId signers threshold = .ok wallet)
    (hfresh : Always next Fresh (start wallet) calls) :
    Always next Proper (start wallet) calls ↔ Always next InTime (start wallet) calls :=
  always_iff_of hfresh (tracked_start hnew) (fun _ _ h hfresh _ => h.next hfresh)
    fun _ call h _ => proper_iff_inTime h call

/-! ## A transaction that two have to sign -/

def sampleSigner (byte : UInt8) : Address := .replicate 20 byte

def sampleWallet : MultiSigWallet := ⟨.replicate 32 0, [sampleSigner 1, sampleSigner 2], 2, ∅⟩

/-- The transaction is submitted and signed at once, and signed again at another time. -/
def sampleCalls (later : Seconds) : List WalletCall :=
  [.submit [] (.replicate 32 7) (.ofNat 0) (.ofNat 0),
    .sign (.replicate 32 7) (sampleSigner 1) [] (.ofNat 0),
    .sign (.replicate 32 7) (sampleSigner 2) [] later]

theorem executes_properly_iff_day : Always next Proper (start sampleWallet)
      (sampleCalls ⟨86400, by decide⟩) ↔
    Always next InTime (start sampleWallet) (sampleCalls ⟨86400, by decide⟩) :=
  executes_properly_iff (.replicate 32 0) [sampleSigner 1, sampleSigner 2] 2 sampleWallet _ rfl
    ⟨nofun, trivial, trivial, trivial⟩

/-- A second later it has expired, and is executed. -/
theorem expiredTransaction_executed :
    MultiSigWallet.new (.replicate 32 0) [sampleSigner 1, sampleSigner 2] 2 = .ok sampleWallet ∧
      Always next Timely (start sampleWallet) (sampleCalls ⟨86401, by decide⟩) ∧
      Always next Fresh (start sampleWallet) (sampleCalls ⟨86401, by decide⟩) ∧
      ¬ Always next Proper (start sampleWallet) (sampleCalls ⟨86401, by decide⟩) := by
  have hnow : (0 : U64) ≤ 0 := by decide
  have hlater : (0 : U64) ≤ 86401 := by decide
  refine ⟨rfl, ⟨⟨hnow, hnow⟩, hnow, hlater, trivial⟩, ⟨nofun, trivial, trivial, trivial⟩, ?_⟩
  intro hproper
  obtain ⟨_, _, tx, hmem, _, htime⟩ :=
    hproper.2.2.1 (.replicate 32 7) (List.mem_singleton_self _)
  obtain rfl := List.mem_singleton.mp hmem
  exact absurd htime (by decide)

end WalletSession

end InterBit.Security
