import InterBit.Lib.Assoc
import InterBit.Lib.Trace
import InterBit.Mev.Protection

/-!
# Commit and reveal

`dex/mev_protection/commit_reveal.rs`. A sender first submits the hash of a transaction and a
secret nonce, and reveals the two later, in a window of time that is fixed by the commitment.
Revealed transactions wait for a second and are then handed out.

`Session` is a scheme together with what its callers have seen of it. `lifecycle` says of every
session, however the calls and the readings of the clock come: a commitment is revealed at most
once, with a preimage and inside its window; it is not slashed as well; and what is handed out
has been revealed, as often as it is handed out. The window is closed on both sides, and slashing
begins after it, so that the two never meet.
-/

namespace InterBit.Mev

open InterBit.Lib

/-- `struct Commitment`. -/
structure Commitment where
  commitmentHash : H256
  sender : Address
  timestamp : Seconds
  revealDeadline : U64
  revealed : Bool

/-- `struct RevealedTransaction`. -/
structure RevealedTransaction where
  commitmentHash : H256
  tx : ProtectedTransaction
  nonceValue : H256
  revealTimestamp : Seconds

/-- `struct CommitRevealScheme`, with its periods in seconds. -/
structure CommitRevealScheme where
  commitments : AList fun _ : H256 => Commitment
  revealedTxs : AList fun _ : H256 => RevealedTransaction
  pendingReveals : List RevealedTransaction
  revealTimeout : U64
  minCommitPeriod : U64

/-- What `compute_commitment` hashes. -/
def commitmentPreimage (tx : ProtectedTransaction) (nonceValue : H256) : List UInt8 :=
  tx.txHash.toList ++ tx.sender.toList ++ toLeBytes 8 tx.nonce ++ toLeBytes 32 tx.gasPrice
    ++ tx.data ++ nonceValue.toList

/-- `compute_commitment`. -/
def computeCommitment (env : KeccakEnv) (tx : ProtectedTransaction) (nonceValue : H256) : H256 :=
  env.keccak256 (commitmentPreimage tx nonceValue)

/-- The commitment that is stored for a transaction and a nonce. -/
def newCommitment (env : KeccakEnv) (tx : ProtectedTransaction) (nonceValue : H256)
    (timestamp : Seconds) (revealDeadline : U64) : Commitment where
  commitmentHash := computeCommitment env tx nonceValue
  sender := tx.sender
  timestamp
  revealDeadline
  revealed := false

namespace CommitRevealScheme

/-- `CommitRevealScheme::new`. -/
def new (revealTimeout : U64) : CommitRevealScheme where
  commitments := ∅
  revealedTxs := ∅
  pendingReveals := []
  revealTimeout
  minCommitPeriod := 1

/-- `submit_commitment`, with the nonce that it draws and its two readings of the clock. -/
def submitCommitment (env : KeccakEnv) (scheme : CommitRevealScheme) (tx : ProtectedTransaction)
    (nonceValue : H256) (now later : Seconds) : CommitRevealScheme × Outcome H256 :=
  match env.add64 later.val scheme.revealTimeout with
  | none => (scheme, none)
  | some revealDeadline =>
    let commitment := newCommitment env tx nonceValue now revealDeadline
    ({ scheme with
        commitments := scheme.commitments.insert commitment.commitmentHash commitment },
      some (.ok commitment.commitmentHash))

/-- A reveal that has passed all checks. -/
def accept (scheme : CommitRevealScheme) (commitment : Commitment)
    (revealed : RevealedTransaction) : CommitRevealScheme :=
  { scheme with
    commitments :=
      scheme.commitments.insert revealed.commitmentHash { commitment with revealed := true }
    revealedTxs := scheme.revealedTxs.insert revealed.commitmentHash revealed
    pendingReveals := scheme.pendingReveals ++ [revealed] }

/-- `reveal_transaction`. -/
def revealTransaction (env : KeccakEnv) (scheme : CommitRevealScheme) (commitmentHash : H256)
    (tx : ProtectedTransaction) (nonceValue : H256) (currentTime : Seconds) :
    CommitRevealScheme × Except MevProtectionError Unit :=
  match scheme.commitments.lookup commitmentHash with
  | none => (scheme, .error .invalidCommitment)
  | some commitment =>
    if commitment.revealed then (scheme, .error .invalidCommitment)
    else if commitment.revealDeadline < currentTime.val then (scheme, .error .revealTimeout)
    else if currentTime.val < commitment.timestamp.after scheme.minCommitPeriod then
      (scheme, .error .invalidCommitment)
    else if computeCommitment env tx nonceValue ≠ commitmentHash then
      (scheme, .error .invalidCommitment)
    else
      (scheme.accept commitment
          { commitmentHash, tx, nonceValue, revealTimestamp := currentTime }, .ok ())

/-- `batch_reveal`, with a reading of the clock for each. -/
def batchReveal (env : KeccakEnv) (scheme : CommitRevealScheme) :
    List RevealedTransaction → CommitRevealScheme × List H256
  | [] => (scheme, [])
  | r :: reveals =>
    match scheme.revealTransaction env r.commitmentHash r.tx r.nonceValue r.revealTimestamp with
    | (scheme, .ok ()) =>
      let (scheme, successful) := batchReveal env scheme reveals
      (scheme, r.commitmentHash :: successful)
    | (scheme, .error _) => batchReveal env scheme reveals

/-- The revealed transaction has waited for a second. -/
def ready (currentTime : Seconds) (revealed : RevealedTransaction) : Bool :=
  revealed.revealTimestamp.after 1 ≤ currentTime.val

/-- The order of `sort_by_key(|tx| (tx.gas_price, tx.nonce))`. -/
def keyLe (tx tx' : ProtectedTransaction) : Bool :=
  tx.gasPrice < tx'.gasPrice ∨ (tx.gasPrice = tx'.gasPrice ∧ tx.nonce ≤ tx'.nonce)

/-- `get_ready_transactions`. -/
def getReadyTransactions (scheme : CommitRevealScheme) (currentTime : Seconds) :
    CommitRevealScheme × List ProtectedTransaction :=
  let readyTxs := (scheme.pendingReveals.filter (ready currentTime)).map (·.tx)
  ({ scheme with pendingReveals := scheme.pendingReveals.filter fun r => !ready currentTime r },
    (readyTxs.mergeSort keyLe).reverse)

/-- The window of the commitment has closed, and it has not been revealed. -/
def expired (currentTime : Seconds) (commitment : Commitment) : Bool :=
  !commitment.revealed && commitment.revealDeadline < currentTime.val

/-- `slash_expired_commitments`. -/
def slashExpiredCommitments (scheme : CommitRevealScheme) (currentTime : Seconds) :
    CommitRevealScheme × List Address :=
  ({ scheme with
      commitments := retain (fun _ c => !expired currentTime c) scheme.commitments },
    (scheme.commitments.entries.filter fun e => expired currentTime e.2).map fun e => e.2.sender)

/-- All that a reveal can do. -/
theorem revealTransaction_cases (env : KeccakEnv) (scheme : CommitRevealScheme)
    (commitmentHash : H256) (tx : ProtectedTransaction) (nonceValue : H256) (now : Seconds) :
    (∃ error, scheme.revealTransaction env commitmentHash tx nonceValue now
        = (scheme, .error error)) ∨
      ∃ commitment, scheme.commitments.lookup commitmentHash = some commitment ∧
        commitment.revealed = false ∧
        commitment.timestamp.after scheme.minCommitPeriod ≤ now.val ∧
        now.val ≤ commitment.revealDeadline ∧
        computeCommitment env tx nonceValue = commitmentHash ∧
        scheme.revealTransaction env commitmentHash tx nonceValue now
          = (scheme.accept commitment { commitmentHash, tx, nonceValue, revealTimestamp := now },
              .ok ()) := by
  unfold revealTransaction
  cases hlookup : scheme.commitments.lookup commitmentHash with
  | none => exact Or.inl ⟨_, rfl⟩
  | some commitment =>
    dsimp only
    split
    next => exact Or.inl ⟨_, rfl⟩
    next hunrevealed =>
      split
      next => exact Or.inl ⟨_, rfl⟩
      next hopen =>
        split
        next => exact Or.inl ⟨_, rfl⟩
        next hwaited =>
          split
          next => exact Or.inl ⟨_, rfl⟩
          next hhash =>
            refine Or.inr ⟨commitment, rfl, Bool.eq_false_iff.mpr hunrevealed, ?_, ?_, ?_, rfl⟩
            · exact BitVec.not_lt.mp hwaited
            · exact BitVec.not_lt.mp hopen
            · exact not_not.mp hhash

end CommitRevealScheme

/-! ## Sessions -/

/-- What the callers of a scheme do. -/
inductive CommitRevealCall where
  | submit (tx : ProtectedTransaction) (nonceValue : H256) (now later : Seconds)
  | reveal (revealed : RevealedTransaction)
  | batchReveal (reveals : List RevealedTransaction)
  | slash (now : Seconds)
  | getReady (now : Seconds)

/-- A scheme, and what its callers have seen of it. -/
structure Session where
  scheme : CommitRevealScheme
  submitted : List Commitment
  revealed : List RevealedTransaction
  slashed : List H256
  returned : List ProtectedTransaction

namespace Session

open CommitRevealScheme

/-- The session of a new scheme. -/
def new (revealTimeout : U64) : Session := ⟨.new revealTimeout, [], [], [], []⟩

/-- A commitment that is submitted. -/
def submit (env : KeccakEnv) (session : Session) (tx : ProtectedTransaction) (nonceValue : H256)
    (now later : Seconds) : Session :=
  match session.scheme.submitCommitment env tx nonceValue now later with
  | (scheme, some (.ok commitmentHash)) =>
    { session with
      scheme
      submitted := session.submitted ++ (scheme.commitments.lookup commitmentHash).toList }
  | (scheme, _) => { session with scheme }

/-- What a submission does. -/
theorem submit_eq (env : KeccakEnv) (session : Session) (tx : ProtectedTransaction)
    (nonceValue : H256) (now later : Seconds) :
    session.submit env tx nonceValue now later =
      match env.add64 later.val session.scheme.revealTimeout with
      | none => session
      | some revealDeadline =>
        let commitment := newCommitment env tx nonceValue now revealDeadline
        { session with
          scheme := { session.scheme with
            commitments :=
              session.scheme.commitments.insert commitment.commitmentHash commitment }
          submitted := session.submitted ++ [commitment] } := by
  unfold submit submitCommitment
  cases env.add64 later.val session.scheme.revealTimeout with
  | none => rfl
  | some revealDeadline =>
    dsimp only
    rw [AList.lookup_insert, Option.toList_some]

/-- A reveal, which may fail. -/
def reveal (env : KeccakEnv) (session : Session) (r : RevealedTransaction) : Session :=
  match session.scheme.revealTransaction env r.commitmentHash r.tx r.nonceValue
      r.revealTimestamp with
  | (scheme, .ok ()) => { session with scheme, revealed := session.revealed ++ [r] }
  | (scheme, .error _) => { session with scheme }

/-- One call. -/
def next (env : KeccakEnv) (session : Session) : CommitRevealCall → Session
  | .submit tx nonceValue now later => session.submit env tx nonceValue now later
  | .reveal r => session.reveal env r
  | .batchReveal reveals => reveals.foldl (reveal env) session
  | .slash now =>
    { session with
      scheme := (session.scheme.slashExpiredCommitments now).1
      slashed := session.slashed
        ++ (session.scheme.commitments.entries.filter fun e => expired now e.2).map (·.1) }
  | .getReady now =>
    let (scheme, txs) := session.scheme.getReadyTransactions now
    { session with scheme, returned := session.returned ++ txs }

/-- The reveals of a batch are what `batch_reveal` does and reports. -/
theorem foldl_reveal (env : KeccakEnv) (reveals : List RevealedTransaction) : ∀ session : Session,
    (reveals.foldl (reveal env) session).scheme = (session.scheme.batchReveal env reveals).1 ∧
      (reveals.foldl (reveal env) session).revealed.map (·.commitmentHash)
        = session.revealed.map (·.commitmentHash)
          ++ (session.scheme.batchReveal env reveals).2 := by
  induction reveals with
  | nil =>
    intro session
    exact ⟨rfl, (List.append_nil _).symm⟩
  | cons r reveals ih =>
    intro session
    rw [List.foldl_cons, batchReveal]
    obtain ⟨hscheme, hrevealed⟩ := ih (session.reveal env r)
    rw [hscheme, hrevealed]
    unfold reveal
    split
    next =>
      refine ⟨rfl, ?_⟩
      rw [List.map_append, List.append_assoc]
      rfl
    next => exact ⟨rfl, rfl⟩

/-! ## The life of a commitment -/

/-- A reveal is not before the end of the waiting period, nor after the deadline. -/
def InWindow (session : Session) (r : RevealedTransaction) : Prop :=
  ∃ commitment ∈ session.submitted, commitment.commitmentHash = r.commitmentHash ∧
    commitment.timestamp.val.toNat + session.scheme.minCommitPeriod.toNat
      ≤ r.revealTimestamp.val.toNat ∧
    r.revealTimestamp.val.toNat ≤ commitment.revealDeadline.toNat

/-- What the property asks of a session. -/
structure Lifecycle (env : KeccakEnv) (session : Session) : Prop where
  once : (session.revealed.map (·.commitmentHash)).Nodup
  opened : ∀ r ∈ session.revealed, computeCommitment env r.tx r.nonceValue = r.commitmentHash
  window : ∀ r ∈ session.revealed, session.InWindow r
  unslashed : ∀ r ∈ session.revealed, r.commitmentHash ∉ session.slashed
  returned : ∀ tx, session.returned.count tx ≤ (session.revealed.map (·.tx)).count tx

/-- A commitment that is submitted has a hash of its own. -/
def Fresh (env : KeccakEnv) (session : Session) : CommitRevealCall → Prop
  | .submit tx nonceValue _ _ =>
    computeCommitment env tx nonceValue ∉ session.submitted.map (·.commitmentHash)
  | _ => True

/-- What every call with fresh hashes preserves. -/
structure Inv (env : KeccakEnv) (session : Session) : Prop where
  once : (session.revealed.map (·.commitmentHash)).Nodup
  opened : ∀ r ∈ session.revealed, computeCommitment env r.tx r.nonceValue = r.commitmentHash
  window : ∀ r ∈ session.revealed, session.InWindow r
  unslashed : ∀ r ∈ session.revealed, r.commitmentHash ∉ session.slashed
  period : session.scheme.minCommitPeriod = 1
  stored : ∀ commitmentHash commitment,
    session.scheme.commitments.lookup commitmentHash = some commitment →
    ∃ submitted ∈ session.submitted, submitted.commitmentHash = commitmentHash ∧
      submitted.timestamp = commitment.timestamp ∧
      submitted.revealDeadline = commitment.revealDeadline
  marked : ∀ r ∈ session.revealed, ∀ commitment,
    session.scheme.commitments.lookup r.commitmentHash = some commitment →
    commitment.revealed = true
  gone : ∀ commitmentHash ∈ session.slashed,
    session.scheme.commitments.lookup commitmentHash = none ∧
      commitmentHash ∈ session.submitted.map (·.commitmentHash)
  handed : (session.returned ++ session.scheme.pendingReveals.map (·.tx)).Perm
    (session.revealed.map (·.tx))

/-- A new scheme has no commitments. -/
theorem inv_new (env : KeccakEnv) (revealTimeout : U64) : Inv env (new revealTimeout) where
  once := List.nodup_nil
  opened := nofun
  window := nofun
  unslashed := nofun
  period := rfl
  stored := by
    intro commitmentHash commitment h
    cases h
  marked := nofun
  gone := nofun
  handed := .refl _

variable {env : KeccakEnv} {session : Session}

theorem Inv.lives (h : Inv env session) :
    Lifecycle env session where
  once := h.once
  opened := h.opened
  window := h.window
  unslashed := h.unslashed
  returned := by
    intro tx
    rw [← h.handed.count_eq, List.count_append]
    exact Nat.le_add_right ..

/-- A reveal that is accepted is the first of its commitment, and in time. -/
theorem Inv.reveal (h : Inv env session) (r : RevealedTransaction) :
    Inv env (session.reveal env r) := by
  unfold Session.reveal
  rcases revealTransaction_cases env session.scheme r.commitmentHash r.tx r.nonceValue
    r.revealTimestamp with ⟨error, heq⟩ | ⟨commitment, hlookup, hunrevealed, hwaited, hopen,
      hhash, heq⟩
  · rw [heq]
    exact h
  · rw [heq]
    obtain ⟨submitted, hmem, hsubmitted, htime, hdeadline⟩ := h.stored _ _ hlookup
    -- an earlier reveal would have marked the commitment
    have hfirst : ∀ r' ∈ session.revealed, r'.commitmentHash ≠ r.commitmentHash := by
      intro r' hr' heq'
      have hmarked := h.marked r' hr' commitment (heq' ▸ hlookup)
      rw [hunrevealed] at hmarked
      cases hmarked
    -- and a slashed one is no longer stored
    have hkept : r.commitmentHash ∉ session.slashed := by
      intro hslashed
      rw [(h.gone _ hslashed).1] at hlookup
      cases hlookup
    refine ⟨?_, ?_, ?_, ?_, h.period, ?_, ?_, ?_, ?_⟩
    · show ((session.revealed ++ [r]).map _).Nodup
      rw [List.map_append, List.map_singleton, ← List.concat_eq_append]
      refine h.once.concat fun hmem' => ?_
      obtain ⟨r', hr', hsame⟩ := List.mem_map.mp hmem'
      exact hfirst r' hr' hsame
    · exact List.forall_mem_append.mpr ⟨h.opened, List.forall_mem_singleton.mpr hhash⟩
    · refine List.forall_mem_append.mpr ⟨h.window, List.forall_mem_singleton.mpr ?_⟩
      refine ⟨submitted, hmem, hsubmitted, ?_, ?_⟩
      · show _ + session.scheme.minCommitPeriod.toNat ≤ _
        -- the code adds in 64 bits, where the period cannot overflow
        rw [htime, ← Seconds.toNat_after _ (by rw [h.period]; decide)]
        exact BitVec.le_def.mp hwaited
      · rw [hdeadline]
        exact BitVec.le_def.mp hopen
    · exact List.forall_mem_append.mpr ⟨h.unslashed, List.forall_mem_singleton.mpr hkept⟩
    · intro commitmentHash commitment' hlookup'
      rcases lookup_insert_eq_some.mp hlookup' with ⟨rfl, rfl⟩ | ⟨_, hold⟩
      · exact ⟨submitted, hmem, hsubmitted, htime, hdeadline⟩
      · exact h.stored _ _ hold
    · intro r' hr' commitment' hlookup'
      rcases lookup_insert_eq_some.mp hlookup' with ⟨_, rfl⟩ | ⟨hne, hold⟩
      · rfl
      · rcases List.mem_append.mp hr' with hr' | hr'
        · exact h.marked r' hr' _ hold
        · rw [List.mem_singleton.mp hr'] at hne
          exact absurd rfl hne
    · intro commitmentHash hslashed
      obtain ⟨hnone, hmem'⟩ := h.gone _ hslashed
      have hne : commitmentHash ≠ r.commitmentHash := fun heq' => hkept (heq' ▸ hslashed)
      exact ⟨(AList.lookup_insert_ne hne).trans hnone, hmem'⟩
    · show (session.returned ++ (session.scheme.pendingReveals ++ [r]).map (·.tx)).Perm
        ((session.revealed ++ [r]).map (·.tx))
      rw [List.map_append, List.map_append, ← List.append_assoc]
      exact h.handed.append_right _

/-- A fresh commitment begins its life. -/
theorem Inv.submit (h : Inv env session) (tx : ProtectedTransaction) (nonceValue : H256)
    (now later : Seconds)
    (hfresh : computeCommitment env tx nonceValue ∉ session.submitted.map (·.commitmentHash)) :
    Inv env (session.submit env tx nonceValue now later) := by
  rw [submit_eq]
  cases env.add64 later.val session.scheme.revealTimeout with
  | none => exact h
  | some revealDeadline =>
    have hunrevealed : ∀ r ∈ session.revealed,
        r.commitmentHash ≠ computeCommitment env tx nonceValue := by
      intro r hr heq
      obtain ⟨c, hc, hsame, _⟩ := h.window r hr
      exact hfresh (heq ▸ hsame ▸ List.mem_map_of_mem hc)
    refine ⟨h.once, h.opened, ?_, h.unslashed, h.period, ?_, ?_, ?_, h.handed⟩
    · intro r hr
      obtain ⟨c, hc, hwindow⟩ := h.window r hr
      exact ⟨c, List.mem_append_left _ hc, hwindow⟩
    · intro commitmentHash commitment hlookup
      rcases lookup_insert_eq_some.mp hlookup with ⟨rfl, rfl⟩ | ⟨_, hold⟩
      · exact ⟨_, List.mem_append_right _ (List.mem_singleton_self _), rfl, rfl, rfl⟩
      · obtain ⟨c, hc, hstored⟩ := h.stored _ _ hold
        exact ⟨c, List.mem_append_left _ hc, hstored⟩
    · intro r hr commitment hlookup
      exact h.marked r hr _ ((AList.lookup_insert_ne (hunrevealed r hr)).symm.trans hlookup)
    · intro commitmentHash hslashed
      obtain ⟨hnone, hmem⟩ := h.gone _ hslashed
      have hne : commitmentHash ≠ computeCommitment env tx nonceValue :=
        fun heq => hfresh (heq ▸ hmem)
      refine ⟨(AList.lookup_insert_ne hne).trans hnone, ?_⟩
      rw [List.map_append]
      exact List.mem_append_left _ hmem

/-- Slashing takes out commitments that have not been revealed, and now cannot be any more. -/
theorem Inv.slash (h : Inv env session) (now : Seconds) :
    Inv env (session.next env (.slash now)) := by
  -- what is left was there before
  have hkept : ∀ {commitmentHash commitment},
      (retain (fun _ c => !expired now c) session.scheme.commitments).lookup commitmentHash
        = some commitment →
      session.scheme.commitments.lookup commitmentHash = some commitment := by
    intro commitmentHash commitment hlookup
    rw [lookup_retain, Option.filter_eq_some_iff] at hlookup
    exact hlookup.1
  have hslashed : ∀ commitmentHash ∈
      (session.scheme.commitments.entries.filter fun e => expired now e.2).map (·.1),
      ∃ commitment, session.scheme.commitments.lookup commitmentHash = some commitment ∧
        expired now commitment = true := by
    intro commitmentHash hmem
    obtain ⟨e, he, rfl⟩ := List.mem_map.mp hmem
    obtain ⟨he, hexpired⟩ := List.mem_filter.mp he
    exact ⟨e.2, AList.mem_lookup_iff.mpr he, hexpired⟩
  refine ⟨h.once, h.opened, h.window, ?_, h.period, ?_, ?_, ?_, h.handed⟩
  · intro r hr hmem
    rcases List.mem_append.mp hmem with hmem | hmem
    · exact h.unslashed r hr hmem
    · obtain ⟨commitment, hlookup, hexpired⟩ := hslashed _ hmem
      -- a revealed commitment does not expire
      rw [expired, h.marked r hr commitment hlookup] at hexpired
      cases hexpired
  · intro commitmentHash commitment hlookup
    exact h.stored _ _ (hkept hlookup)
  · intro r hr commitment hlookup
    exact h.marked r hr _ (hkept hlookup)
  · intro commitmentHash hmem
    rcases List.mem_append.mp hmem with hmem | hmem
    · obtain ⟨hnone, hsubmitted⟩ := h.gone _ hmem
      refine ⟨?_, hsubmitted⟩
      show (retain _ session.scheme.commitments).lookup commitmentHash = none
      rw [lookup_retain, hnone]
      rfl
    · obtain ⟨commitment, hlookup, hexpired⟩ := hslashed _ hmem
      obtain ⟨c, hc, hsame, _⟩ := h.stored _ _ hlookup
      refine ⟨?_, hsame ▸ List.mem_map_of_mem hc⟩
      show (retain _ session.scheme.commitments).lookup commitmentHash = none
      rw [lookup_retain, hlookup, Option.filter_some, hexpired]
      rfl

/-- What is ready leaves, and what is late is slashed. -/
theorem Inv.getReady (h : Inv env session) (now : Seconds) :
    Inv env (session.next env (.getReady now)) := by
  have hhanded : ((session.next env (.getReady now)).returned
      ++ (session.next env (.getReady now)).scheme.pendingReveals.map (·.tx)).Perm
      (session.revealed.map (·.tx)) := by
    refine List.Perm.trans ?_ h.handed
    show (session.returned
      ++ (((session.scheme.pendingReveals.filter (ready now)).map (·.tx)).mergeSort keyLe).reverse
      ++ (session.scheme.pendingReveals.filter fun r => !ready now r).map (·.tx)).Perm _
    rw [List.append_assoc]
    refine List.Perm.append_left _ ?_
    refine ((List.reverse_perm _).trans (List.mergeSort_perm _ _)).append_right _ |>.trans ?_
    rw [← List.map_append]
    exact (List.filter_append_perm (ready now) session.scheme.pendingReveals).map _
  exact ⟨h.once, h.opened, h.window, h.unslashed, h.period, h.stored, h.marked, h.gone, hhanded⟩

/-- Every call keeps the invariant. -/
theorem Inv.next {env : KeccakEnv} {session : Session} {call : CommitRevealCall}
    (h : Inv env session) (hfresh : session.Fresh env call) : Inv env (session.next env call) := by
  cases call with
  | submit tx nonceValue now later => exact h.submit tx nonceValue now later hfresh
  | reveal r => exact h.reveal r
  | batchReveal reveals =>
    show Inv env (reveals.foldl (Session.reveal env) session)
    clear hfresh
    induction reveals generalizing session with
    | nil => exact h
    | cons r reveals ih => exact ih (h.reveal r)
  | slash now => exact h.slash now
  | getReady now => exact h.getReady now

/-! ## Fresh nonces -/

/-- The transactions that are submitted, with their nonces. -/
def submissions (calls : List CommitRevealCall) : List (ProtectedTransaction × H256) :=
  calls.filterMap fun
    | .submit tx nonceValue _ _ => some (tx, nonceValue)
    | _ => none

/-- The preimage ends with the nonce. -/
theorem nonce_of_preimage {tx tx' : ProtectedTransaction} {nonceValue nonceValue' : H256}
    (h : commitmentPreimage tx nonceValue = commitmentPreimage tx' nonceValue') :
    nonceValue = nonceValue' := by
  have hsuffix := List.append_inj_right' h (by simp only [Vector.length_toList])
  exact Vector.toList_inj.mp hsuffix

/-- A reveal submits nothing. -/
theorem revealed_submitted (env : KeccakEnv) (session : Session) (r : RevealedTransaction) :
    (session.reveal env r).submitted = session.submitted := by
  unfold reveal
  split <;> rfl

/-- Several reveals submit nothing. -/
theorem foldl_reveal_submitted (env : KeccakEnv) (reveals : List RevealedTransaction) :
    ∀ session : Session,
      (reveals.foldl (Session.reveal env) session).submitted = session.submitted := by
  induction reveals with
  | nil => exact fun _ => rfl
  | cons r reveals ih =>
    intro session
    exact (ih (session.reveal env r)).trans (revealed_submitted env session r)

theorem submissions_cons (call : CommitRevealCall) (calls : List CommitRevealCall) :
    submissions (call :: calls) = submissions [call] ++ submissions calls := by
  rw [submissions, ← List.singleton_append, List.filterMap_append]
  rfl

/-- Each stored commitment belongs to a submission. -/
theorem submitted_of_next {call : CommitRevealCall} {commitmentHash : H256}
    (h : commitmentHash ∈ (session.next env call).submitted.map (·.commitmentHash)) :
    commitmentHash ∈ session.submitted.map (·.commitmentHash) ∨
      ∃ s ∈ submissions [call], computeCommitment env s.1 s.2 = commitmentHash := by
  cases call with
  | submit tx nonceValue now later =>
    rw [next, submit_eq] at h
    cases hdeadline : env.add64 later.val session.scheme.revealTimeout with
    | none =>
      rw [hdeadline] at h
      exact Or.inl h
    | some revealDeadline =>
      rw [hdeadline, List.map_append, List.mem_append] at h
      rcases h with h | h
      · exact Or.inl h
      · exact Or.inr ⟨(tx, nonceValue), List.mem_singleton_self _, (List.mem_singleton.mp h).symm⟩
  | reveal r => exact Or.inl (revealed_submitted env session r ▸ h)
  | batchReveal reveals => exact Or.inl (foldl_reveal_submitted env reveals session ▸ h)
  | slash now => exact Or.inl h
  | getReady now => exact Or.inl h

theorem submitted_of_run {calls : List CommitRevealCall} {commitmentHash : H256} :
    ∀ {session : Session},
      commitmentHash ∈ (calls.foldl (next env) session).submitted.map (·.commitmentHash) →
      commitmentHash ∈ session.submitted.map (·.commitmentHash) ∨
        ∃ s ∈ submissions calls, computeCommitment env s.1 s.2 = commitmentHash := by
  induction calls with
  | nil => exact Or.inl
  | cons call calls ih =>
    intro session h
    rw [submissions_cons]
    rcases ih h with h | ⟨s, hs, hhash⟩
    · rcases submitted_of_next h with h | ⟨s, hs, hhash⟩
      · exact Or.inl h
      · exact Or.inr ⟨s, List.mem_append_left _ hs, hhash⟩
    · exact Or.inr ⟨s, List.mem_append_right _ hs, hhash⟩

/-- Fresh nonces give fresh hashes, if Keccak does not collide on what is submitted. -/
theorem always_fresh (revealTimeout : U64) {calls : List CommitRevealCall}
    (hnonces : ((submissions calls).map (·.2)).Nodup)
    (hkeccak : ∀ s ∈ submissions calls, ∀ s' ∈ submissions calls,
      computeCommitment env s.1 s.2 = computeCommitment env s'.1 s'.2 →
      commitmentPreimage s.1 s.2 = commitmentPreimage s'.1 s'.2) :
    Always (next env) (Fresh env) (new revealTimeout) calls := by
  refine always_of_forall fun before call rest hcalls => ?_
  cases call with
  | submit tx nonceValue now later =>
    intro hmem
    have hsplit :
        submissions calls = submissions before ++ (tx, nonceValue) :: submissions rest := by
      rw [hcalls, submissions, List.filterMap_append]
      rfl
    rcases submitted_of_run hmem with h | ⟨s, hs, hhash⟩
    · cases h
    · have hsame : s.2 = nonceValue := nonce_of_preimage (hkeccak s
        (hsplit ▸ List.mem_append_left _ hs) (tx, nonceValue)
        (hsplit ▸ List.mem_append_right _ (List.mem_cons_self ..)) hhash)
      rw [hsplit, List.map_append, List.nodup_append] at hnonces
      exact hnonces.2.2 _ (List.mem_map_of_mem hs) _ (List.mem_cons_self ..) hsame
  | reveal _ => trivial
  | batchReveal _ => trivial
  | slash _ => trivial
  | getReady _ => trivial

/-- However the calls come: a commitment is revealed at most once, with its preimage and in its
window, and is not slashed as well; and a transaction is handed out at most as often as it has
been revealed. The clock may even go back. -/
theorem lifecycle (env : KeccakEnv) (revealTimeout : U64) (calls : List CommitRevealCall)
    (hnonces : ((submissions calls).map (·.2)).Nodup)
    (hkeccak : ∀ s ∈ submissions calls, ∀ s' ∈ submissions calls,
      computeCommitment env s.1 s.2 = computeCommitment env s'.1 s'.2 →
      commitmentPreimage s.1 s.2 = commitmentPreimage s'.1 s'.2) :
    Lifecycle env (calls.foldl (next env) (new revealTimeout)) :=
  ((always_fresh revealTimeout hnonces hkeccak).invariant (inv_new env revealTimeout)
    fun _ _ h hfresh => h.next hfresh).lives

/-- A transaction. -/
def sampleTx (byte : UInt8) : ProtectedTransaction where
  txHash := Vector.replicate 32 byte
  sender := Vector.replicate 20 byte
  nonce := 0
  gasPrice := 20
  data := []
  protectionType := .commitReveal
  timestamp := 0

/-- A commitment at second 10 is revealed at second 11, and handed out at second 12. -/
def sampleCalls : List CommitRevealCall :=
  [.submit (sampleTx 1) (Vector.replicate 32 7) (.ofNat 10) (.ofNat 10),
    .reveal ⟨Vector.replicate 32 1, sampleTx 1, Vector.replicate 32 7, .ofNat 11⟩,
    .getReady (.ofNat 12)]

theorem lifecycle_sample :
    (sampleCalls.foldl (next (sampleKeccakEnv true)) (new 10)).returned = [sampleTx 1] ∧
      Lifecycle (sampleKeccakEnv true)
        (sampleCalls.foldl (next (sampleKeccakEnv true)) (new 10)) := by
  refine ⟨by decide +kernel, lifecycle _ 10 sampleCalls (List.nodup_singleton _) ?_⟩
  intro s hs s' hs' _
  rw [List.mem_singleton.mp hs, List.mem_singleton.mp hs']

end Session

end InterBit.Mev
