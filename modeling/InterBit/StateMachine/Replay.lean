import InterBit.StateMachine.BalanceEffect

/-!
# Replay protection over a sequential run

A run is a list of `execute_single_transaction` calls, one after the other over
the same accounts; `history` records each call with the accounts before and after
it. `ReplayProtected` is what the nonces are for: a transaction of a sender
succeeds at most once per nonce, no nonce ever decreases, and each success adds
one to the sender's.

`replayProtected_iff` says when a run has that. The nonce is checked in
`validate_transaction` and written with the debited account, and that account can
be lost before it is stored (`NonceSafe`).
-/

namespace InterBit.StateMachine

open InterBit.Lib

/-- One call, with the order in which it iterates over its `state_changes`. -/
structure Call where
  order : IterOrder (Sigma fun _ : Address => Account)
  tx : Transaction

/-- A call in a run: the accounts before it, its outcome, the accounts after it. -/
structure CallRecord where
  before : Accounts
  tx : Transaction
  outcome : Outcome StateMachineError TransactionReceipt
  after : Accounts

/-- The call has returned `Ok`. -/
def CallRecord.Succeeded (record : CallRecord) : Prop := ∃ receipt, record.outcome = .ok receipt

/-- The record of a call. -/
def Call.record (env : Env) (accounts : Accounts) (call : Call) : CallRecord :=
  let result := (executeSingleTransaction env call.order call.tx).run accounts
  { before := accounts, tx := call.tx, outcome := result.1, after := result.2 }

/-- The records of a run, first call first. -/
def history (env : Env) : Accounts → List Call → List CallRecord
  | _, [] => []
  | accounts, call :: calls =>
    call.record env accounts :: history env (call.record env accounts).after calls

/-- Each pair of sender and nonce succeeds at most once, no nonce decreases, and
the sender's grows by one at each success. -/
structure ReplayProtected (records : List CallRecord) : Prop where
  once : records.Pairwise fun first second => first.Succeeded → second.Succeeded →
    (first.tx.sender, first.tx.nonce) ≠ (second.tx.sender, second.tx.nonce)
  monotone : ∀ record ∈ records, ∀ address,
    nonceOf record.before address ≤ nonceOf record.after address
  grows : ∀ record ∈ records, record.Succeeded →
    nonceOf record.after record.tx.sender = nonceOf record.before record.tx.sender + 1

/-- The new nonce is stored and no nonce is reset: the target is not the sender, a
contract is created where no nonce has been used, and the nonce does not wrap. -/
def NonceSafe (env : Env) (accounts : Accounts) (tx : Transaction) : Prop :=
  tx.target env ≠ tx.sender ∧ (tx.recipient = none → nonceOf accounts (tx.target env) = 0) ∧
    (env.overflowChecks = true ∨ tx.nonce.toNat + 1 < 2 ^ 64)

/-! ## One call -/

namespace Call

variable {env : Env} {accounts : Accounts} {call : Call}

/-- A call that succeeds has a settlement. -/
theorem settlement_of_succeeded (h : (call.record env accounts).Succeeded) :
    ∃ s : Settlement env accounts call.tx, (call.record env accounts).after = s.final := by
  obtain ⟨receipt, hr⟩ := h
  obtain ⟨s, hs, -⟩ := executeSingleTransaction_ok (Prod.ext hr rfl)
  exact ⟨s, hs⟩

/-- A call that does not leaves the accounts as they are. -/
theorem after_of_not_succeeded (h : ¬ (call.record env accounts).Succeeded) :
    (call.record env accounts).after = accounts :=
  executeSingleTransaction_not_ok fun receipt hr => h ⟨receipt, hr⟩

/-- A call that succeeds had the sender's nonce. -/
theorem nonceOf_before (h : (call.record env accounts).Succeeded) :
    nonceOf accounts call.tx.sender = call.tx.nonce.toNat :=
  have ⟨s, _⟩ := settlement_of_succeeded h
  s.nonceOf_sender

/-- The nonces after a success: one up at the sender, and elsewhere as they were. -/
theorem nonceOf_after (h : (call.record env accounts).Succeeded)
    (hsafe : NonceSafe env accounts call.tx) (address : Address) :
    nonceOf (call.record env accounts).after address
      = nonceOf accounts address + if address = call.tx.sender then 1 else 0 := by
  obtain ⟨s, hafter⟩ := settlement_of_succeeded h
  obtain ⟨htarget, hfresh, hwrap⟩ := hsafe
  rw [← s.target_eq] at htarget hfresh
  rw [hafter]
  by_cases hs : address = call.tx.sender
  · rw [if_pos hs, hs]
    exact s.nonceOf_final_sender htarget hwrap
  · rw [if_neg hs, Nat.add_zero]
    by_cases ht : address = s.target
    · rw [ht]
      exact s.nonceOf_final_target htarget hfresh
    · unfold nonceOf
      rw [s.final_of_ne hs ht]

/-- No nonce decreases in a call that is safe if it succeeds. -/
theorem nonceOf_le_after
    (hsafe : (call.record env accounts).Succeeded → NonceSafe env accounts call.tx)
    (address : Address) :
    nonceOf accounts address ≤ nonceOf (call.record env accounts).after address := by
  by_cases h : (call.record env accounts).Succeeded
  · rw [nonceOf_after h (hsafe h)]
    exact Nat.le_add_right ..
  · rw [after_of_not_succeeded h]

/-- A success that moves the nonces as it should is safe. -/
theorem nonceSafe_of_effect (h : (call.record env accounts).Succeeded)
    (hmono : ∀ address, nonceOf accounts address
      ≤ nonceOf (call.record env accounts).after address)
    (hgrows : nonceOf (call.record env accounts).after call.tx.sender
      = nonceOf accounts call.tx.sender + 1) : NonceSafe env accounts call.tx := by
  obtain ⟨s, hafter⟩ := settlement_of_succeeded h
  rw [hafter] at hmono hgrows
  unfold NonceSafe
  rw [← s.target_eq]
  have htarget : s.target ≠ call.tx.sender := fun ht => s.nonceOf_final_sender_ne ht hgrows
  refine ⟨htarget, fun hr => ?_, Or.inr ?_⟩
  · have hreset := hmono s.target
    rw [nonceOf, nonceOf, s.final_target htarget, Option.getD_some,
      (s.credit.of_creation hr).2.2] at hreset
    exact Nat.le_zero.mp hreset
  · rw [s.nonceOf_sender, nonceOf] at hgrows
    rw [← hgrows]
    exact BitVec.isLt _

end Call

/-! ## The run -/

/-- Every call that succeeds in a run is safe for the nonces. -/
def SafeHistory (env : Env) (records : List CallRecord) : Prop :=
  ∀ record ∈ records, record.Succeeded → NonceSafe env record.before record.tx

/-- A sender whose nonce has passed a number never again succeeds with it. -/
theorem nonce_lt_of_succeeded {env : Env} (calls : List Call) : ∀ accounts : Accounts,
    SafeHistory env (history env accounts calls) →
    ∀ record ∈ history env accounts calls, record.Succeeded →
      nonceOf accounts record.tx.sender ≤ record.tx.nonce.toNat := by
  induction calls with
  | nil =>
    intro accounts _ record hmem
    cases hmem
  | cons call calls ih =>
    intro accounts hsafe record hmem hok
    cases List.mem_cons.mp hmem with
    | inl heq =>
      subst heq
      exact Nat.le_of_eq (Call.nonceOf_before hok)
    | inr hlater =>
      have hstep := Call.nonceOf_le_after (hsafe _ (List.mem_cons_self ..)) record.tx.sender
      have hrest := ih _ (fun r hr => hsafe r (List.mem_cons_of_mem _ hr)) record hlater hok
      exact Nat.le_trans hstep hrest

/-- A safe run is replay protected. -/
theorem SafeHistory.replayProtected {env : Env} (calls : List Call) : ∀ accounts : Accounts,
    SafeHistory env (history env accounts calls) →
    ReplayProtected (history env accounts calls) := by
  induction calls with
  | nil =>
    intro accounts _
    refine ⟨.nil, ?_, ?_⟩ <;> exact fun _ h => nomatch h
  | cons call calls ih =>
    intro accounts hsafe
    have hhead := hsafe _ (List.mem_cons_self ..)
    have hrest : SafeHistory env (history env (call.record env accounts).after calls) :=
      fun r hr => hsafe r (List.mem_cons_of_mem _ hr)
    obtain ⟨honce, hmono, hgrows⟩ := ih _ hrest
    refine ⟨List.pairwise_cons.mpr ⟨fun later hlater hok hok' heq => ?_, honce⟩, ?_, ?_⟩
    · -- The first success has moved the nonce past the one the second would need.
      have hpassed := nonce_lt_of_succeeded calls _ hrest later hlater hok'
      obtain ⟨hsender, hnonce⟩ := Prod.mk.inj heq
      have hafter := Call.nonceOf_after hok (hhead hok) call.tx.sender
      have hbefore := Call.nonceOf_before hok
      rw [if_pos rfl] at hafter
      rw [← hsender, ← hnonce] at hpassed
      change nonceOf (call.record env accounts).after call.tx.sender ≤ call.tx.nonce.toNat at hpassed
      omega
    · exact List.forall_mem_cons.mpr ⟨Call.nonceOf_le_after hhead, hmono⟩
    · refine List.forall_mem_cons.mpr ⟨fun hok => ?_, hgrows⟩
      have hafter := Call.nonceOf_after hok (hhead hok) call.tx.sender
      rw [if_pos rfl] at hafter
      exact hafter

/-- Every record of a run is the record of one of its calls. -/
theorem exists_call_of_mem_history {env : Env} (calls : List Call) : ∀ accounts : Accounts,
    ∀ record ∈ history env accounts calls,
      ∃ call : Call, record = call.record env record.before := by
  induction calls with
  | nil =>
    intro accounts record hmem
    cases hmem
  | cons call calls ih =>
    intro accounts record hmem
    cases List.mem_cons.mp hmem with
    | inl heq =>
      subst heq
      exact ⟨call, rfl⟩
    | inr hlater => exact ih _ record hlater

/-- A run is replay protected if and only if each call that succeeds in it has
another account than the sender's for its target, creates no contract over a used
nonce, and does not wrap the nonce. -/
theorem replayProtected_iff (env : Env) (accounts : Accounts) (calls : List Call) :
    ReplayProtected (history env accounts calls) ↔ SafeHistory env (history env accounts calls) := by
  constructor
  · intro h record hmem hok
    have hmono := h.monotone record hmem
    have hgrows := h.grows record hmem hok
    obtain ⟨call, heq⟩ := exists_call_of_mem_history calls accounts record hmem
    rw [heq] at hok hmono hgrows ⊢
    exact Call.nonceSafe_of_effect hok hmono hgrows
  · exact SafeHistory.replayProtected calls accounts

/-- Alice pays herself twice with one signed transaction. -/
theorem self_transfer_replayed :
    ¬ ReplayProtected (history sampleEnv sampleAccounts
      [⟨sampleOrder, sampleTransfer alice alice 5⟩, ⟨sampleOrder, sampleTransfer alice alice 5⟩]) :=
  fun h => (List.pairwise_cons.mp h.once).1 _ (List.mem_cons_self ..) ⟨_, rfl⟩ ⟨_, rfl⟩ rfl

end InterBit.StateMachine
