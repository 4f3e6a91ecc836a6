import InterBit.Lib.WorkerPool
import InterBit.StateMachine.BalanceEffect

/-!
# The footprint of a transaction

`execute_single_transaction` reads and writes two accounts only: the sender's and
the target's (`executeSingleTransaction_confined`). It makes at most six accesses,
and what it gives does not depend on the order in which it writes
(`executeSingleTransaction_footprints`), so that the rules for a pool of workers
apply. A transaction that fails has written nothing on its way.
-/

namespace InterBit.StateMachine

open InterBit.Lib

/-- The accounts that a transaction reads or writes. -/
def Transaction.Touches (env : Env) (tx : Transaction) (address : Address) : Prop :=
  address = tx.sender ∨ address = tx.target env

instance (env : Env) (tx : Transaction) (address : Address) : Decidable (tx.Touches env address) :=
  inferInstanceAs (Decidable (_ ∨ _))

theorem Transaction.touches_sender (env : Env) (tx : Transaction) : tx.Touches env tx.sender :=
  Or.inl rfl

variable {tx : Transaction} {env : Env}

theorem Transaction.touches_recipient {address : Address} (h : tx.recipient = some address) :
    tx.Touches env address := by
  refine Or.inr ?_
  rw [target, h, Option.getD_some]

/-- Transactions without an account in common. -/
theorem Transaction.apart_iff {s t : Transaction} :
    Apart (Transaction.Touches env) s t ↔ s.sender ≠ t.sender ∧ s.sender ≠ t.target env ∧
      s.target env ≠ t.sender ∧ s.target env ≠ t.target env := by
  constructor
  · intro h
    exact ⟨fun he => h _ (Or.inl rfl) (Or.inl he), fun he => h _ (Or.inl rfl) (Or.inr he),
      fun he => h _ (Or.inr rfl) (Or.inl he), fun he => h _ (Or.inr rfl) (Or.inr he)⟩
  · rintro ⟨hss, hst, hts, htt⟩ k (hk | hk) (hk' | hk')
    · exact hss (hk.symm.trans hk')
    · exact hst (hk.symm.trans hk')
    · exact hts (hk.symm.trans hk')
    · exact htt (hk.symm.trans hk')

instance (env : Env) (s t : Transaction) : Decidable (Apart (Transaction.Touches env) s t) :=
  decidable_of_iff _ Transaction.apart_iff.symm

section Confined

variable {env : Env} {tx : Transaction} {accounts : Accounts} {W : Address → Prop}

theorem validateTransaction_confined {R : Address → Prop} (h : R tx.sender) :
    (validateTransaction tx).Confined R W accounts :=
  (Prog.confined_require _ _ _).bind fun _ _ _ => by
    refine ⟨h, ?_⟩
    exact (Prog.confined_orFail _ _ _).bind fun _ _ _ =>
      (Prog.confined_require _ _ _).bind fun _ _ _ =>
        (Prog.confined_require _ _ _).bind fun _ _ _ => Prog.confined_require _ _ _

theorem creditAccount_confined {address : Address} (h : tx.Touches env address) :
    (creditAccount address tx.value).Confined (tx.Touches env) W accounts :=
  ⟨h, (Prog.confined_orPanic _ _).bind fun _ _ _ => trivial⟩

variable {stateChanges : StateChanges}

theorem processRecipient_confined {fromAccount : Account} :
    (processRecipient env tx fromAccount stateChanges).Confined (tx.Touches env) W accounts := by
  unfold processRecipient
  split
  next address hto =>
    have ht : tx.Touches env address := Transaction.touches_recipient hto
    rw [isContract_bind]
    refine ⟨ht, ?_⟩
    dsimp only
    split
    next => exact (Prog.confined_orPanic _ _).bind fun _ _ _ =>
      (Prog.confined_require _ _ _).bind fun _ _ _ =>
        (creditAccount_confined ht).bind fun _ _ _ => trivial
    next => exact (creditAccount_confined ht).bind fun _ _ _ => trivial
  next => exact (Prog.confined_orPanic _ _).bind fun _ _ _ =>
    (Prog.confined_require _ _ _).bind fun _ _ _ => trivial

theorem refundGas_confined {gasUsed : U64} :
    (refundGas tx gasUsed stateChanges).Confined (tx.Touches env) W accounts := by
  unfold refundGas
  dsimp only
  split
  next => exact (Prog.confined_orPanic _ _).bind fun _ _ _ =>
    (Prog.confined_orPanic _ _).bind fun _ _ _ => trivial
  next => trivial

/-- The whole preparation, assembled from its parts. -/
theorem prepareTransaction_confined :
    (prepareTransaction env tx).Confined (tx.Touches env) W accounts :=
  (validateTransaction_confined (tx.touches_sender env)).bind fun _ _ _ => by
    refine ⟨tx.touches_sender env, ?_⟩
    exact (Prog.confined_orFail _ _ _).bind fun _ _ _ =>
      (Prog.confined_require _ _ _).bind fun _ _ _ =>
        (Prog.confined_orPanic _ _).bind fun _ _ _ =>
          processRecipient_confined.bind fun _ _ _ => refundGas_confined.bind fun _ _ _ => trivial

theorem applyChanges_confined {entries : List (Sigma fun _ : Address => Account)}
    {R : Address → Prop} (h : ∀ entry ∈ entries, W entry.1) :
    ∀ accounts : Accounts, (applyChanges entries).Confined R W accounts := by
  induction entries with
  | nil => exact fun _ => trivial
  | cons entry entries ih =>
    obtain ⟨hentry, hrest⟩ := List.forall_mem_cons.mp h
    exact fun _ => ⟨hentry, ih hrest _⟩

/-- Only the sender's and the target's account have a change. -/
theorem prepareTransaction_keys {m : Accounts} {receipt : TransactionReceipt}
    (h : (prepareTransaction env tx).run accounts = (.ok (stateChanges, receipt), m)) :
    ∀ entry ∈ stateChanges.entries, tx.Touches env entry.1 := by
  obtain ⟨s, hchanges, -⟩ := prepareTransaction_settles h
  intro ⟨address, account⟩ hmem
  have hlookup : stateChanges.lookup address = some account := AList.mem_lookup_iff.mpr hmem
  rw [hchanges, Settlement.changes] at hlookup
  by_cases hs : address = tx.sender
  · exact Or.inl hs
  · rw [if_neg hs] at hlookup
    by_cases ht : address = s.target
    · exact Or.inr (ht.trans s.target_eq)
    · rw [if_neg ht] at hlookup
      cases hlookup

variable (env tx accounts) in
/-- A transaction keeps to its sender and its target. -/
theorem executeSingleTransaction_confined
    (order : IterOrder (Sigma fun _ : Address => Account)) :
    (executeSingleTransaction env order tx).Confined (tx.Touches env) (tx.Touches env) accounts :=
  prepareTransaction_confined.bind fun _ _ hrun =>
    (applyChanges_confined (fun entry hmem =>
      prepareTransaction_keys hrun entry ((order.perm _).mem_iff.mp hmem)) _).bind
        fun _ _ _ => trivial

/-- A transaction that fails alone writes nothing before it fails. -/
theorem executeSingleTransaction_silent {order : IterOrder (Sigma fun _ : Address => Account)}
    (h : ∀ receipt, ((executeSingleTransaction env order tx).run accounts).1 ≠ .ok receipt) :
    (executeSingleTransaction env order tx).Confined (fun _ => True) (fun _ => False) accounts := by
  refine ((prepareTransaction_readOnly env tx).confined accounts).bind fun a m hrun => ?_
  refine absurd ?_ (h a.2)
  rw [run_executeSingleTransaction, hrun]

end Confined

/-! ## The number of accesses -/

section Accesses

variable {env : Env} {tx : Transaction} {accounts : Accounts}

/-- A check costs no access. -/
theorem accesses_require_bind {α : Type} {c : Prop} [Decidable c] {e : StateMachineError}
    {f : Unit → Exec α} {n : Nat} (h : (f ()).accesses accounts ≤ n) :
    (Prog.require c e >>= f).accesses accounts ≤ n := by
  unfold Prog.require
  split
  next => exact h
  next => exact Nat.zero_le n

theorem accesses_orFail_bind {α β : Type} {e : StateMachineError} {o : Option α}
    {f : α → Exec β} {n : Nat} (h : ∀ a, (f a).accesses accounts ≤ n) :
    (Prog.orFail e o >>= f).accesses accounts ≤ n := by
  cases o with
  | none => exact Nat.zero_le n
  | some a => exact h a

/-- An `unwrap` costs no access. -/
theorem accesses_orPanic_bind {α β : Type} {o : Option α} {f : α → Exec β} {n : Nat}
    (h : ∀ a, (f a).accesses accounts ≤ n) :
    (Prog.orPanic o >>= f).accesses accounts ≤ n := by
  cases o with
  | none => exact Nat.zero_le n
  | some a => exact h a

/-- One read, of the sender. -/
theorem accesses_validateTransaction : (validateTransaction tx).accesses accounts ≤ 1 :=
  accesses_require_bind <| Nat.succ_le_succ <| accesses_orFail_bind fun _ =>
    accesses_require_bind <| accesses_require_bind <| by
      unfold Prog.require
      split <;> exact Nat.le_refl 0

theorem accesses_creditAccount {address : Address} {value : U128} :
    (creditAccount address value).accesses accounts ≤ 1 :=
  Nat.succ_le_succ <| accesses_orPanic_bind fun _ => Nat.le_refl 0

variable {stateChanges : StateChanges}

theorem accesses_processRecipient {fromAccount : Account} :
    (processRecipient env tx fromAccount stateChanges).accesses accounts ≤ 2 := by
  unfold processRecipient
  split
  next =>
    rw [isContract_bind]
    refine Nat.succ_le_succ ?_
    dsimp only
    split
    next => exact accesses_orPanic_bind fun _ => accesses_require_bind <|
      Prog.accesses_bind_le (j := 0) accesses_creditAccount fun _ _ _ => Nat.le_refl 0
    next =>
      exact Prog.accesses_bind_le (j := 0) accesses_creditAccount fun _ _ _ => Nat.le_refl 0
  next => exact accesses_orPanic_bind fun _ => accesses_require_bind <| Nat.zero_le 2

/-- The refund makes no access. -/
theorem accesses_refundGas {gasUsed : U64} :
    (refundGas tx gasUsed stateChanges).accesses accounts ≤ 0 := by
  unfold refundGas
  dsimp only
  split
  next => exact accesses_orPanic_bind fun _ => accesses_orPanic_bind fun _ => Nat.le_refl 0
  next => exact Nat.le_refl 0

theorem accesses_prepareTransaction : (prepareTransaction env tx).accesses accounts ≤ 4 :=
  Prog.accesses_bind_le (j := 3) accesses_validateTransaction fun _ _ _ =>
    Nat.succ_le_succ <| accesses_orFail_bind fun _ => accesses_require_bind <|
      accesses_orPanic_bind fun _ =>
        Prog.accesses_bind_le (j := 0) accesses_processRecipient fun _ _ _ =>
          Prog.accesses_bind_le (j := 0) accesses_refundGas fun _ _ _ => Nat.le_refl 0

/-- One write for each entry. -/
theorem accesses_applyChanges (entries : List (Sigma fun _ : Address => Account)) :
    ∀ accounts : Accounts, (applyChanges entries).accesses accounts = entries.length := by
  induction entries with
  | nil => exact fun _ => rfl
  | cons entry entries ih => exact fun _ => congrArg (· + 1) (ih _)

/-- At most two accounts have a change. -/
theorem length_stateChanges_le {m : Accounts} {receipt : TransactionReceipt}
    (h : (prepareTransaction env tx).run accounts = (.ok (stateChanges, receipt), m)) :
    stateChanges.entries.length ≤ 2 := by
  have hkeys : stateChanges.entries.keys ⊆ [tx.sender, tx.target env] := by
    intro address hmem
    obtain ⟨entry, hentry, rfl⟩ := List.mem_map.mp hmem
    cases prepareTransaction_keys h entry hentry with
    | inl hs => exact hs ▸ List.mem_cons_self ..
    | inr ht => exact ht ▸ List.mem_cons_of_mem _ (List.mem_cons_self ..)
  have hle := (List.subperm_of_subset stateChanges.nodupKeys hkeys).length_le
  rwa [List.keys, List.length_map] at hle

variable (env tx accounts) in
/-- Six in all, since at most two accounts change. -/
theorem accesses_executeSingleTransaction
    (order : IterOrder (Sigma fun _ : Address => Account)) :
    (executeSingleTransaction env order tx).accesses accounts ≤ 6 := by
  refine Prog.accesses_bind_le (j := 2) accesses_prepareTransaction fun a m hrun => ?_
  refine Prog.accesses_bind_le (i := 2) (j := 0) ?_ fun _ _ _ => Nat.le_refl 0
  rw [accesses_applyChanges, (order.perm _).length_eq]
  exact length_stateChanges_le hrun

end Accesses

/-- What a transaction gives when it runs alone. -/
def executeAlone (env : Env) (tx : Transaction) (accounts : Accounts) :
    Outcome StateMachineError TransactionReceipt × Accounts :=
  match (prepareTransaction env tx).run accounts with
  | (.ok (stateChanges, receipt), _) => (.ok receipt, stateChanges.over accounts)
  | (.err e, _) => (.err e, accounts)
  | (.panicked, _) => (.panicked, accounts)

variable {accounts : Accounts}

theorem executeAlone_ok {receipt : TransactionReceipt}
    (h : (executeAlone env tx accounts).1 = .ok receipt) :
    ∃ s : Settlement env accounts tx, executeAlone env tx accounts = (.ok s.receipt, s.final) := by
  unfold executeAlone at h ⊢
  match hp : (prepareTransaction env tx).run accounts with
  | (.ok (stateChanges, r), m) =>
    obtain ⟨s, hover, hr⟩ := prepareTransaction_ok hp
    refine ⟨s, ?_⟩
    dsimp only
    rw [hover, hr]
  | (.err e, m) =>
    rw [hp] at h
    cases h
  | (.panicked, m) =>
    rw [hp] at h
    cases h

/-- Without success, nothing changes. -/
theorem executeAlone_not_ok (h : ∀ receipt, (executeAlone env tx accounts).1 ≠ .ok receipt) :
    (executeAlone env tx accounts).2 = accounts := by
  unfold executeAlone at h ⊢
  match hp : (prepareTransaction env tx).run accounts with
  | (.ok (stateChanges, receipt), m) =>
    rw [hp] at h
    exact absurd rfl (h receipt)
  | (.err e, m) => rfl
  | (.panicked, m) => rfl

theorem executeAlone_err {e : StateMachineError} (h : (executeAlone env tx accounts).1 = .err e) :
    executeAlone env tx accounts = (.err e, accounts) := by
  refine Prod.ext h (executeAlone_not_ok fun receipt hok => ?_)
  rw [h] at hok
  cases hok

instance {α : Type} : Inhabited (IterOrder α) := ⟨sampleOrder⟩

/-- Sender and target are a footprint of a transaction, in whatever order it writes. -/
theorem executeSingleTransaction_footprints (env : Env) :
    Footprints (executeSingleTransaction env) (executeAlone env) (Transaction.Touches env) where
  run order tx accounts := run_executeSingleTransaction env order tx accounts
  confined order tx accounts := executeSingleTransaction_confined env tx accounts order

/-- `execute_single_transaction` over a list in order; who fails is skipped. -/
def executeSerially (env : Env) (order : IterOrder (Sigma fun _ : Address => Account))
    (transactions : List Transaction) (accounts : Accounts) :
    List (Outcome StateMachineError TransactionReceipt) × Accounts :=
  serially (fun tx => (executeSingleTransaction env order tx).run) transactions accounts

theorem executeSerially_eq (env : Env) (order : IterOrder (Sigma fun _ : Address => Account))
    (transactions : List Transaction) (accounts : Accounts) :
    executeSerially env order transactions accounts
      = serially (executeAlone env) transactions accounts := by
  unfold executeSerially
  congr 1
  funext tx m
  exact run_executeSingleTransaction env order tx m

end InterBit.StateMachine
