import InterBit.StateMachine.Block
import InterBit.StateMachine.Independence

/-!
# When a failed block leaves nothing behind

`execute_block` writes account by account while other workers go on, and notices an
error only when it collects the receipts; nothing is taken back. So a block that fails
has left the accounts alone only if nothing succeeded in it.

`executeBlock_atomic` says when that is: either no transaction of the group succeeds
alone, and then none does in the block (`Pool.Silent`); or none fails alone and none can
make another one fail, and then the block does not fail (`Pool.Sustained`). Otherwise
some transaction may succeed in the same block in which another one fails.
-/

namespace InterBit.StateMachine.Block

open InterBit.Lib

/-- No transaction of the group succeeds when it runs alone. -/
def NoneSucceeds (env : Env) (accounts : Accounts) (group : List Transaction) : Prop :=
  ∀ tx ∈ group, (executeAlone env tx accounts).1.value = none

/-- The gas limit is enough for a call of a contract. -/
def CoversCall (env : Env) (tx : Transaction) : Prop :=
  ∀ gasUsed, (do env.add64 21000 (← estimateContractGas env tx.data)) = some gasUsed →
    ¬ gasUsed > tx.gasLimit

/-- Neither transaction can make the other one fail: a common sender pays itself in both,
and when one creates a contract where the other one's sender or recipient is, the other
one has what it takes. -/
structure Compatible (env : Env) (s t : Transaction) : Prop where
  sender : s.sender = t.sender → s.recipient = some s.sender ∧ t.recipient = some t.sender
  created : s.recipient = none →
    (t.sender = s.target env → t.nonce = 0 ∧ ¬ s.value.setWidth 256 < t.totalCost) ∧
    (t.recipient = some (s.target env) → CoversCall env t)
  created' : t.recipient = none →
    (s.sender = t.target env → s.nonce = 0 ∧ ¬ t.value.setWidth 256 < s.totalCost) ∧
    (s.recipient = some (t.target env) → CoversCall env s)

theorem Compatible.symm {env : Env} {s t : Transaction} (h : Compatible env s t) :
    Compatible env t s :=
  ⟨fun he => (h.sender he.symm).symm, h.created', h.created⟩

/-- No transaction of the group fails when it runs alone, or through another one. -/
structure NoneFails (env : Env) (accounts : Accounts) (group : List Transaction) : Prop where
  alone : ∀ tx ∈ group, ∀ e, (executeAlone env tx accounts).1 ≠ .err e
  compatible : group.Pairwise (Compatible env)

/-! ## What a transaction has checked that does not fail alone -/

/-- The program does not give an error. -/
def NotErr {α : Type} (p : Exec α) (m : Accounts) : Prop := ∀ e, (p.run m).1 ≠ .err e

section NotErr

variable {α β : Type} {m : Accounts}

theorem NotErr.require_bind {c : Prop} [Decidable c] {e : StateMachineError} {f : Unit → Exec β}
    (h : NotErr (Prog.require c e >>= f) m) : c ∧ NotErr (f ()) m := by
  unfold Prog.require at h
  split at h
  next hc => exact ⟨hc, h⟩
  next => exact absurd rfl (h e)

variable {f : α → Exec β}

theorem NotErr.orFail_bind {e : StateMachineError} {o : Option α}
    (h : NotErr (Prog.orFail e o >>= f) m) : ∃ a, o = some a ∧ NotErr (f a) m := by
  cases o with
  | none => exact absurd rfl (h e)
  | some a => exact ⟨a, rfl, h⟩

theorem NotErr.orPanic_bind {o : Option α} (h : NotErr (Prog.orPanic o >>= f) m) {a : α}
    (ha : o = some a) : NotErr (f a) m := by
  rwa [Prog.orPanic_bind_of ha] at h

theorem NotErr.read {address : Address} {cont : Option Account → Exec α}
    (h : NotErr (.read address cont) m) : NotErr (cont (m address)) m := h

theorem NotErr.first {p : Exec α} (h : NotErr (p >>= f) m) : NotErr p m :=
  fun e he => h e (run_bind_of_err he)

end NotErr

/-- The checks of a transaction on `accounts`, the last two as far as it gets there. -/
structure Checked (env : Env) (accounts : Accounts) (tx : Transaction) : Prop where
  signed : tx.verifySignature = true
  funded : ∃ account, accounts tx.sender = some account ∧ account.nonce = tx.nonce ∧
    ¬ account.balance < tx.totalCost
  gasLimit : ¬ tx.gasLimit < 21000
  call : ∀ nonce, env.add64 tx.nonce 1 = some nonce → ∀ address, tx.recipient = some address →
    hasCode (accounts address) = true → CoversCall env tx
  create : ∀ nonce, env.add64 tx.nonce 1 = some nonce → tx.recipient = none → ∀ gasUsed,
    (do env.add64 21000 (← env.mul64 (← estimateContractGas env tx.data) 2)) = some gasUsed →
      ¬ gasUsed > tx.gasLimit

/-- What does not fail alone passes its checks. -/
theorem checked_of_alone {env : Env} {accounts : Accounts} {tx : Transaction}
    (h : ∀ e, (executeAlone env tx accounts).1 ≠ .err e) : Checked env accounts tx := by
  have hprepare : NotErr (prepareTransaction env tx) accounts := by
    intro e he
    refine h e ?_
    rw [executeAlone_fst, he]
  unfold prepareTransaction validateTransaction at hprepare
  simp only [Prog.bind_assoc, getAccount_bind, Prog.bind_read] at hprepare
  -- Check by check: a part that gives no error has passed what comes first in it.
  obtain ⟨hsigned, hread⟩ := hprepare.require_bind
  obtain ⟨account, haccount, hrest⟩ := NotErr.orFail_bind hread
  obtain ⟨hnonce, hrest⟩ := hrest.require_bind
  obtain ⟨hcovered, hrest⟩ := hrest.require_bind
  obtain ⟨hgasLimit, hread⟩ := hrest.require_bind
  obtain ⟨account', haccount', hrest⟩ := NotErr.orFail_bind hread
  -- The sender is read twice, and alone it is the same account.
  obtain rfl : account = account' := Option.some.inj (haccount.symm.trans haccount')
  obtain ⟨-, hrest⟩ := hrest.require_bind
  rw [hnonce] at hrest
  have hrecipient := fun nonce hnext => (hrest.orPanic_bind (a := nonce) hnext).first
  refine ⟨hsigned, ⟨account, haccount, hnonce, hcovered⟩, hgasLimit, ?_, ?_⟩
  -- A contract that is called, and a contract that is created, need their gas.
  · intro nonce hnext address hto hcode
    have hp := hrecipient nonce hnext
    unfold processRecipient at hp
    rw [hto] at hp
    dsimp only at hp
    rw [isContract_bind] at hp
    have hcall := hp.read
    rw [if_pos hcode] at hcall
    exact fun gasUsed hgas => (hcall.orPanic_bind hgas).require_bind.1
  · intro nonce hnext hto gasUsed hgas
    have hp := hrecipient nonce hnext
    unfold processRecipient at hp
    rw [hto] at hp
    exact (hp.orPanic_bind hgas).require_bind.1

/-! ## Transactions that cannot make each other fail -/

/-- What a transaction needs of its sender's account until it writes. -/
def Funded (task : Queued) (address : Address) (account : Option Account) : Prop :=
  address = task.1.sender →
    ∃ a, account = some a ∧ a.nonce = task.1.nonce ∧ ¬ a.balance < task.1.totalCost

/-- Where there is code, the transactions to that address have the gas for a call. -/
def CodeCovered (env : Env) (group : List Transaction) (address : Address)
    (account : Option Account) : Prop :=
  hasCode account = true → ∀ tx ∈ group, tx.recipient = some address →
    ∀ nonce, env.add64 tx.nonce 1 = some nonce → CoversCall env tx

section Keeps

variable {env : Env} {accounts : Accounts} {group : List Transaction} {task : Queued}
  {u : Queued → Prop}

/-- The task has not written, and only tasks of the group are left. -/
def Live (group : List Transaction) (task : Queued) (u : Queued → Prop) : Prop :=
  u task ∧ ∀ s, u s → s ∈ group.zipIdx

theorem Live.mono {u' : Queued → Prop} (h : Live group task u) (hu : ∀ s, u' s → u s)
    (ht : u task → u' task) : Live group task u' :=
  ⟨ht h.1, fun s hs => h.2 s (hu s hs)⟩

/-- Validation passes, whatever the others do. -/
theorem validateTransaction_keeps (hchecked : Checked env accounts task.1)
    (hu : Live group task u) :
    (validateTransaction task.1).Keeps Funded (CodeCovered env group) task
      (fun _ u => Live group task u) u := by
  unfold validateTransaction
  rw [Prog.require_bind_of hchecked.signed, getAccount_bind]
  intro u' hsub ht v _ hP
  obtain ⟨a, rfl, hnonce, hcovered⟩ := hP task (ht hu.1) rfl
  dsimp only
  rw [Prog.orFail_bind_of rfl, Prog.require_bind_of hnonce, Prog.require_bind_of hcovered]
  exact Prog.keeps_require hchecked.gasLimit (hu.mono hsub ht)

/-- The value fits where the task is going to write it. -/
def Fits (env : Env) (group : List Transaction) (task : Queued) (address : Address)
    (account : Account) (u : Queued → Prop) : Prop :=
  CodeCovered env group address (some account) ∧
    ∀ s, u s → s ≠ task → Funded s address (some account)

variable {address : Address}

theorem Fits.mono {account : Account} {u' : Queued → Prop}
    (h : Fits env group task address account u) (hu : ∀ s, u' s → u s) :
    Fits env group task address account u' :=
  ⟨h.1, fun s hs => h.2 s (hu s hs)⟩

/-- More money on an account that has been read fits. -/
theorem fits_of_read {v : Option Account} {balance : U256} (hC : CodeCovered env group address v)
    (hP : ∀ s, u s → Funded s address v) (hle : (v.getD default).balance ≤ balance) :
    Fits env group task address { v.getD default with balance } u := by
  refine ⟨fun hcode => hC ?_, fun s hs _ he => ?_⟩
  · cases v with
    | none => cases hcode
    | some a => exact hcode
  · obtain ⟨a, rfl, hnonce, hcovered⟩ := hP s hs he
    refine ⟨_, rfl, hnonce, fun hlt => hcovered ?_⟩
    exact Nat.lt_of_le_of_lt hle hlt

/-- A credit fits what the others still have to pay. -/
theorem creditAccount_keeps {value : U128} {Q : Account → (Queued → Prop) → Prop}
    (hu : Live group task u)
    (hQ : ∀ account u', Live group task u' → Fits env group task address account u' →
      Q account u') :
    (creditAccount address value).Keeps Funded (CodeCovered env group) task Q u := by
  intro u' hsub ht v hC hP
  refine Prog.Keeps.bind (Q := fun balance u => u = u' ∧ (v.getD default).balance ≤ balance)
    (Prog.keeps_orPanic fun balance hsum => ⟨rfl, ?_⟩) fun balance u'' hq => ?_
  · show (v.getD default).balance.toNat ≤ balance.toNat
    rw [addU256_eq_some hsum]
    exact Nat.le_add_right _ _
  · obtain ⟨rfl, hle⟩ := hq
    exact hQ _ _ (hu.mono hsub ht) (fits_of_read hC hP hle)

/-- A task of a group in which nobody can make another one fail. -/
structure Unhindered (env : Env) (accounts : Accounts) (group : List Transaction)
    (task : Queued) : Prop where
  mem : task ∈ group.zipIdx
  checked : Checked env accounts task.1
  compatible : ∀ s ∈ group.zipIdx, s ≠ task → Compatible env task.1 s.1

theorem Unhindered.mem_group (h : Unhindered env accounts group task) : task.1 ∈ group :=
  List.fst_mem_of_mem_zipIdx h.mem

/-- The account of a new contract fits. -/
theorem Unhindered.fits_created (h : Unhindered env accounts group task)
    (hr : task.1.recipient = none) (hu : Live group task u) (codeHash : Option H256) :
    Fits env group task (task.1.target env)
      { (default : Account) with balance := task.1.value.setWidth 256, codeHash } u := by
  refine ⟨fun _ tx htx hto _ _ => ?_, fun s hs hne he => ?_⟩
  · rw [← List.zipIdx_map_fst 0 group] at htx
    obtain ⟨s, hs, rfl⟩ := List.mem_map.mp htx
    by_cases hne : s = task
    · rw [hne, hr] at hto
      cases hto
    · exact ((h.compatible s hs hne).created hr).2 hto
  · obtain ⟨hnonce, hcovered⟩ := ((h.compatible s (hu.2 s hs) hne).created hr).1 he.symm
    exact ⟨_, rfl, hnonce.symm, hcovered⟩

/-- The part about the recipient keeps what the others need. -/
theorem processRecipient_keeps (h : Unhindered env accounts group task)
    (hu : Live group task u) {fromAccount : Account} (stateChanges : StateChanges)
    (hnext : env.add64 task.1.nonce 1 = some fromAccount.nonce) :
    (processRecipient env task.1 fromAccount stateChanges).Keeps Funded (CodeCovered env group)
      task (fun pending u => Live group task u ∧ ∃ credited,
        pending.stateChanges = stateChanges.insert (task.1.target env) credited ∧
        Fits env group task (task.1.target env) credited u) u := by
  have htarget : ∀ address, task.1.recipient = some address → task.1.target env = address := by
    intro address hto
    rw [Transaction.target, hto, Option.getD_some]
  unfold processRecipient
  split
  next address hto =>
    rw [isContract_bind]
    -- the read may see what others have written; of `v` we know that it is covered code
    intro u' hsub ht v hC hP
    have hlive := hu.mono hsub ht
    dsimp only
    split
    next hc =>
      refine Prog.Keeps.bind (Q := fun gasUsed u => u = u' ∧ ¬ gasUsed > task.1.gasLimit)
        (Prog.keeps_orPanic fun gasUsed hgas => ⟨rfl, ?_⟩) fun gasUsed u'' hq => ?_
      · exact hC hc task.1 h.mem_group hto _ hnext gasUsed hgas
      · obtain ⟨rfl, hlimit⟩ := hq
        rw [Prog.require_bind_of hlimit]
        refine (creditAccount_keeps hlive fun account u hlive hfits => ⟨hlive, hfits⟩).bind
          (Q := fun account u => Live group task u ∧ Fits env group task address account u)
          fun account u hq => ?_
        exact ⟨hq.1, account, by rw [htarget address hto], htarget address hto ▸ hq.2⟩
    next =>
      refine (creditAccount_keeps hlive fun account u hlive hfits => ⟨hlive, hfits⟩).bind
        (Q := fun account u => Live group task u ∧ Fits env group task address account u)
        fun account u hq => ?_
      exact ⟨hq.1, account, by rw [htarget address hto], htarget address hto ▸ hq.2⟩
  next hto =>
    refine Prog.Keeps.bind (Q := fun gasUsed u' => u' = u ∧ ¬ gasUsed > task.1.gasLimit)
      (Prog.keeps_orPanic fun gasUsed hgas => ⟨rfl, ?_⟩) fun gasUsed u' hq => ?_
    · exact h.checked.create _ hnext hto gasUsed hgas
    · obtain ⟨rfl, hlimit⟩ := hq
      rw [Prog.require_bind_of hlimit]
      -- the code takes the nonce back down before it computes the address
      have haddress : calculateContractAddress env task.1.sender (fromAccount.nonce - 1)
          = task.1.target env := by
        rw [Transaction.target, hto, Option.getD_none, (Build.add64_eq_some hnext).1,
          BitVec.add_sub_cancel]
      dsimp only
      exact ⟨hu, _, by rw [haddress], h.fits_created hto hu _⟩

/-- A refund does no harm. -/
theorem refundGas_keeps {gasUsed : U64} {stateChanges : StateChanges}
    {Q : StateChanges → (Queued → Prop) → Prop}
    (hQ : ∀ changes, (refundGas task.1 gasUsed stateChanges).run accounts = (.ok changes, accounts) →
      Q changes u) :
    (refundGas task.1 gasUsed stateChanges).Keeps Funded (CodeCovered env group) task Q u := by
  unfold refundGas at hQ ⊢
  dsimp only at hQ ⊢
  split
  next hpos =>
    rw [if_pos hpos] at hQ
    refine Prog.Keeps.bind (Q := fun a u' => u = u' ∧ stateChanges.lookup task.1.sender = some a)
      (Prog.keeps_orPanic fun a ha => ⟨rfl, ha⟩) fun a u' hq => ?_
    obtain ⟨rfl, ha⟩ := hq
    rw [Prog.orPanic_bind_of ha] at hQ
    refine Prog.Keeps.bind (Q := fun b u' => u = u' ∧ addU256 a.balance
        ((task.1.gasLimit - gasUsed).setWidth 256 * task.1.gasPrice.setWidth 256) = some b)
      (Prog.keeps_orPanic fun b hb => ⟨rfl, hb⟩) fun b u' hq => ?_
    obtain ⟨rfl, hb⟩ := hq
    rw [Prog.orPanic_bind_of hb] at hQ
    exact hQ _ rfl
  next hzero =>
    rw [if_neg hzero] at hQ
    exact hQ _ rfl

/-- The changes that fit may be written in any order. -/
theorem applyChanges_keeps {entries : List (Sigma fun _ : Address => Account)} :
    ∀ {u : Queued → Prop}, (∀ e ∈ entries, Fits env group task e.1 e.2 u) →
      (applyChanges entries).Keeps Funded (CodeCovered env group) task (fun _ _ => True) u := by
  induction entries with
  | nil => exact fun _ => trivial
  | cons e entries ih =>
    intro u h
    obtain ⟨he, hrest⟩ := List.forall_mem_cons.mp h
    exact ⟨he.1, he.2, ih fun e' he' => (hrest e' he').mono fun s hs => hs.1⟩

/-- More money in an account that fits. -/
theorem Fits.more {account : Account} {balance : U256} (h : Fits env group task address account u)
    (hle : account.balance ≤ balance) :
    Fits env group task address { account with balance } u := by
  refine ⟨h.1, fun s hs hne he => ?_⟩
  obtain ⟨a, ha, hnonce, hcovered⟩ := h.2 s hs hne he
  obtain rfl := Option.some.inj ha
  exact ⟨_, rfl, hnonce, fun hlt => hcovered (Nat.lt_of_le_of_lt hle hlt)⟩

/-- The debited sender fits, unless it pays itself. -/
theorem Unhindered.fits_debited (h : Unhindered env accounts group task)
    (hu : Live group task u) {a : Account} (hC : CodeCovered env group task.1.sender (some a))
    (hne : task.1.target env ≠ task.1.sender) (balance : U256) (nonce : U64) :
    Fits env group task task.1.sender { a with balance, nonce } u := by
  refine ⟨hC, fun s hs hst he => ?_⟩
  have hself := (h.compatible s (hu.2 s hs) hst).sender he
  refine absurd ?_ hne
  rw [Transaction.target, hself.1, Option.getD_some]

/-- The state changes after the refund fit. -/
theorem Unhindered.fits_changes (h : Unhindered env accounts group task)
    (hu : Live group task u) {a credited : Account} {balance : U256} {nonce gasUsed : U64}
    (hC : CodeCovered env group task.1.sender (some a))
    (hcredited : Fits env group task (task.1.target env) credited u)
    {stateChanges changes : StateChanges}
    (hchanges : stateChanges = (AList.insert task.1.sender { a with balance, nonce }
      (∅ : StateChanges)).insert (task.1.target env) credited)
    (hrun : (refundGas task.1 gasUsed stateChanges).run accounts = (.ok changes, accounts)) :
    ∀ e ∈ changes.entries, Fits env group task e.1 e.2 u := by
  have hlookup : ∀ address, changes.lookup address = none ∨ ∃ account,
      changes.lookup address = some account ∧ Fits env group task address account u := by
    by_cases hself : task.1.target env = task.1.sender
    · -- The sender's entry is the credited one.
      have hbase : stateChanges.lookup task.1.sender = some credited := by
        rw [hchanges, hself, AList.lookup_insert]
      obtain ⟨refunded, hrefunded, hlookup⟩ := refundGas_ok hbase hrun
      intro address
      rw [hlookup]
      by_cases hs : address = task.1.sender
      · rw [if_pos hs, hs]
        refine Or.inr ⟨_, rfl, Fits.more (hself ▸ hcredited) ?_⟩
        show credited.balance.toNat ≤ refunded.toNat
        rw [hrefunded]
        exact Nat.le_add_right _ _
      · rw [if_neg hs, hchanges, hself, AList.lookup_insert_ne hs, AList.lookup_insert_ne hs,
          AList.lookup_empty]
        exact Or.inl rfl
    · -- The sender's entry is the debited one; the recipient's is as it was.
      have hbase : stateChanges.lookup task.1.sender = some { a with balance, nonce } := by
        rw [hchanges, AList.lookup_insert_ne (Ne.symm hself), AList.lookup_insert]
      obtain ⟨refunded, -, hlookup⟩ := refundGas_ok hbase hrun
      intro address
      rw [hlookup]
      by_cases hs : address = task.1.sender
      · rw [if_pos hs, hs]
        exact Or.inr ⟨_, rfl, h.fits_debited hu hC hself refunded nonce⟩
      · rw [if_neg hs, hchanges]
        by_cases ht : address = task.1.target env
        · rw [ht, AList.lookup_insert]
          exact Or.inr ⟨_, rfl, hcredited⟩
        · rw [AList.lookup_insert_ne ht, AList.lookup_insert_ne hs, AList.lookup_empty]
          exact Or.inl rfl
  intro ⟨address, account⟩ hmem
  have hfound : changes.lookup address = some account := AList.mem_lookup_iff.mpr hmem
  cases hlookup address with
  | inl hnone =>
    rw [hfound] at hnone
    cases hnone
  | inr hsome =>
    obtain ⟨account', hfound', hfits⟩ := hsome
    obtain rfl : account = account' := Option.some.inj (hfound.symm.trans hfound')
    exact hfits

/-- Whatever the others do, the task does not fail, and no other one through it. -/
theorem executeSingleTransaction_keeps (h : Unhindered env accounts group task)
    (order : IterOrder (Sigma fun _ : Address => Account)) (hu : Live group task u) :
    (executeSingleTransaction env order task.1).Keeps Funded (CodeCovered env group) task
      (fun _ _ => True) u := by
  unfold executeSingleTransaction prepareTransaction
  rw [Prog.bind_assoc]
  refine (validateTransaction_keeps h.checked hu).bind fun _ u₁ hu₁ => ?_
  -- The sender is read once more: whoever has written to it has kept what the task needs.
  rw [getAccount_bind, Prog.bind_read]
  intro u₂ hsub ht v hC hP
  obtain ⟨a, rfl, hnonce, hcovered⟩ := hP task (ht hu₁.1) rfl
  have hu₂ := hu₁.mono hsub ht
  dsimp only
  rw [Prog.orFail_bind_of rfl, Prog.require_bind_of hcovered, Prog.bind_assoc]
  refine Prog.Keeps.bind (Q := fun nonce u => u = u₂ ∧ env.add64 task.1.nonce 1 = some nonce)
    (Prog.keeps_orPanic fun nonce hnext => ⟨rfl, hnonce ▸ hnext⟩) fun nonce u₃ hq => ?_
  obtain ⟨rfl, hnext⟩ := hq
  rw [Prog.bind_assoc]
  refine (processRecipient_keeps h hu₂ _ hnext).bind fun pending u₄ hq => ?_
  obtain ⟨hu₄, credited, hchanges, hcredited⟩ := hq
  rw [Prog.bind_assoc]
  -- From here on only the changes count, and each of them fits.
  refine (refundGas_keeps (Q := fun changes u => Live group task u ∧
    ∀ e ∈ changes.entries, Fits env group task e.1 e.2 u) fun changes
    (hrun : (refundGas task.1 pending.gasUsed pending.stateChanges).run accounts
      = (.ok changes, accounts)) => ?_).bind fun changes u₅ hq => ?_
  · exact ⟨hu₄, h.fits_changes hu₄ hC hcredited hchanges hrun⟩
  · refine (applyChanges_keeps fun e he => ?_).bind fun _ _ _ => trivial
    exact hq.2 e ((order.perm _).mem_iff.mp he)

end Keeps

/-! ## The block -/

section Block

variable {env : Env} {accounts : Accounts} {group : List Transaction}

/-- What runs of a group in which nobody succeeds alone leave. -/
theorem silent_of_noneSucceeds (h : NoneSucceeds env accounts group) :
    Pool.Silent (blockRounds env).code accounts (Pool.start accounts group.zipIdx) := by
  refine Pool.silent_start fun task ht order => executeSingleTransaction_silent fun receipt hok => ?_
  have halone := h task.1 (List.fst_mem_of_mem_zipIdx ht)
  rw [(executeSingleTransaction_footprints env).run] at hok
  rw [hok] at halone
  cases halone

/-- If none fails alone, none is hindered. -/
theorem unhindered_of_noneFails (h : NoneFails env accounts group) {task : Queued}
    (ht : task ∈ group.zipIdx) : Unhindered env accounts group task := by
  have hchecked := checked_of_alone (h.alone _ (List.fst_mem_of_mem_zipIdx ht))
  have hpairs := pairwise_queued h.compatible
  have hsymm : Std.Symm fun s t : Queued => Compatible env s.1 t.1 := ⟨fun _ _ => .symm⟩
  exact ⟨ht, hchecked, fun s hs hne => hpairs.forall ht hs (Ne.symm hne)⟩

/-- No run of a group in which nobody can fail has failed. -/
theorem sustained_of_noneFails (h : NoneFails env accounts group) :
    Pool.Sustained (blockRounds env).code Funded (CodeCovered env group)
      (Pool.start accounts group.zipIdx) := by
  refine Pool.sustained_start (fun address hcode tx htx hto nonce hnext => ?_)
    (fun task ht address he => ?_) fun task ht order => ?_
  · exact (checked_of_alone (h.alone tx htx)).call nonce hnext address hto hcode
  · rw [he]
    exact (unhindered_of_noneFails h ht).checked.funded
  · exact executeSingleTransaction_keeps (unhindered_of_noneFails h ht) order ⟨ht, fun _ hs => hs⟩

/-- A block in which nobody succeeds alone leaves the accounts as they are. -/
theorem memory_of_noneSucceeds (h : NoneSucceeds env accounts group) {m : Accounts}
    {result : Except StateMachineError (List TransactionReceipt)}
    (hpath : Relation.ReflTransGen (blockRounds env).Next
      (.running (Pool.start accounts group.zipIdx) [] []) (.ended m result)) : m = accounts := by
  obtain ⟨pool, hsilent, hfinish⟩ := Rounds.ended_of_last_round
    (fun _ _ hI hnext => Pool.Silent.next hI hnext) (silent_of_noneSucceeds h) hpath
  rw [finish_blockRounds] at hfinish
  injection hfinish with hmemory _
  rw [← hmemory, hsilent.memory]

/-- A block in which nobody can fail does not fail. -/
theorem not_error_of_noneFails (h : NoneFails env accounts group) {m : Accounts}
    {e : StateMachineError} : ¬ Relation.ReflTransGen (blockRounds env).Next
      (.running (Pool.start accounts group.zipIdx) [] []) (.ended m (.error e)) := by
  intro hpath
  obtain ⟨pool, ⟨hsustained, -, hsent⟩, hfinish⟩ := Rounds.ended_of_last_round
    (I := fun pool => Pool.Sustained (blockRounds env).code Funded (CodeCovered env group) pool ∧
      pool.tasks.map Prod.fst = group.zipIdx ∧ pool.sent.Perm (Pool.results pool.tasks))
    (fun pool pool' ⟨hsustained, hnames, hsent⟩ hnext =>
      ⟨hsustained.next (hnames ▸ nodup_zipIdx group) hnext,
        (Pool.tasks_fst_next hnext).trans hnames, Pool.sent_next hnext hsent⟩)
    ⟨sustained_of_noneFails h, Pool.tasks_fst_start .., Pool.sent_start ..⟩ hpath
  rw [finish_blockRounds] at hfinish
  injection hfinish with _ hreceipts
  exact hsustained.no_error (hsent.subset (collectReceipts_error hreceipts))

end Block

/-- A block that fails leaves the accounts as they were, in every interleaving, if in the
group that it executes nobody succeeds alone, or else nobody can fail. -/
theorem executeBlock_atomic {env : Env} {accounts : Accounts} {transactions : List Transaction}
    (h : NoneSucceeds env accounts
        (firstGroup (buildDependencyGraph accounts transactions) transactions) ∨
      NoneFails env accounts
        (firstGroup (buildDependencyGraph accounts transactions) transactions))
    {m : Accounts} {e : StateMachineError}
    (hpath : Relation.ReflTransGen (blockRounds env).Next
      (executeTransactionsParallel accounts transactions) (.ended m (.error e))) :
    m = accounts := by
  unfold executeTransactionsParallel executionGroups at hpath
  -- There is one group at most; without one the block has ended already.
  rw [groupByDependency_eq (deps_le accounts transactions)] at hpath
  split at hpath
  next => cases Rounds.eq_of_path_panicked hpath
  next =>
    split at hpath
    next => cases Rounds.eq_of_path_ended hpath
    next =>
      cases h with
      | inl hnone => exact memory_of_noneSucceeds hnone hpath
      | inr hnone => exact absurd hpath (not_error_of_noneFails hnone)

/-- Alice and Bob pay Carol, and Alice and Bob pay with a wrong nonce. -/
theorem executeBlock_atomic_two :
    (∀ m e, Relation.ReflTransGen (blockRounds sampleEnv).Next
      (executeTransactionsParallel sampleAccounts
        [sampleTransfer alice carol 5, sampleTransfer bob carol 7]) (.ended m (.error e)) →
      m = sampleAccounts) ∧
    ∀ m e, Relation.ReflTransGen (blockRounds sampleEnv).Next
      (executeTransactionsParallel sampleAccounts
        [{ sampleTransfer alice carol 5 with nonce := 1 },
          { sampleTransfer bob carol 7 with nonce := 1 }]) (.ended m (.error e)) →
      m = sampleAccounts := by
  refine ⟨fun m e => executeBlock_atomic (Or.inr ⟨?_, ?_⟩), fun m e =>
    executeBlock_atomic (Or.inl ?_)⟩
  · have hvalues : ∀ tx ∈ firstGroup (buildDependencyGraph sampleAccounts
        [sampleTransfer alice carol 5, sampleTransfer bob carol 7])
        [sampleTransfer alice carol 5, sampleTransfer bob carol 7],
        (executeAlone sampleEnv tx sampleAccounts).1.value ≠ none := by decide +kernel
    intro tx htx e he
    refine hvalues tx htx ?_
    rw [he]
    rfl
  · have hgroup : firstGroup (buildDependencyGraph sampleAccounts
        [sampleTransfer alice carol 5, sampleTransfer bob carol 7])
        [sampleTransfer alice carol 5, sampleTransfer bob carol 7]
        = [sampleTransfer alice carol 5, sampleTransfer bob carol 7] := by decide +kernel
    rw [hgroup, List.pairwise_pair]
    refine ⟨fun he => ?_, fun he => ?_, fun he => ?_⟩
    · revert he
      decide
    · cases he
    · cases he
  · unfold NoneSucceeds
    decide +kernel

/-- Alice's payment is done and Bob's fails. -/
def sampleFailure : List (RoundAction (IterOrder (Sigma fun _ : Address => Account))) :=
  [.worker (.recv sampleOrder), .worker (.recv sampleOrder)]
    ++ List.replicate 7 (.worker (.act 0)) ++ List.replicate 2 (.worker (.act 1)) ++ [.join]

/-- A block fails after it has taken Alice's money. -/
theorem executeBlock_half_done :
    ¬ ∀ m e, Relation.ReflTransGen (blockRounds sampleEnv).Next
      (executeTransactionsParallel sampleAccounts
        [sampleTransfer alice carol 5, { sampleTransfer bob dave 7 with nonce := 1 }])
      (.ended m (.error e)) → m = sampleAccounts := by
  intro h
  have halice := congrFun (h _ _ (Rounds.path_of_replay sampleFailure rfl)) alice
  revert halice
  decide +kernel

end InterBit.StateMachine.Block
