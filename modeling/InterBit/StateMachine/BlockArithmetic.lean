import Mathlib.Order.Lattice.Nat
import Mathlib.Algebra.Order.BigOperators.Group.Finset
import InterBit.Lib.Attribution
import InterBit.StateMachine.Block
import InterBit.StateMachine.CheckedArithmetic

/-!
# The arithmetic of a block

When `execute_block` can go without an overflow. A block without a transaction always
divides by zero, in the mean time per transaction. Otherwise an account can only grow by
what the transactions bring to it that their senders can pay for, each of them once
(`Explained`), and each raises one nonce by one. If that fits, and the data of calls and
new contracts are not too long, no operation of any interleaving overflows its type
(`executeBlock_fits`).

A sender that pays itself counts with its refund, too: it gets value and refund on a copy
of its account from which nothing has been taken.
-/

namespace InterBit.StateMachine.Block

open InterBit.Lib

/-- `blockRounds` with an executor that checks every operation. -/
def checkedRounds (env : Env) :
    Rounds Queued Address Account StateMachineError TransactionReceipt
      (IterOrder (Sigma fun _ : Address => Account)) (List TransactionReceipt)
      StateMachineError :=
  { blockRounds env with
    code := fun order task => Checked.executeSingleTransaction env order task.1 }

/-! ## What a group can bring to an account -/

/-- The most that is refunded to the sender. -/
def refund (tx : Transaction) : Nat := (tx.gasLimit.toNat - 21000) * tx.gasPrice.toNat

/-- The most that a transaction adds to an account that is there. -/
def credit (address : Address) (tx : Transaction) : Nat :=
  if tx.recipient = some address then
    tx.value.toNat + if tx.sender = address then refund tx else 0
  else 0

/-- The most that a new contract has, its creator's refund included if it is at the creator's
address. -/
def endowment (address : Address) (tx : Transaction) : Nat :=
  if tx.recipient = none then tx.value.toNat + if tx.sender = address then refund tx else 0 else 0

/-- One for a transaction from `address`. -/
def sends (address : Address) (tx : Transaction) : Nat := if tx.sender = address then 1 else 0

section Group

variable (accounts : Accounts) (group : List Transaction)

/-- The most that is at an address before anything is added: what was there before the block,
or what a new contract is given. -/
def opening (address : Address) : Nat :=
  max (balanceOf accounts address) (group.toFinset.sup (endowment address))

/-- The transaction can pass validation at some time during the block. -/
def Eligible (tx : Transaction) : Prop :=
  tx.verifySignature = true ∧ ¬ tx.gasLimit < 21000 ∧
    tx.totalCost.toNat ≤ opening accounts group tx.sender + (group.map (credit tx.sender)).sum

instance (tx : Transaction) : Decidable (Eligible accounts group tx) :=
  inferInstanceAs (Decidable (_ ∧ _ ∧ _))

/-- The transactions that can pass validation. -/
def eligible : List Transaction := group.filter fun tx => Eligible accounts group tx

/-- A contract can come to be. -/
def Creates : Prop := ∃ tx ∈ group, tx.recipient = none

instance : Decidable (Creates group) := inferInstanceAs (Decidable (∃ tx ∈ group, _))

/-- What the group can bring to the accounts fits, and so does the gas for the data. -/
structure Roomy : Prop where
  nonce : ∀ address,
    nonceOf accounts address + ((eligible accounts group).map (sends address)).sum < 2 ^ 64
  balance : ∀ address,
    opening accounts group address + ((eligible accounts group).map (credit address)).sum < 2 ^ 256
  creation : ∀ tx ∈ eligible accounts group, tx.recipient = none →
    85000 + 136 * tx.data.length < 2 ^ 64
  call : ∀ tx ∈ eligible accounts group, ∀ address, tx.recipient = some address →
    hasCode (accounts address) = true ∨ Creates group → 53000 + 68 * tx.data.length < 2 ^ 64

/-- The tasks that can write. -/
def writers : Finset Queued :=
  (group.zipIdx.filter fun task => Eligible accounts group task.1).toFinset

/-- What an account can be when the tasks of `X` have written. -/
structure Explained (X : Finset Queued) (address : Address) (account : Account) : Prop where
  nonce : account.nonce.toNat ≤ nonceOf accounts address + ∑ task ∈ X, sends address task.1
  balance : account.balance.toNat
    ≤ opening accounts group address + ∑ task ∈ X, credit address task.1
  code : account.codeHash.isSome = true → hasCode (accounts address) = true ∨ Creates group

end Group

section Explained

variable {accounts : Accounts} {group : List Transaction} {X X' : Finset Queued}
  {address : Address} {account : Account} {task : Queued}

/-- Summing over the tasks that can write is summing over the transactions. -/
theorem sum_writers (f : Transaction → Nat) :
    ∑ task ∈ writers accounts group, f task.1 = ((eligible accounts group).map f).sum := by
  have hmap : (group.zipIdx.filter fun task => Eligible accounts group task.1).map Prod.fst
      = eligible accounts group := by
    rw [eligible, ← List.zipIdx_map_fst 0 group, List.filter_map, List.zipIdx_map_fst]
    rfl
  rw [writers, List.sum_toFinset _ ((nodup_zipIdx group).filter _), ← hmap, List.map_map]
  rfl

/-- What the tasks of `X` bring, and one more. -/
theorem sum_insert_le (f : Transaction → Nat) (hX : X ⊆ writers accounts group) (ht : task ∉ X)
    (hmem : task ∈ writers accounts group) :
    ∑ task ∈ X, f task.1 + f task.1 ≤ ((eligible accounts group).map f).sum := by
  rw [← sum_writers, Nat.add_comm, ← Finset.sum_insert (f := fun t : Queued => f t.1) ht]
  exact Finset.sum_le_sum_of_subset (Finset.insert_subset hmem hX)

/-- What the tasks of `X` bring is part of what the whole group would bring. -/
theorem sum_le_sum_group (f : Transaction → Nat) (hX : X ⊆ writers accounts group) :
    ∑ task ∈ X, f task.1 ≤ (group.map f).sum := by
  have hsub : ((eligible accounts group).map f).Sublist (group.map f) :=
    List.filter_sublist.map f
  refine Nat.le_trans (Finset.sum_le_sum_of_subset hX) ?_
  rw [sum_writers]
  exact hsub.sum_le_sum fun _ _ => Nat.zero_le _

theorem Explained.mono (h : Explained accounts group X address account) (hX : X ⊆ X') :
    Explained accounts group X' address account where
  nonce := Nat.le_trans h.nonce (Nat.add_le_add_left (Finset.sum_le_sum_of_subset hX) _)
  balance := Nat.le_trans h.balance (Nat.add_le_add_left (Finset.sum_le_sum_of_subset hX) _)
  code := h.code

/-- An account that has not been written. -/
theorem explained_of_initial (h : accounts address = some account) :
    Explained accounts group ∅ address account where
  nonce := by
    rw [nonceOf, h]
    exact Nat.le_add_right _ _
  balance := by
    have hle : account.balance.toNat ≤ opening accounts group address := by
      rw [opening, balanceOf, h]
      exact Nat.le_max_left _ _
    exact Nat.le_add_right_of_le hle
  code := fun hcode => Or.inl (by rw [h]; exact hcode)

/-! ## One transaction -/

/-- What the task has to know of those who have written: it is not among them. -/
structure Unwritten (accounts : Accounts) (group : List Transaction) (task : Queued)
    (X : Finset Queued) : Prop where
  fresh : task ∉ X
  sub : X ⊆ writers accounts group
  own : task ∈ writers accounts group

/-- Some others have written meanwhile. -/
theorem Unwritten.mono (h : Unwritten accounts group task X) (hsub : X' ⊆ writers accounts group)
    (ht : task ∈ X' → task ∈ X) : Unwritten accounts group task X' :=
  ⟨fun hmem => h.fresh (ht hmem), hsub, h.own⟩

theorem Unwritten.eligible (h : Unwritten accounts group task X) :
    Eligible accounts group task.1 := by
  have hmem := List.mem_toFinset.mp h.own
  exact of_decide_eq_true (List.mem_filter.mp hmem).2

theorem Unwritten.mem (h : Unwritten accounts group task X) :
    task.1 ∈ Block.eligible accounts group := by
  have hmem := List.mem_filter.mp (List.mem_toFinset.mp h.own)
  exact List.mem_filter.mpr ⟨List.fst_mem_of_mem_zipIdx hmem.1, hmem.2⟩

/-- The next nonce of the sender fits. -/
theorem Unwritten.nonce_lt (h : Unwritten accounts group task X) (hroomy : Roomy accounts group)
    (hexplained : Explained accounts group X task.1.sender account) :
    account.nonce.toNat + 1 < 2 ^ 64 := by
  have hnonce := hexplained.nonce
  have hsum := sum_insert_le (sends task.1.sender) h.sub h.fresh h.own
  rw [show sends task.1.sender task.1 = 1 from if_pos rfl] at hsum
  have hfits := hroomy.nonce task.1.sender
  omega

/-- What the task brings to its recipient fits there. -/
theorem Unwritten.credit_lt (h : Unwritten accounts group task X) (hroomy : Roomy accounts group)
    (hexplained : Explained accounts group X address account) :
    account.balance.toNat + credit address task.1 < 2 ^ 256 := by
  have hbalance := hexplained.balance
  have hsum := sum_insert_le (credit address) h.sub h.fresh h.own
  have hfits := hroomy.balance address
  omega

/-- Whoever passes validation is among those who can. -/
theorem validateTransaction_attributed (hmem : task ∈ group.zipIdx) :
    (validateTransaction task.1).Attributed (Explained accounts group) (writers accounts group) task
      (fun _ X => Unwritten accounts group task X) ∅ := by
  unfold validateTransaction
  refine Prog.attributed_require_bind fun hsigned => ?_
  rw [getAccount_bind]
  intro X _ hsub ht v hv
  refine Prog.attributed_orFail_bind fun account haccount => ?_
  refine Prog.attributed_require_bind fun _ => Prog.attributed_require_bind fun hfunds => ?_
  have hcovered : task.1.totalCost.toNat ≤ account.balance.toNat := Nat.le_of_not_lt hfunds
  refine Prog.attributed_require fun hgas => ⟨fun hmem => ?_, hsub, ?_⟩
  · exact Finset.notMem_empty task (ht hmem)
  · have hbalance := (hv account haccount).balance
    have hsum := sum_le_sum_group (credit task.1.sender) hsub
    have heligible : Eligible accounts group task.1 := ⟨hsigned, hgas, by omega⟩
    exact List.mem_toFinset.mpr (List.mem_filter.mpr ⟨hmem, decide_eq_true heligible⟩)

/-- The refund of a transaction that has used `gasUsed`, where it goes. -/
def refundAt (tx : Transaction) (gasUsed : U64) (address : Address) : Nat :=
  if address = tx.sender then (tx.gasLimit.toNat - gasUsed.toNat) * tx.gasPrice.toNat else 0

variable (accounts group X task) in
/-- What is in hand for the recipient, or for the new contract, after `gasUsed`. -/
structure InHand (gasUsed : U64) (target : Address) (account : Account) : Prop where
  gas : 21000 ≤ gasUsed.toNat ∧ gasUsed.toNat ≤ task.1.gasLimit.toNat
  nonce : account.nonce.toNat ≤ nonceOf accounts target + ∑ task ∈ X, sends target task.1
  balance : account.balance.toNat + refundAt task.1 gasUsed target
    ≤ opening accounts group target + (∑ task ∈ X, credit target task.1 + credit target task.1)
  code : account.codeHash.isSome = true → hasCode (accounts target) = true ∨ Creates group

theorem refundAt_le {tx : Transaction} {gasUsed : U64} (hgas : 21000 ≤ gasUsed.toNat)
    (address : Address) :
    refundAt tx gasUsed address ≤ if tx.sender = address then refund tx else 0 := by
  unfold refundAt refund
  by_cases h : tx.sender = address
  · rw [if_pos h.symm, if_pos h]
    exact Nat.mul_le_mul_right _ (Nat.sub_le_sub_left hgas _)
  · rw [if_neg (Ne.symm h), if_neg h]

theorem explained_getD {v : Option Account}
    (hv : ∀ a, v = some a → Explained accounts group X address a) :
    Explained accounts group X address (v.getD default) := by
  cases v with
  | some a => exact hv a rfl
  | none => exact ⟨Nat.zero_le _, Nat.zero_le _, fun hcode => nomatch hcode⟩

/-- The recipient's account is credited. -/
theorem creditAccount_attributed (hroomy : Roomy accounts group)
    (hto : task.1.recipient = some address) {gasUsed : U64}
    (hgas : 21000 ≤ gasUsed.toNat ∧ gasUsed.toNat ≤ task.1.gasLimit.toNat)
    (h : Unwritten accounts group task X) :
    (creditAccount address task.1.value).Attributed (Explained accounts group)
      (writers accounts group) task (fun account X' => X ⊆ X' ∧ Unwritten accounts group task X' ∧
        InHand accounts group X' task gasUsed address account) X := by
  unfold creditAccount
  rw [getAccount_bind]
  intro X' hX hsub ht v hv
  have h' := h.mono hsub ht
  have hexplained := explained_getD hv
  have hfits := h'.credit_lt hroomy hexplained
  have hcredit : credit address task.1 = task.1.value.toNat
      + if task.1.sender = address then refund task.1 else 0 := if_pos hto
  have hrefund := @refundAt_le task.1 gasUsed hgas.1 address
  have hvalue := Transaction.value_toNat task.1.value
  obtain ⟨balance, hbalance⟩ :=
    Option.isSome_iff_exists.mp (addU256_isSome.mpr (show (v.getD default).balance.toNat
      + (task.1.value.setWidth 256 : U256).toNat < 2 ^ 256 by omega))
  have hsum := addU256_eq_some hbalance
  dsimp only
  rw [Prog.orPanic_bind_of hbalance]
  have hopening := hexplained.balance
  exact ⟨hX, h', hgas, hexplained.nonce, by dsimp only; omega, hexplained.code⟩

theorem Unwritten.mem_group (h : Unwritten accounts group task X) : task.1 ∈ group :=
  (List.mem_filter.mp h.mem).1

theorem le_opening {tx : Transaction} (hmem : tx ∈ group) (address : Address) :
    endowment address tx ≤ opening accounts group address :=
  Nat.le_trans (Finset.le_sup (f := endowment address) (List.mem_toFinset.mpr hmem))
    (Nat.le_max_right _ _)

/-- The account of a new contract is in hand. -/
theorem inHand_created (h : Unwritten accounts group task X) (hto : task.1.recipient = none)
    {gasUsed : U64} (hgas : 21000 ≤ gasUsed.toNat ∧ gasUsed.toNat ≤ task.1.gasLimit.toNat)
    (target : Address) (codeHash : Option H256) :
    InHand accounts group X task gasUsed target
      { (default : Account) with balance := task.1.value.setWidth 256, codeHash } where
  gas := hgas
  nonce := Nat.zero_le _
  balance := by
    have hopening := @le_opening accounts group _ h.mem_group target
    have hendowment : endowment target task.1 = task.1.value.toNat
        + if task.1.sender = target then refund task.1 else 0 := if_pos hto
    have hrefund := @refundAt_le task.1 gasUsed hgas.1 target
    rw [Transaction.value_toNat]
    omega
  code := fun _ => Or.inr ⟨task.1, h.mem_group, hto⟩

theorem processRecipient_attributed (env : Env) (hroomy : Roomy accounts group)
    (h : Unwritten accounts group task X) (fromAccount : Account) (stateChanges : StateChanges) :
    (processRecipient (checked env) task.1 fromAccount stateChanges).Attributed
      (Explained accounts group) (writers accounts group) task
      (fun pending X' => X ⊆ X' ∧ Unwritten accounts group task X' ∧ ∃ target account,
        pending.stateChanges = stateChanges.insert target account ∧
          InHand accounts group X' task pending.gasUsed target account) X := by
  have hlimit : 21000 ≤ task.1.gasLimit.toNat := Nat.le_of_not_lt h.eligible.2.1
  unfold processRecipient
  split
  next address hto =>
    rw [isContract_bind]
    intro X' hX hsub ht v hv
    have h' := h.mono hsub ht
    dsimp only
    split
    next hcode =>
      -- The account has code, so there was code before or a contract has come to be.
      have hsome : hasCode (accounts address) = true ∨ Creates group := by
        cases v with
        | none => cases hcode
        | some a => exact (hv a rfl).code hcode
      obtain ⟨gasUsed, hgas, hused⟩ :=
        @callGas_of_lt (checked env) _ (hroomy.call task.1 h.mem address hto hsome)
      rw [Prog.orPanic_bind_of hgas]
      refine Prog.attributed_require_bind fun hle => ?_
      have hcredit :=
        creditAccount_attributed hroomy hto ⟨by omega, Nat.le_of_not_lt hle⟩ h'
      refine hcredit.bind fun account X'' hq => ?_
      exact ⟨hX.trans hq.1, hq.2.1, address, account, rfl, hq.2.2⟩
    next =>
      have hcredit :=
        @creditAccount_attributed _ _ _ _ _ hroomy hto 21000 ⟨Nat.le_refl _, hlimit⟩ h'
      refine hcredit.bind fun account X'' hq => ?_
      exact ⟨hX.trans hq.1, hq.2.1, address, account, rfl, hq.2.2⟩
  next hto =>
    obtain ⟨gasUsed, hgas, hused⟩ :=
      @creationGas_of_lt (checked env) _ (hroomy.creation task.1 h.mem hto)
    rw [Prog.orPanic_bind_of hgas]
    refine Prog.attributed_require_bind fun hle => ?_
    exact ⟨fun _ hx => hx, h, _, _, rfl,
      inHand_created h hto ⟨by omega, Nat.le_of_not_lt hle⟩ _ _⟩

/-- What is in hand for the recipient can be written, with the refund where it goes. -/
theorem InHand.explained {gasUsed : U64} {target : Address}
    (hhand : InHand accounts group X task gasUsed target account)
    (h : Unwritten accounts group task X) {balance : U256}
    (hbalance : balance.toNat = account.balance.toNat + refundAt task.1 gasUsed target) :
    Explained accounts group (insert task X) target { account with balance } where
  nonce := by
    rw [Finset.sum_insert h.fresh]
    exact Nat.le_trans hhand.nonce (Nat.add_le_add_left (Nat.le_add_left _ _) _)
  balance := by
    have hle := hhand.balance
    rw [Finset.sum_insert h.fresh]
    dsimp only
    omega
  code := hhand.code

/-- The debited sender can be written, with the refund. -/
theorem explained_debited (h : Unwritten accounts group task X) {nonce : U64} {balance : U256}
    (hexplained : Explained accounts group X task.1.sender account)
    (hnonce : nonce.toNat = account.nonce.toNat + 1)
    (hbalance : balance.toNat ≤ account.balance.toNat) :
    Explained accounts group (insert task X) task.1.sender { account with balance, nonce } where
  nonce := by
    have hle := hexplained.nonce
    rw [Finset.sum_insert h.fresh, show sends task.1.sender task.1 = 1 from if_pos rfl]
    dsimp only
    omega
  balance := by
    have hle := hexplained.balance
    rw [Finset.sum_insert h.fresh]
    dsimp only
    omega
  code := hexplained.code

/-- If the refund fits, it is given. -/
theorem exists_refundGas {tx : Transaction} {gasUsed : U64} {stateChanges : StateChanges}
    {base : Account} (hbase : stateChanges.lookup tx.sender = some base)
    (hfits : base.balance.toNat + (tx.gasLimit - gasUsed).toNat * tx.gasPrice.toNat < 2 ^ 256) :
    ∃ changes, ∃ balance : U256, refundGas tx gasUsed stateChanges = .ret changes ∧
      balance.toNat = base.balance.toNat + (tx.gasLimit - gasUsed).toNat * tx.gasPrice.toNat ∧
      ∀ address, changes.lookup address = if address = tx.sender then some { base with balance }
        else stateChanges.lookup address := by
  have hret : ∃ changes, refundGas tx gasUsed stateChanges = .ret changes := by
    unfold refundGas
    dsimp only
    split
    next =>
      rw [← Transaction.gas_mul_toNat] at hfits
      obtain ⟨balance, hbalance⟩ := Option.isSome_iff_exists.mp (addU256_isSome.mpr hfits)
      refine ⟨stateChanges.insert tx.sender { base with balance }, ?_⟩
      rw [hbase, Prog.orPanic_bind_of rfl, Prog.orPanic_bind_of hbalance]
      rfl
    next => exact ⟨stateChanges, rfl⟩
  obtain ⟨changes, hret⟩ := hret
  have hrun : (refundGas tx gasUsed stateChanges).run (fun _ => none)
      = (.ok changes, fun _ => none) := by
    rw [hret]
    rfl
  obtain ⟨balance, hbalance, hlookup⟩ := refundGas_ok hbase hrun
  exact ⟨changes, balance, hret, hbalance, hlookup⟩

/-- The writes at the end. -/
theorem applyChanges_attributed {entries : List (Sigma fun _ : Address => Account)}
    (hown : task ∈ writers accounts group) :
    ∀ {X : Finset Queued},
      (∀ e ∈ entries, Explained accounts group (insert task X) e.1 e.2) →
      (applyChanges entries).Attributed (Explained accounts group) (writers accounts group) task
        (fun _ _ => True) X := by
  induction entries with
  | nil => exact fun _ => trivial
  | cons e entries ih =>
    intro X h
    obtain ⟨he, hrest⟩ := List.forall_mem_cons.mp h
    refine ⟨hown, he, ih fun e' he' => ?_⟩
    rw [Finset.insert_idem]
    exact hrest e' he'

/-- The refund fits where the recipient's account is in hand. -/
theorem InHand.fits {gasUsed : U64} {target : Address}
    (hhand : InHand accounts group X task gasUsed target account)
    (h : Unwritten accounts group task X) (hroomy : Roomy accounts group) :
    account.balance.toNat + refundAt task.1 gasUsed target < 2 ^ 256 := by
  have hle := hhand.balance
  have hsum := sum_insert_le (credit target) h.sub h.fresh h.own
  have hfits := hroomy.balance target
  omega

/-- The refund goes to the sender's entry; the others stay. -/
theorem refundGas_of_base {gasUsed : U64} {stateChanges : StateChanges} {base : Account}
    (hbase : stateChanges.lookup task.1.sender = some base)
    (hfits : base.balance.toNat + (task.1.gasLimit - gasUsed).toNat * task.1.gasPrice.toNat
      < 2 ^ 256)
    (hown : ∀ balance : U256, balance.toNat = base.balance.toNat
        + (task.1.gasLimit - gasUsed).toNat * task.1.gasPrice.toNat →
      Explained accounts group X' task.1.sender { base with balance })
    (hothers : ∀ address account, address ≠ task.1.sender →
      stateChanges.lookup address = some account → Explained accounts group X' address account) :
    (refundGas task.1 gasUsed stateChanges).Attributed (Explained accounts group)
      (writers accounts group) task (fun changes X₁ => X₁ = X ∧
        ∀ e ∈ changes.entries, Explained accounts group X' e.1 e.2) X := by
  obtain ⟨changes, refunded, hret, hrefunded, hlookup⟩ := exists_refundGas hbase hfits
  rw [hret]
  refine ⟨rfl, fun e he => ?_⟩
  have hfound : changes.lookup e.1 = some e.2 := AList.mem_lookup_iff.mpr he
  rw [hlookup] at hfound
  split at hfound
  next hs =>
    rw [← Option.some.inj hfound, hs]
    exact hown refunded hrefunded
  next hs => exact hothers e.1 e.2 hs hfound

/-- The gas is refunded, and all changes can be written. -/
theorem refundGas_attributed (h : Unwritten accounts group task X) (hroomy : Roomy accounts group)
    {gasUsed : U64} {target : Address} {credited : Account} {balance : U256} {nonce : U64}
    (hexplained : Explained accounts group X task.1.sender account)
    (hnonce : nonce.toNat = account.nonce.toNat + 1)
    (hdebited : balance.toNat + task.1.totalCost.toNat = account.balance.toNat)
    (hhand : InHand accounts group X task gasUsed target credited) :
    (refundGas task.1 gasUsed ((AList.insert task.1.sender { account with balance, nonce }
      (∅ : StateChanges)).insert target credited)).Attributed (Explained accounts group)
      (writers accounts group) task (fun changes X' => X' = X ∧
        ∀ e ∈ changes.entries, Explained accounts group (insert task X) e.1 e.2) X := by
  have hback : (task.1.gasLimit - gasUsed).toNat = task.1.gasLimit.toNat - gasUsed.toNat :=
    BitVec.toNat_sub_of_le (BitVec.le_def.mpr hhand.gas.2)
  by_cases hself : target = task.1.sender
  · -- The sender's entry is the credited one.
    subst hself
    have hrefund : refundAt task.1 gasUsed task.1.sender
        = (task.1.gasLimit - gasUsed).toNat * task.1.gasPrice.toNat := by
      rw [refundAt, if_pos rfl, hback]
    refine refundGas_of_base (AList.lookup_insert _) (hrefund ▸ hhand.fits h hroomy)
      (fun refunded hrefunded => hhand.explained h (hrefund ▸ hrefunded))
      fun address account' hs hfound => ?_
    rw [AList.lookup_insert_ne hs, AList.lookup_insert_ne hs] at hfound
    cases hfound
  · -- The sender's entry is the debited one, and the refund is less than what was taken.
    have hcost := task.1.totalCost_toNat
    have hless : (task.1.gasLimit - gasUsed).toNat * task.1.gasPrice.toNat
        ≤ task.1.gasLimit.toNat * task.1.gasPrice.toNat :=
      Nat.mul_le_mul_right _ (hback ▸ Nat.sub_le _ _)
    have hbase : ((AList.insert task.1.sender { account with balance, nonce }
        (∅ : StateChanges)).insert target credited).lookup task.1.sender
        = some { account with balance, nonce } := by
      rw [AList.lookup_insert_ne (Ne.symm hself), AList.lookup_insert]
    have hlt := account.balance.isLt
    refine refundGas_of_base hbase
      (show balance.toNat + (task.1.gasLimit - gasUsed).toNat * task.1.gasPrice.toNat < 2 ^ 256 by
        omega)
      (fun refunded hrefunded => ?_) fun address account' hs hfound => ?_
    · dsimp only at hrefunded
      have hwritten : Explained accounts group (insert task X) task.1.sender
          { account with balance := refunded, nonce } :=
        explained_debited h hexplained hnonce (by omega)
      exact hwritten
    · by_cases ht : address = target
      · rw [ht, AList.lookup_insert] at hfound
        obtain rfl := Option.some.inj hfound
        rw [ht]
        refine hhand.explained h ?_
        rw [refundAt, if_neg hself, Nat.add_zero]
      · rw [AList.lookup_insert_ne ht, AList.lookup_insert_ne hs] at hfound
        cases hfound

/-- Whatever the others do, no operation of the transaction overflows up to its writes, and
what it is going to write is as the accounts can be after it. -/
theorem prepareTransaction_attributed (env : Env) (hroomy : Roomy accounts group)
    (hmem : task ∈ group.zipIdx) :
    (prepareTransaction (checked env) task.1).Attributed (Explained accounts group)
      (writers accounts group) task (fun prepared X => task ∈ writers accounts group ∧
        ∀ e ∈ prepared.1.entries, Explained accounts group (insert task X) e.1 e.2) ∅ := by
  unfold prepareTransaction
  refine (validateTransaction_attributed hmem).bind fun _ X h => ?_
  -- The sender is read once more, and may be another one than the one that was validated.
  rw [getAccount_bind]
  intro X₁ hX hsub ht v hv
  have h₁ := h.mono hsub ht
  refine Prog.attributed_orFail_bind fun account haccount => ?_
  have hexplained := hv account haccount
  refine Prog.attributed_require_bind fun hfunds => ?_
  have hcovered : task.1.totalCost.toNat ≤ account.balance.toNat := Nat.le_of_not_lt hfunds
  obtain ⟨nonce, hnext, hnonce⟩ := @add64_of_lt (checked env) account.nonce 1
    (h₁.nonce_lt hroomy hexplained)
  rw [Prog.orPanic_bind_of hnext]
  refine (processRecipient_attributed env hroomy h₁ _ _).bind fun pending X' hq => ?_
  obtain ⟨hX', h', target, credited, hchanges, hhand⟩ := hq
  rw [hchanges]
  have hdebited : (account.balance - task.1.totalCost).toNat + task.1.totalCost.toNat
      = account.balance.toNat := by
    rw [BitVec.toNat_sub_of_le (BitVec.le_def.mpr hcovered), Nat.sub_add_cancel hcovered]
  refine (refundGas_attributed h' hroomy (hexplained.mono hX') hnonce hdebited hhand).bind
    fun changes X hq => ?_
  obtain ⟨rfl, hentries⟩ := hq
  exact ⟨h'.own, hentries⟩

/-- Whatever the others do, no operation of the transaction overflows, and it leaves accounts
as they can be after it. -/
theorem executeSingleTransaction_attributed (env : Env) (hroomy : Roomy accounts group)
    (hmem : task ∈ group.zipIdx) (order : IterOrder (Sigma fun _ : Address => Account)) :
    (Checked.executeSingleTransaction env order task.1).Attributed (Explained accounts group)
      (writers accounts group) task (fun _ _ => True) ∅ := by
  rw [Checked.executeSingleTransaction_eq]
  unfold executeSingleTransaction
  refine (prepareTransaction_attributed env hroomy hmem).bind fun prepared X hq => ?_
  obtain ⟨hown, hentries⟩ := hq
  refine (applyChanges_attributed hown fun e he => ?_).bind fun _ _ _ => trivial
  exact hentries e ((order.perm _).mem_iff.mp he)

end Explained

/-! ## The block -/

section Block

variable {env : Env} {accounts : Accounts} {group : List Transaction}

/-- In a group that fits, no worker ever panics. -/
theorem not_panicked_of_roomy (hroomy : Roomy accounts group)
    {state : RoundState Queued Address Account StateMachineError TransactionReceipt
      (List TransactionReceipt) StateMachineError}
    (hpath : Relation.ReflTransGen (checkedRounds env).Next
      (.running (Pool.start accounts group.zipIdx) [] []) state) : state ≠ .panicked := by
  refine Rounds.not_panicked_of_last_round
    (I := fun pool => Pool.Attributed (Explained accounts group) (writers accounts group)
      (checkedRounds env).code pool ∧ pool.tasks.map Prod.fst = group.zipIdx)
    (fun pool pool' hI hnext => ?_) (fun pool hI => hI.1.not_crashed) ?_ hpath
  · obtain ⟨hattributed, hnames⟩ := hI
    exact ⟨hattributed.next (fun _ _ _ _ hX hexplained => hexplained.mono hX)
      (hnames ▸ nodup_zipIdx group) hnext, (Pool.tasks_fst_next hnext).trans hnames⟩
  · refine ⟨Pool.attributed_start (fun _ _ => explained_of_initial) fun task ht order => ?_,
      Pool.tasks_fst_start ..⟩
    exact executeSingleTransaction_attributed env hroomy ht order

end Block

/-- A block with a transaction, in which what the executed group can bring to the accounts
fits, does not divide by zero and has no overflow, in every interleaving. -/
theorem executeBlock_fits {env : Env} {accounts : Accounts} {transactions : List Transaction}
    (hne : transactions ≠ [])
    (hroomy : Roomy accounts
      (firstGroup (buildDependencyGraph accounts transactions) transactions))
    {state : RoundState Queued Address Account StateMachineError TransactionReceipt
      (List TransactionReceipt) StateMachineError}
    (hpath : Relation.ReflTransGen (checkedRounds env).Next
      (executeTransactionsParallel accounts transactions) state) :
    state ≠ .panicked := by
  unfold executeTransactionsParallel executionGroups at hpath
  rw [if_neg fun he => hne (List.isEmpty_iff.mp he),
    groupByDependency_eq (deps_le accounts transactions)] at hpath
  split at hpath
  next =>
    -- Nobody is executed.
    rw [Rounds.eq_of_path_ended hpath]
    exact fun he => nomatch he
  next => exact not_panicked_of_roomy hroomy hpath

section Distinct

variable {accounts : Accounts} {group : List Transaction}

/-- Where no contract comes to be, an account starts with what it had. -/
theorem opening_of_not_creates (h : ¬ Creates group) (address : Address) :
    opening accounts group address = balanceOf accounts address := by
  have hsup : group.toFinset.sup (endowment address) = 0 := by
    refine Nat.eq_zero_of_le_zero (Finset.sup_le fun tx htx => ?_)
    rw [endowment, if_neg fun hto => h ⟨tx, List.mem_toFinset.mp htx, hto⟩]
  rw [opening, hsup, Nat.max_zero]

/-- Nothing comes to an account that nobody pays. -/
theorem sum_credit_eq_zero {address : Address} {l : List Transaction}
    (h : ∀ tx ∈ l, tx.recipient ≠ some address) : (l.map (credit address)).sum = 0 := by
  refine List.sum_eq_zero fun n hn => ?_
  obtain ⟨tx, htx, rfl⟩ := List.mem_map.mp hn
  exact if_neg (h tx htx)

/-- Distinct senders send once each. -/
theorem sum_sends_le_one {l : List Transaction} (h : l.Pairwise fun s t => s.sender ≠ t.sender)
    (address : Address) : (l.map (sends address)).sum ≤ 1 := by
  induction l with
  | nil => exact Nat.zero_le 1
  | cons tx l ih =>
    obtain ⟨hhead, hrest⟩ := List.pairwise_cons.mp h
    rw [List.map_cons, List.sum_cons]
    by_cases hs : tx.sender = address
    · have hzero : (l.map (sends address)).sum = 0 := by
        refine List.sum_eq_zero fun n hn => ?_
        obtain ⟨t, ht, rfl⟩ := List.mem_map.mp hn
        exact if_neg fun he => hhead t ht (hs.trans he.symm)
      rw [hzero, sends, if_pos hs]
    · rw [sends, if_neg hs, Nat.zero_add]
      exact ih hrest

/-- Who can pass validation, and is paid by nobody, pays what it has. -/
theorem credit_le_of_eligible {address : Address} {tx : Transaction} (hcreates : ¬ Creates group)
    (hunpaid : ∀ s ∈ group, s.recipient ≠ some tx.sender) (hne : tx.sender ≠ address)
    (h : Eligible accounts group tx) : credit address tx ≤ balanceOf accounts tx.sender := by
  have hcost := h.2.2
  rw [opening_of_not_creates hcreates, sum_credit_eq_zero hunpaid, tx.totalCost_toNat] at hcost
  rw [credit, if_neg hne]
  split
  next => omega
  next => exact Nat.zero_le _

/-- In a state whose balances fit together and whose nonces are not at their end, transfers
and calls fit whose senders are distinct and are paid by nobody. -/
theorem roomy_of_distinct (htotal : totalSupply accounts < 2 ^ 256)
    (hnonces : ∀ address, nonceOf accounts address < 2 ^ 64 - 1)
    (hsenders : group.Pairwise fun s t => s.sender ≠ t.sender)
    (hunpaid : ∀ s ∈ group, ∀ t ∈ group, s.recipient ≠ some t.sender)
    (hcreates : ¬ Creates group) (hdata : ∀ tx ∈ group, 53000 + 68 * tx.data.length < 2 ^ 64) :
    Roomy accounts group where
  nonce address := by
    have hsends := sum_sends_le_one (hsenders.filter fun tx => Eligible accounts group tx) address
    have hnonce := hnonces address
    unfold eligible
    omega
  balance address := by
    rw [opening_of_not_creates hcreates]
    by_cases hsender : ∃ tx ∈ group, tx.sender = address
    · obtain ⟨t, ht, rfl⟩ := hsender
      have hzero : ((eligible accounts group).map (credit t.sender)).sum = 0 :=
        sum_credit_eq_zero fun tx htx => hunpaid tx (List.mem_filter.mp htx).1 t ht
      rw [hzero]
      exact ((accounts t.sender).getD default).balance.isLt
    · -- The payers are others, each of them once, and pay what they have.
      have hpaid : ((eligible accounts group).map (credit address)).sum
          ≤ ((eligible accounts group).map fun tx => balanceOf accounts tx.sender).sum := by
        refine List.sum_le_sum fun tx htx => ?_
        obtain ⟨hmem, heligible⟩ := List.mem_filter.mp htx
        exact credit_le_of_eligible hcreates (fun s hs => hunpaid s hs tx hmem)
          (fun he => hsender ⟨tx, hmem, he⟩) (of_decide_eq_true heligible)
      have hnodup : (address :: (eligible accounts group).map (·.sender)).Nodup := by
        refine List.nodup_cons.mpr ⟨fun hmem => ?_, ?_⟩
        · obtain ⟨tx, htx, he⟩ := List.mem_map.mp hmem
          exact hsender ⟨tx, (List.mem_filter.mp htx).1, he⟩
        · exact List.pairwise_map.mpr (hsenders.filter fun tx => Eligible accounts group tx)
      calc balanceOf accounts address + ((eligible accounts group).map (credit address)).sum
          ≤ ((address :: (eligible accounts group).map (·.sender)).map
              (balanceOf accounts)).sum := by
            rw [List.map_cons, List.sum_cons, List.map_map]
            exact Nat.add_le_add_left hpaid _
        _ ≤ totalSupply accounts := by
            rw [← List.sum_toFinset _ hnodup]
            exact Finset.sum_le_sum_of_subset (Finset.subset_univ _)
        _ < 2 ^ 256 := htotal
  creation tx htx hto := absurd ⟨tx, (List.mem_filter.mp htx).1, hto⟩ hcreates
  call tx htx _ _ _ := hdata tx (List.mem_filter.mp htx).1

end Distinct

/-- Alice and Bob both pay Carol. -/
theorem executeBlock_fits_carol :
    ¬ Relation.ReflTransGen (checkedRounds sampleEnv).Next
      (executeTransactionsParallel sampleAccounts
        [sampleTransfer alice carol 5, sampleTransfer bob carol 7]) .panicked := by
  have hgroup : firstGroup (buildDependencyGraph sampleAccounts
      [sampleTransfer alice carol 5, sampleTransfer bob carol 7])
      [sampleTransfer alice carol 5, sampleTransfer bob carol 7]
      = [sampleTransfer alice carol 5, sampleTransfer bob carol 7] := by decide +kernel
  have hothers : ∀ address ∈ (Finset.univ.erase alice).erase bob,
      balanceOf sampleAccounts address = 0 := by
    intro address hmem
    obtain ⟨hbob, hrest⟩ := Finset.mem_erase.mp hmem
    unfold balanceOf sampleAccounts
    rw [if_neg (not_or.mpr ⟨(Finset.mem_erase.mp hrest).1, hbob⟩)]
    rfl
  intro hpath
  refine executeBlock_fits (List.cons_ne_nil _ _) ?_ hpath rfl
  rw [hgroup]
  refine roomy_of_distinct ?_ (fun address => ?_) (by decide) (by decide) (by decide) (by decide)
  · rw [totalSupply_eq sampleAccounts (show bob ≠ alice by decide),
      Finset.sum_eq_zero hothers]
    decide
  · unfold nonceOf sampleAccounts
    split <;> decide

/-- Alice has all the money there can be, and pays herself. What she is paid is added to a copy
of her account from which nothing has been taken. -/
example : Relation.ReflTransGen (checkedRounds sampleEnv).Next
    (executeTransactionsParallel
      (fun address => if address = alice then
        some { (default : Account) with balance := BitVec.allOnes 256 } else none)
      [sampleTransfer alice alice 5]) .panicked :=
  Rounds.path_of_replay
    (.worker (.recv sampleOrder) :: (List.replicate 5 (.worker (.act 0)) ++ [.crash])) rfl

/-- A block without a transaction divides by zero. -/
theorem executeBlock_divides_by_zero :
    ¬ ∀ (env : Env) (accounts : Accounts) (transactions : List Transaction),
      totalSupply accounts < 2 ^ 256 → (∀ address, nonceOf accounts address < 2 ^ 64 - 1) →
      ∀ state, Relation.ReflTransGen (checkedRounds env).Next
        (executeTransactionsParallel accounts transactions) state → state ≠ .panicked := by
  intro h
  have hempty : ∀ address, balanceOf (fun _ => none) address = 0 := fun _ => rfl
  refine h sampleEnv (fun _ => none) [] ?_ (fun _ => ?_) .panicked .refl rfl
  · rw [totalSupply, Finset.sum_eq_zero fun address _ => hempty address]
    decide
  · show 0 < 2 ^ 64 - 1
    decide

end InterBit.StateMachine.Block
