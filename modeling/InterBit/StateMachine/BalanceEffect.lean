import Mathlib.Algebra.BigOperators.Group.Finset.Basic
import Mathlib.Data.FinEnum
import InterBit.StateMachine.Settlement

/-!
# The balance effect of a transaction

`ExactEffect` is what a transaction should do to the accounts: one step of the
sender's nonce, the value from the sender to the target, the gas from the sender
to nobody, nothing else.

`exactEffect_iff` says when a successful `execute_single_transaction` does it.
- If the target is the sender, the target's copy of the account replaces the
  debited one in `state_changes`: the nonce stays, and value and refund are money
  out of nothing.
- A new contract starts from `Account::default()`, so what its address held
  before is lost.
- Without overflow checks the last nonce wraps to 0.
Otherwise the effect is exact.
-/

namespace InterBit.StateMachine

open InterBit.Lib

instance : Finite Address :=
  Finite.of_injective (fun (address : Address) (i : Fin 20) => address[i]) fun a b h =>
    Vector.ext fun i hi => congrFun h ⟨i, hi⟩

noncomputable instance : Fintype Address := Fintype.ofFinite Address

/-- The balance at an address, 0 where there is no account. -/
def balanceOf (accounts : Accounts) (address : Address) : Nat :=
  ((accounts address).getD default).balance.toNat

/-- The nonce at an address. -/
def nonceOf (accounts : Accounts) (address : Address) : Nat :=
  ((accounts address).getD default).nonce.toNat

/-- The sum of all balances. -/
noncomputable def totalSupply (accounts : Accounts) : Nat := ∑ address, balanceOf accounts address

/-- The recipient, or the address at which the transaction creates a contract. -/
def Transaction.target (env : Env) (tx : Transaction) : Address :=
  tx.recipient.getD (calculateContractAddress env tx.sender tx.nonce)

/-- What a transaction that has succeeded with `receipt` should have done. -/
structure ExactEffect (env : Env) (tx : Transaction) (accounts accounts' : Accounts)
    (receipt : TransactionReceipt) : Prop where
  nonce : nonceOf accounts' tx.sender = nonceOf accounts tx.sender + 1
  sender : balanceOf accounts' tx.sender + (if tx.target env = tx.sender then 0 else tx.value.toNat)
    + receipt.gasUsed.toNat * tx.gasPrice.toNat = balanceOf accounts tx.sender
  target : tx.target env ≠ tx.sender →
    balanceOf accounts' (tx.target env) = balanceOf accounts (tx.target env) + tx.value.toNat
  others : ∀ address, address ≠ tx.sender → address ≠ tx.target env →
    accounts' address = accounts address
  supply : totalSupply accounts' + receipt.gasUsed.toNat * tx.gasPrice.toNat
    = totalSupply accounts

/-- The sum of all balances, with two of them taken out. -/
theorem totalSupply_eq (accounts : Accounts) {a b : Address} (hab : b ≠ a) :
    totalSupply accounts = balanceOf accounts a + (balanceOf accounts b
      + ∑ address ∈ (Finset.univ.erase a).erase b, balanceOf accounts address) := by
  rw [totalSupply, ← Finset.add_sum_erase _ _ (Finset.mem_univ a),
    ← Finset.add_sum_erase _ _ (Finset.mem_erase.mpr ⟨hab, Finset.mem_univ b⟩)]

namespace Credited

variable {env : Env} {accounts : Accounts} {tx : Transaction} {nonce gasUsed : U64}
  {target : Address} {credited : Account} {logs : List String}

/-- The gas used is within the limit. -/
theorem gas_le (h : Credited env accounts tx nonce target credited gasUsed logs)
    (hmin : 21000 ≤ tx.gasLimit.toNat) : gasUsed.toNat ≤ tx.gasLimit.toNat := by
  cases h with
  | call _ _ _ _ hle _ => exact hle
  | transfer _ _ _ => exact hmin
  | create _ _ _ _ hle => exact hle

/-- With a recipient, the credited account is the recipient's with the value added. -/
theorem of_recipient (h : Credited env accounts tx nonce target credited gasUsed logs)
    {address : Address} (hr : tx.recipient = some address) :
    target = address ∧
      credited.balance.toNat = balanceOf accounts address + tx.value.toNat ∧
      credited.nonce.toNat = nonceOf accounts address ∧
      credited.codeHash.isSome = hasCode (accounts address) := by
  have hcode : ∀ a : Option Account, (a.getD default).codeHash.isSome = hasCode a := by
    intro a
    cases a <;> rfl
  cases h with
  | call hto _ _ _ _ hb =>
    obtain rfl := Option.some.inj (hr.symm.trans hto)
    refine ⟨rfl, ?_, rfl, hcode _⟩
    rw [addU256_eq_some hb, Transaction.value_toNat]
    rfl
  | transfer hto _ hb =>
    obtain rfl := Option.some.inj (hr.symm.trans hto)
    refine ⟨rfl, ?_, rfl, hcode _⟩
    rw [addU256_eq_some hb, Transaction.value_toNat]
    rfl
  | create hto _ _ _ _ =>
    rw [hr] at hto
    cases hto

/-- Without one, it is a new account with the value. -/
theorem of_creation (h : Credited env accounts tx nonce target credited gasUsed logs)
    (hr : tx.recipient = none) :
    target = calculateContractAddress env tx.sender (nonce - 1) ∧
      credited.balance.toNat = tx.value.toNat ∧ credited.nonce.toNat = 0 := by
  cases h with
  | call hto _ _ _ _ _ =>
    rw [hr] at hto
    cases hto
  | transfer hto _ _ =>
    rw [hr] at hto
    cases hto
  | create _ _ _ _ _ =>
    refine ⟨rfl, Transaction.value_toNat _, rfl⟩

end Credited

namespace Settlement

variable {env : Env} {accounts : Accounts} {tx : Transaction}

theorem target_eq (s : Settlement env accounts tx) : s.target = tx.target env := by
  unfold Transaction.target
  cases hr : tx.recipient with
  | some address => exact (s.credit.of_recipient hr).1
  | none =>
    rw [(s.credit.of_creation hr).1, (Build.add64_eq_some s.next_nonce).1, s.nonce_eq,
      Option.getD_none, BitVec.add_sub_cancel]

theorem nonceOf_sender (s : Settlement env accounts tx) :
    nonceOf accounts tx.sender = tx.nonce.toNat := by
  rw [nonceOf, s.found, Option.getD_some, s.nonce_eq]

theorem balanceOf_sender (s : Settlement env accounts tx) :
    balanceOf accounts tx.sender = s.account.balance.toNat := by
  rw [balanceOf, s.found, Option.getD_some]

theorem final_sender (s : Settlement env accounts tx) :
    s.final tx.sender = some { s.senderBase with balance := s.balance } := Function.update_self ..

theorem final_target (s : Settlement env accounts tx) (ht : s.target ≠ tx.sender) :
    s.final s.target = some s.credited := by
  rw [final, Function.update_of_ne ht, Function.update_self]

theorem final_of_ne (s : Settlement env accounts tx) {address : Address}
    (hs : address ≠ tx.sender) (ht : address ≠ s.target) :
    s.final address = accounts address := by
  rw [final, Function.update_of_ne hs, Function.update_of_ne ht]

/-- If the target is another account, the sender pays value and gas. -/
theorem balanceOf_final_sender (s : Settlement env accounts tx) (ht : s.target ≠ tx.sender) :
    balanceOf s.final tx.sender + tx.value.toNat + s.gasUsed.toNat * tx.gasPrice.toNat
      = balanceOf accounts tx.sender := by
  have hle := s.credit.gas_le s.gasLimit_ge
  have hcovered := s.covered
  have hrefund := s.refund
  rw [if_neg ht, BitVec.toNat_sub_of_le hcovered, BitVec.toNat_sub_of_le hle,
    Nat.sub_mul] at hrefund
  have hmul := Nat.mul_le_mul_right tx.gasPrice.toNat hle
  rw [balanceOf, s.final_sender, Option.getD_some, s.balanceOf_sender]
  rw [Transaction.totalCost_toNat] at hcovered hrefund
  dsimp only
  omega

/-- Its nonce grows by one, unless it wraps. -/
theorem nonceOf_final_sender (s : Settlement env accounts tx) (ht : s.target ≠ tx.sender)
    (hwrap : env.overflowChecks = true ∨ tx.nonce.toNat + 1 < 2 ^ 64) :
    nonceOf s.final tx.sender = nonceOf accounts tx.sender + 1 := by
  obtain ⟨hnonce, hchecked⟩ := Build.add64_eq_some s.next_nonce
  rw [s.nonce_eq] at hnonce hchecked
  have hlt : tx.nonce.toNat + 1 < 2 ^ 64 := hwrap.elim hchecked id
  rw [s.nonceOf_sender, nonceOf, s.final_sender, Option.getD_some, senderBase, if_neg ht]
  dsimp only
  rw [hnonce, BitVec.toNat_add, Nat.mod_eq_of_lt]
  · rfl
  · exact hlt

/-- If the target is the sender, its nonce does not grow. -/
theorem nonceOf_final_sender_ne (s : Settlement env accounts tx) (ht : s.target = tx.sender) :
    nonceOf s.final tx.sender ≠ nonceOf accounts tx.sender + 1 := by
  rw [nonceOf, s.final_sender, Option.getD_some, senderBase, if_pos ht]
  dsimp only
  cases hr : tx.recipient with
  | some address =>
    obtain ⟨htarget, -, hnonce, -⟩ := s.credit.of_recipient hr
    rw [hnonce, ← htarget, ht]
    omega
  | none =>
    rw [(s.credit.of_creation hr).2.2]
    omega

/-- The target keeps its nonce, or has nonce 0 if it is created. -/
theorem nonceOf_final_target (s : Settlement env accounts tx) (ht : s.target ≠ tx.sender)
    (hfresh : tx.recipient = none → nonceOf accounts s.target = 0) :
    nonceOf s.final s.target = nonceOf accounts s.target := by
  rw [nonceOf, s.final_target ht, Option.getD_some]
  cases hr : tx.recipient with
  | some address =>
    obtain ⟨htarget, -, hnonce, -⟩ := s.credit.of_recipient hr
    rw [hnonce, htarget]
  | none => rw [(s.credit.of_creation hr).2.2, hfresh hr]

/-- A contract that is created has the value for a balance. -/
theorem balanceOf_final_target (s : Settlement env accounts tx) (ht : s.target ≠ tx.sender) :
    balanceOf s.final s.target
      = (if tx.recipient = none then 0 else balanceOf accounts s.target) + tx.value.toNat := by
  rw [balanceOf, s.final_target ht, Option.getD_some]
  cases hr : tx.recipient with
  | some address =>
    obtain ⟨htarget, hbalance, -, -⟩ := s.credit.of_recipient hr
    rw [if_neg (Option.some_ne_none _), hbalance, htarget]
  | none => rw [if_pos rfl, (s.credit.of_creation hr).2.1, Nat.zero_add]

end Settlement

/-- A transaction that succeeds has the exact effect if and only if its target is
not its sender, a contract it creates finds no balance at its address, and the
nonce does not wrap. -/
theorem exactEffect_iff {env : Env} {order : IterOrder (Sigma fun _ : Address => Account)}
    {tx : Transaction} {accounts accounts' : Accounts} {receipt : TransactionReceipt}
    (h : (executeSingleTransaction env order tx).run accounts = (.ok receipt, accounts')) :
    ExactEffect env tx accounts accounts' receipt ↔
      tx.target env ≠ tx.sender ∧
      (tx.recipient = none → balanceOf accounts (tx.target env) = 0) ∧
      (env.overflowChecks = true ∨ tx.nonce.toNat + 1 < 2 ^ 64) := by
  obtain ⟨s, rfl, rfl⟩ := executeSingleTransaction_ok h
  rw [← s.target_eq]
  constructor
  · intro heffect
    have hnonce := heffect.nonce
    have htarget := heffect.target
    rw [← s.target_eq] at htarget
    -- the recipient's entry would overwrite the raised nonce
    have ht : s.target ≠ tx.sender := fun ht => s.nonceOf_final_sender_ne ht hnonce
    refine ⟨ht, fun hr => ?_, Or.inr ?_⟩
    · have hbalance := htarget ht
      rw [s.balanceOf_final_target ht, if_pos hr] at hbalance
      omega
    · rw [s.nonceOf_sender, nonceOf] at hnonce
      rw [← hnonce]
      exact BitVec.isLt _
  · rintro ⟨ht, hfresh, hwrap⟩
    have hsender := s.balanceOf_final_sender ht
    have htarget : balanceOf s.final s.target = balanceOf accounts s.target + tx.value.toNat := by
      rw [s.balanceOf_final_target ht]
      split
      next hr => rw [hfresh hr]
      next => rfl
    refine ⟨s.nonceOf_final_sender ht hwrap, ?_, ?_, ?_, ?_⟩
    · rw [← s.target_eq, if_neg ht]
      exact hsender
    · rw [← s.target_eq]
      exact fun _ => htarget
    · rw [← s.target_eq]
      exact fun address hs hto => s.final_of_ne hs hto
    -- what is neither the sender nor the target keeps its balance
    · have hrest : ∑ address ∈ (Finset.univ.erase tx.sender).erase s.target,
          balanceOf s.final address
            = ∑ address ∈ (Finset.univ.erase tx.sender).erase s.target,
                balanceOf accounts address := by
        refine Finset.sum_congr rfl fun address hmem => ?_
        obtain ⟨hto, hmem⟩ := Finset.mem_erase.mp hmem
        rw [balanceOf, s.final_of_ne (Finset.mem_erase.mp hmem).1 hto]
        rfl
      rw [totalSupply_eq s.final ht, totalSupply_eq accounts ht, hrest, htarget, ← hsender]
      show _ + s.gasUsed.toNat * tx.gasPrice.toNat = _
      omega

/-- Alice pays Carol. -/
theorem exactEffect_iff_alice_carol :
    ∃ accounts' receipt,
      (executeSingleTransaction sampleEnv sampleOrder (sampleTransfer alice carol 5)).run
        sampleAccounts = (.ok receipt, accounts') ∧
      (ExactEffect sampleEnv (sampleTransfer alice carol 5) sampleAccounts accounts' receipt ↔
        (sampleTransfer alice carol 5).target sampleEnv ≠ alice ∧
        ((sampleTransfer alice carol 5).recipient = none →
          balanceOf sampleAccounts ((sampleTransfer alice carol 5).target sampleEnv) = 0) ∧
        (sampleEnv.overflowChecks = true ∨
          (sampleTransfer alice carol 5).nonce.toNat + 1 < 2 ^ 64)) := by
  have hrun : ∃ accounts' receipt,
      (executeSingleTransaction sampleEnv sampleOrder (sampleTransfer alice carol 5)).run
        sampleAccounts = (.ok receipt, accounts') := ⟨_, _, rfl⟩
  obtain ⟨accounts', receipt, h⟩ := hrun
  exact ⟨accounts', receipt, h, exactEffect_iff h⟩

/-- Alice pays herself: her nonce stays, she pays no gas, and she gains the value. -/
theorem self_transfer_not_exactEffect :
    ∃ accounts' receipt,
      (executeSingleTransaction sampleEnv sampleOrder (sampleTransfer alice alice 5)).run
        sampleAccounts = (.ok receipt, accounts') ∧
      nonceOf accounts' alice = 0 ∧ balanceOf accounts' alice = 100005 ∧
      ¬ ExactEffect sampleEnv (sampleTransfer alice alice 5) sampleAccounts accounts' receipt := by
  refine ⟨_, _, rfl, rfl, rfl, fun h => ?_⟩
  exact absurd h.nonce (by decide)

end InterBit.StateMachine
