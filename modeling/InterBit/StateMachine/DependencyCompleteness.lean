import InterBit.StateMachine.Dependencies

/-!
# What the dependency graph of a block misses

Two transactions get into each other's way at an account that one of them writes and the other
reads or writes. `build_dependency_graph` connects two transactions at an account that is for each
of them the sender or a called contract. It overlooks recipients without code, and the addresses of
new contracts (`Overlooks`), which `analyze_transactions` of `parallel.rs` has in its write sets.
`complete_iff`: two transactions that meet at such an account are connected only by others.

The graph is built from the accounts before the block; a transaction may run when others have
already run, so each has a state `before` it of its own.
-/

namespace InterBit.StateMachine.Block

open InterBit.Lib Relation

section Meet

variable (env : Env) (order : IterOrder (Sigma fun _ : Address => Account))

/-- Run from `m`, the transaction reads or writes the account. -/
def Accesses (tx : Transaction) (m : Accounts) (address : Address) : Prop :=
  (executeSingleTransaction env order tx).Reads address m ∨
    (executeSingleTransaction env order tx).Writes address m

/-- One of two transactions writes an account that the other reads or writes. -/
def MeetAt (before : Nat → Accounts) (transactions : List Transaction) (i j : Nat)
    (address : Address) : Prop :=
  ∃ s t, transactions[i]? = some s ∧ transactions[j]? = some t ∧
    (Accesses env order s (before i) address ∧
        (executeSingleTransaction env order t).Writes address (before j) ∨
      (executeSingleTransaction env order s).Writes address (before i) ∧
        Accesses env order t (before j) address)

/-- Two transactions that meet are connected in the order of the list. -/
def Complete (accounts : Accounts) (before : Nat → Accounts) (transactions : List Transaction) :
    Prop :=
  ∀ i j, j < i → ∀ address, MeetAt env order before transactions i j address →
    Reaches (buildDependencyGraph accounts transactions) i j

/-- The graph does not look at an account that a transaction pays to or creates: there is no code
before the block. -/
def Overlooks (accounts : Accounts) (transactions : List Transaction) (i : Nat)
    (address : Address) : Prop :=
  ∃ tx, transactions[i]? = some tx ∧ address = tx.target env ∧ ¬ Uses accounts tx address

end Meet

section Footprint

variable {env : Env} {order : IterOrder (Sigma fun _ : Address => Account)} {tx : Transaction}
  {m : Accounts} {address : Address}

theorem Accesses.touches (h : Accesses env order tx m address) : tx.Touches env address := by
  obtain ⟨hreads, hwrites⟩ :=
    Prog.confined_iff.mp (executeSingleTransaction_confined env tx m order)
  exact h.elim (hreads address) (hwrites address)

/-- An account that a transaction accesses is one the graph looks at or overlooks. -/
theorem Accesses.usesAt_or_overlooks {transactions : List Transaction} {i : Nat}
    (h : Accesses env order tx m address) (htx : transactions[i]? = some tx)
    (accounts : Accounts) :
    UsesAt accounts transactions i address ∨ Overlooks env accounts transactions i address := by
  by_cases huse : Uses accounts tx address
  · exact Or.inl ⟨tx, htx, huse⟩
  · have hsender : address ≠ tx.sender := fun he => huse (Or.inl he)
    exact Or.inr ⟨tx, htx, h.touches.resolve_left hsender, huse⟩

end Footprint

/-- Two transactions that meet are connected exactly if those that meet at an account that the graph
overlooks are connected by a chain of transactions, each with an account in common with the next
that is for both the sender or a called contract. -/
theorem complete_iff (env : Env) (order : IterOrder (Sigma fun _ : Address => Account))
    (accounts : Accounts) (before : Nat → Accounts) (transactions : List Transaction) :
    Complete env order accounts before transactions ↔
      ∀ i j, j < i → ∀ address, MeetAt env order before transactions i j address →
        Overlooks env accounts transactions i address ∨
          Overlooks env accounts transactions j address →
        TransGen (Link accounts transactions) i j := by
  constructor
  · intro hcomplete i j hlt address hmeet _
    exact (reaches_iff hlt).mp (hcomplete i j hlt address hmeet)
  · intro hchain i j hlt address hmeet
    have hsame := hmeet
    obtain ⟨s, t, hs, ht, hboth⟩ := hsame
    have haccesses : Accesses env order s (before i) address ∧
        Accesses env order t (before j) address := by
      rcases hboth with ⟨haccess, hwrites⟩ | ⟨hwrites, haccess⟩
      · exact ⟨haccess, Or.inr hwrites⟩
      · exact ⟨Or.inr hwrites, haccess⟩
    rw [reaches_iff hlt]
    -- at an account that the graph looks at for both, there is a path of its own
    rcases haccesses.1.usesAt_or_overlooks hs accounts with hi | hoverlooked
    · rcases haccesses.2.usesAt_or_overlooks ht accounts with hj | hoverlooked
      · exact TransGen.single ⟨hlt, address, hi, hj⟩
      · exact hchain i j hlt address hmeet (Or.inr hoverlooked)
    · exact hchain i j hlt address hmeet (Or.inl hoverlooked)

/-- Alice and Bob pay Carol, who has no code. -/
theorem common_recipient_overlooked : ¬ ∀ (env : Env)
    (order : IterOrder (Sigma fun _ : Address => Account)) (accounts : Accounts)
    (transactions : List Transaction),
    Complete env order accounts (fun _ => accounts) transactions := by
  intro hgeneral
  have hcomplete := hgeneral sampleEnv sampleOrder sampleAccounts
    [sampleTransfer alice carol 5, sampleTransfer bob carol 7]
  have hfirst :
      (executeSingleTransaction sampleEnv sampleOrder (sampleTransfer alice carol 5)).Writes carol
        sampleAccounts := Prog.writes_of_changed (by decide +kernel)
  have hsecond :
      (executeSingleTransaction sampleEnv sampleOrder (sampleTransfer bob carol 7)).Writes carol
        sampleAccounts := Prog.writes_of_changed (by decide +kernel)
  have hpath := hcomplete 1 0 Nat.zero_lt_one carol
    ⟨_, _, rfl, rfl, Or.inl ⟨Or.inr hsecond, hfirst⟩⟩
  obtain ⟨dep, hdep, _⟩ := TransGen.head'_iff.mp hpath
  have hnone : (buildDependencyGraph sampleAccounts
      [sampleTransfer alice carol 5, sampleTransfer bob carol 7]).deps 1 = [] := by decide
  rw [hnone] at hdep
  cases hdep

end InterBit.StateMachine.Block
