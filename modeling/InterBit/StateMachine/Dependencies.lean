import InterBit.StateMachine.Grouping

/-!
# What the dependency graph of a block records

`build_dependency_graph` looks at the sender of a transaction, and at its recipient if there is
code. A transaction depends on the last one before it that has one of these accounts
(`mem_deps_iff`), so the paths of the graph are the chains of transactions of which each shares
such an account with the next (`reaches_iff`).
-/

namespace InterBit.StateMachine.Block

open InterBit.Lib Relation

section Use

variable (accounts : Accounts)

/-- The accounts that `build_dependency_graph` looks at: the sender, and a called contract. -/
def Uses (tx : Transaction) (address : Address) : Prop :=
  address = tx.sender ∨ tx.recipient = some address ∧ hasCode (accounts address) = true

instance (tx : Transaction) (address : Address) : Decidable (Uses accounts tx address) :=
  inferInstanceAs (Decidable (_ ∨ _ ∧ _))

variable (transactions : List Transaction)

/-- Transaction `i` uses an account. -/
def UsesAt (i : Nat) (address : Address) : Prop :=
  ∃ tx, transactions[i]? = some tx ∧ Uses accounts tx address

/-- Transaction `j` is the last one before `i` that uses an account. -/
def LastUse (i : Nat) (address : Address) (j : Nat) : Prop :=
  j < i ∧ UsesAt accounts transactions j address ∧
    ∀ k, j < k → k < i → ¬ UsesAt accounts transactions k address

/-- `account_last_tx` before transaction `i`. -/
def Records (lastTx : LastTx) (i : Nat) : Prop :=
  ∀ address j, lastTx.lookup address = some j ↔ LastUse accounts transactions i address j

/-- Transaction `i` shares an account with an earlier one. -/
def Link (i j : Nat) : Prop :=
  j < i ∧ ∃ address, UsesAt accounts transactions i address ∧
    UsesAt accounts transactions j address

end Use

/-- There is a path of dependencies from `i` to `j`. -/
def Reaches (graph : DependencyGraph) : Nat → Nat → Prop :=
  TransGen fun i j => j ∈ graph.deps i

section Loop

variable {accounts : Accounts} {transactions : List Transaction}

/-- The map after a transaction. -/
theorem lookup_dependenciesOf_eq (lastTx : LastTx) (idx : Nat) (tx : Transaction)
    (address : Address) :
    (dependenciesOf accounts lastTx idx tx).2.lookup address
      = if Uses accounts tx address then some idx else lastTx.lookup address := by
  have hsender : (lastTx.insert tx.sender idx).lookup address
      = if address = tx.sender then some idx else lastTx.lookup address := by
    split
    next ha => rw [ha, AList.lookup_insert]
    next ha => exact AList.lookup_insert_ne ha
  -- Without a called contract the sender is the only account that is used.
  have hplain : (∀ to', tx.recipient = some to' → ¬ hasCode (accounts to') = true) →
      (lastTx.insert tx.sender idx).lookup address
        = if Uses accounts tx address then some idx else lastTx.lookup address := by
    intro hno
    have hiff : Uses accounts tx address ↔ address = tx.sender :=
      or_iff_left fun h => hno address h.1 h.2
    simp only [hsender, hiff]
  unfold dependenciesOf
  dsimp only
  split
  next to' hto =>
    split
    next hcode =>
      dsimp only
      by_cases ha : address = to'
      · subst ha
        rw [AList.lookup_insert, if_pos (show Uses accounts tx address from Or.inr ⟨hto, hcode⟩)]
      · have hiff : Uses accounts tx address ↔ address = tx.sender :=
          or_iff_left fun h => ha (Option.some.inj (h.1.symm.trans hto))
        rw [AList.lookup_insert_ne ha, hsender]
        simp only [hiff]
    next hcode =>
      refine hplain fun to'' hto' hcode' => hcode ?_
      rw [Option.some.inj (hto.symm.trans hto')]
      exact hcode'
  next hto => exact hplain fun to' hto' => nomatch hto.symm.trans hto'

/-- A contract that calls itself finds its own transaction. -/
theorem self_mem_dependenciesOf {lastTx : LastTx} {idx : Nat} {tx : Transaction}
    (h : CallsItself accounts tx) : idx ∈ (dependenciesOf accounts lastTx idx tx).1 := by
  unfold dependenciesOf
  simp only [h.1, h.2, if_true]
  refine List.mem_append_right _ ?_
  rw [AList.lookup_insert]
  exact List.mem_singleton_self idx

/-- The dependencies of a transaction. -/
theorem mem_dependenciesOf_iff (lastTx : LastTx) (idx : Nat) (tx : Transaction) (dep : Nat) :
    dep ∈ (dependenciesOf accounts lastTx idx tx).1 ↔
      (∃ address, Uses accounts tx address ∧ lastTx.lookup address = some dep) ∨
        dep = idx ∧ CallsItself accounts tx := by
  constructor
  · unfold dependenciesOf
    dsimp only
    split
    next to' hto =>
      split
      next hcode =>
        intro h
        cases List.mem_append.mp h with
        | inl h => exact Or.inl ⟨tx.sender, Or.inl rfl, Option.mem_toList.mp h⟩
        | inr h =>
          -- the sender has just been entered with this index, which a self call finds
          rcases lookup_insert_eq_some.mp (Option.mem_toList.mp h) with ⟨ha, hdep⟩ | ⟨_, hold⟩
          · rw [ha] at hto hcode
            exact Or.inr ⟨hdep.symm, hto, hcode⟩
          · exact Or.inl ⟨to', Or.inr ⟨hto, hcode⟩, hold⟩
      next => exact fun h => Or.inl ⟨tx.sender, Or.inl rfl, Option.mem_toList.mp h⟩
    next => exact fun h => Or.inl ⟨tx.sender, Or.inl rfl, Option.mem_toList.mp h⟩
  · rintro (⟨address, huse, hlookup⟩ | ⟨rfl, hcalls⟩)
    · have hmem : dep ∈ (lastTx.lookup address).toList := Option.mem_toList.mpr hlookup
      by_cases hsender : address = tx.sender
      · subst hsender
        unfold dependenciesOf
        dsimp only
        split
        next =>
          split
          next => exact List.mem_append_left _ hmem
          next => exact hmem
        next => exact hmem
      · obtain ⟨hto, hcode⟩ := huse.resolve_left hsender
        unfold dependenciesOf
        simp only [hto, hcode, if_true, AList.lookup_insert_ne hsender]
        exact List.mem_append_right _ hmem
    · exact self_mem_dependenciesOf hcalls

/-- The last use, after one more transaction. -/
theorem lastUse_succ {i : Nat} {tx : Transaction} (htx : transactions[i]? = some tx)
    (address : Address) (j : Nat) :
    LastUse accounts transactions (i + 1) address j ↔
      if Uses accounts tx address then j = i else LastUse accounts transactions i address j := by
  have hat : UsesAt accounts transactions i address ↔ Uses accounts tx address := by
    constructor
    · intro ⟨tx', htx', huse⟩
      rw [htx] at htx'
      exact Option.some.inj htx' ▸ huse
    · exact fun huse => ⟨tx, htx, huse⟩
  split
  next huse =>
    constructor
    · intro ⟨hlt, _, hlast⟩
      by_contra hne
      exact hlast i (by omega) (Nat.lt_succ_self i) (hat.mpr huse)
    · rintro rfl
      exact ⟨Nat.lt_succ_self j, hat.mpr huse, fun k hk hk' => by omega⟩
  next huse =>
    constructor
    · intro ⟨hlt, hj, hlast⟩
      have hne : j ≠ i := fun he => huse (hat.mp (he ▸ hj))
      exact ⟨by omega, hj, fun k hk hk' => hlast k hk (by omega)⟩
    · intro ⟨hlt, hj, hlast⟩
      refine ⟨by omega, hj, fun k hk hk' hat' => ?_⟩
      by_cases hki : k = i
      · exact huse (hat.mp (hki ▸ hat'))
      · exact hlast k hk (by omega) hat'

/-- A turn of the loop keeps the map right. -/
theorem Records.next {lastTx : LastTx} {i : Nat} {tx : Transaction}
    (h : Records accounts transactions lastTx i) (htx : transactions[i]? = some tx) :
    Records accounts transactions (dependenciesOf accounts lastTx i tx).2 (i + 1) := by
  intro address j
  rw [lookup_dependenciesOf_eq, lastUse_succ htx]
  split
  next => exact ⟨fun h => (Option.some.inj h).symm, fun h => congrArg some h.symm⟩
  next => exact h address j

theorem records_empty : Records accounts transactions ∅ 0 := fun _ _ =>
  ⟨(nomatch ·), fun h => absurd h.1 (Nat.not_lt_zero _)⟩

/-- What the loop enters for a transaction of the rest of the list. -/
theorem dependencyLoop_records {i : Nat} {tx : Transaction} (htx : transactions[i]? = some tx) :
    ∀ (rest : List Transaction) (idx : Nat) (lastTx : LastTx), rest = transactions.drop idx →
      idx ≤ i → Records accounts transactions lastTx idx →
      ∃ lastTx', Records accounts transactions lastTx' i ∧
        (dependencyLoop accounts idx lastTx rest).lookup i
          = some (dependenciesOf accounts lastTx' i tx).1 := by
  intro rest
  induction rest with
  | nil =>
    intro idx lastTx hrest hle _
    have hlength := List.drop_eq_nil_iff.mp hrest.symm
    have hi := (List.getElem?_eq_some_iff.mp htx).1
    omega
  | cons first rest ih =>
    intro idx lastTx hrest hle hrecords
    have hfirst : transactions[idx]? = some first := by
      rw [← List.head?_drop, ← hrest, List.head?_cons]
    have hrest' : rest = transactions.drop (idx + 1) := by
      rw [← List.tail_drop, ← hrest, List.tail_cons]
    by_cases hidx : idx = i
    · subst hidx
      obtain rfl := Option.some.inj (hfirst.symm.trans htx)
      refine ⟨lastTx, hrecords, ?_⟩
      rw [dependencyLoop]
      exact List.lookup_cons_self
    · obtain ⟨lastTx', hrecords', hlookup⟩ :=
        ih (idx + 1) _ hrest' (by omega) (hrecords.next hfirst)
      refine ⟨lastTx', hrecords', ?_⟩
      rw [dependencyLoop, List.lookup_cons, beq_false_of_ne (Ne.symm hidx)]
      exact hlookup

/-- The loop enters nothing beyond the list. -/
theorem lookup_dependencyLoop_eq_none {i : Nat} (rest : List Transaction) :
    ∀ (idx : Nat) (lastTx : LastTx), idx + rest.length ≤ i →
      (dependencyLoop accounts idx lastTx rest).lookup i = none := by
  induction rest with
  | nil => exact fun _ _ _ => rfl
  | cons first rest ih =>
    intro idx lastTx hle
    rw [List.length_cons] at hle
    rw [dependencyLoop, List.lookup_cons, beq_false_of_ne (by omega)]
    exact ih (idx + 1) _ (by omega)

end Loop

section Graph

variable {accounts : Accounts} {transactions : List Transaction}

/-- A transaction depends on the last one before it that uses one of its accounts, and, if a
contract calls itself, on itself. -/
theorem mem_deps_iff {i dep : Nat} :
    dep ∈ (buildDependencyGraph accounts transactions).deps i ↔
      (∃ address, UsesAt accounts transactions i address ∧
        LastUse accounts transactions i address dep) ∨
      dep = i ∧ ∃ tx, transactions[i]? = some tx ∧ CallsItself accounts tx := by
  unfold DependencyGraph.deps buildDependencyGraph
  match htx : transactions[i]? with
  | none =>
    have hle := List.getElem?_eq_none_iff.mp htx
    rw [lookup_dependencyLoop_eq_none transactions 0 ∅ (by omega), Option.getD_none]
    constructor
    · exact fun h => nomatch h
    · rintro (⟨_, ⟨tx, htx', _⟩, _⟩ | ⟨_, tx, htx', _⟩)
      · exact nomatch htx.symm.trans htx'
      · exact nomatch htx'
  | some tx =>
    obtain ⟨lastTx, hrecords, hlookup⟩ := @dependencyLoop_records accounts _ i tx htx
      transactions 0 ∅ rfl (Nat.zero_le i) records_empty
    rw [hlookup, Option.getD_some, mem_dependenciesOf_iff]
    refine or_congr (exists_congr fun address => and_congr ?_ (hrecords address dep))
      (and_congr_right fun _ => ?_)
    · constructor
      · exact fun huse => ⟨tx, htx, huse⟩
      · intro ⟨tx', htx', huse⟩
        exact Option.some.inj (htx.symm.trans htx') ▸ huse
    · constructor
      · exact fun hcalls => ⟨tx, rfl, hcalls⟩
      · intro ⟨tx', htx', hcalls⟩
        exact Option.some.inj htx' ▸ hcalls

/-- Whoever shares an account with an earlier transaction has a dependency on its account since. -/
theorem exists_lastUse {i : Nat} {address : Address} : ∀ {j : Nat}, j < i →
    UsesAt accounts transactions j address →
    ∃ k, j ≤ k ∧ LastUse accounts transactions i address k := by
  intro j hlt hj
  -- the last use is the largest index below `i` with one
  by_cases hlast : ∀ k, j < k → k < i → ¬ UsesAt accounts transactions k address
  · exact ⟨j, Nat.le_refl j, hlt, hj, hlast⟩
  · push Not at hlast
    obtain ⟨k, hjk, hki, hk⟩ := hlast
    obtain ⟨last, hle, h⟩ := exists_lastUse hki hk
    exact ⟨last, by omega, h⟩
  termination_by j => i - j

/-- Two transactions that share an account are connected. -/
theorem Link.reaches {j : Nat} : ∀ {i : Nat}, Link accounts transactions i j →
    Reaches (buildDependencyGraph accounts transactions) i j := by
  intro i
  induction i using Nat.strong_induction_on with
  | _ i ih =>
    intro ⟨hlt, address, hi, hj⟩
    obtain ⟨k, hjk, hlast⟩ := exists_lastUse hlt hj
    have hdep : k ∈ (buildDependencyGraph accounts transactions).deps i :=
      mem_deps_iff.mpr (Or.inl ⟨address, hi, hlast⟩)
    by_cases hkj : k = j
    · exact hkj ▸ TransGen.single hdep
    · exact TransGen.head hdep (ih k hlast.1 ⟨by omega, address, hlast.2.1, hj⟩)

/-- A dependency on another transaction is a shared account. -/
theorem link_of_mem_deps {i dep : Nat}
    (h : dep ∈ (buildDependencyGraph accounts transactions).deps i) :
    dep = i ∨ Link accounts transactions i dep := by
  rcases mem_deps_iff.mp h with ⟨address, hi, hlast⟩ | ⟨rfl, _⟩
  · exact Or.inr ⟨hlast.1, address, hi, hlast.2.1⟩
  · exact Or.inl rfl

/-- The paths of the graph to an earlier transaction are the chains of shared accounts. -/
theorem reaches_iff {i j : Nat} (hlt : j < i) :
    Reaches (buildDependencyGraph accounts transactions) i j ↔
      TransGen (Link accounts transactions) i j := by
  constructor
  · intro h
    -- a contract that calls itself adds a step from a transaction to itself
    have hsteps : ∀ {k}, Reaches (buildDependencyGraph accounts transactions) i k →
        k = i ∨ TransGen (Link accounts transactions) i k := by
      intro k h
      induction h with
      | single hdep => exact (link_of_mem_deps hdep).imp id TransGen.single
      | tail _ hdep ih =>
        rcases link_of_mem_deps hdep with rfl | hlink
        · exact ih
        · rcases ih with rfl | hchain
          · exact Or.inr (TransGen.single hlink)
          · exact Or.inr (hchain.tail hlink)
    exact (hsteps h).resolve_left (Nat.ne_of_lt hlt)
  · intro h
    exact TransGen.closed (fun _ _ hlink => Link.reaches hlink) i j h

end Graph

end InterBit.StateMachine.Block
