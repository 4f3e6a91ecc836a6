import InterBit.Lib.Assoc
import InterBit.StateMachine.Schedule

/-!
# The groups of a block

`build_dependency_graph` and `group_by_dependency` of `state_machine/executor.rs`. A
transaction depends on the last one before it that has the same account for sender
or for called contract; recipients without code are not looked at.

A pass of `group_by_dependency` marks a transaction as processed as soon as it is in
the group, so the transactions that depend on it are let into the same group. The
first pass takes everything that can be taken, and the second one finds nothing:
there is one group at most (`groupByDependency_eq`). A contract that calls itself
depends on itself, and is in no group, nor is what depends on it.
-/

namespace InterBit.StateMachine.Block

open InterBit.Lib

/-- The map `account_last_tx`. -/
abbrev LastTx := AList fun _ : Address => Nat

/-- The body of the loop of `build_dependency_graph`: the dependencies of transaction
`idx`, and the new map. -/
def dependenciesOf (accounts : Accounts) (lastTx : LastTx) (idx : Nat) (tx : Transaction) :
    List Nat × LastTx :=
  let deps := (lastTx.lookup tx.sender).toList
  let lastTx := lastTx.insert tx.sender idx
  match tx.recipient with
  | some address =>
    if hasCode (accounts address) then
      (deps ++ (lastTx.lookup address).toList, lastTx.insert address idx)
    else (deps, lastTx)
  | none => (deps, lastTx)

/-- The loop of `build_dependency_graph`, from transaction `idx` on. -/
def dependencyLoop (accounts : Accounts) : Nat → LastTx → List Transaction → DependencyGraph
  | _, _, [] => []
  | idx, lastTx, tx :: transactions =>
    let (deps, lastTx) := dependenciesOf accounts lastTx idx tx
    (idx, deps) :: dependencyLoop accounts (idx + 1) lastTx transactions

/-- `build_dependency_graph`. -/
def buildDependencyGraph (accounts : Accounts) (transactions : List Transaction) :
    DependencyGraph :=
  dependencyLoop accounts 0 ∅ transactions

/-- The vector `processed`. -/
abbrev Processed := List Bool

/-- `processed[idx]`. -/
def Processed.at (processed : Processed) (idx : Nat) : Bool := processed[idx]?.getD false

/-- The body of the inner loop of `group_by_dependency`. -/
def visit (graph : DependencyGraph) (state : Processed × List Transaction)
    (x : Transaction × Nat) : Processed × List Transaction :=
  let (processed, group) := state
  let (tx, idx) := x
  if processed.at idx then (processed, group)
  else if (graph.deps idx).all processed.at then (processed.set idx true, group ++ [tx])
  else (processed, group)

/-- The inner loop of `group_by_dependency`. -/
def pass (graph : DependencyGraph) (transactions : List Transaction) (processed : Processed) :
    Processed × List Transaction :=
  transactions.zipIdx.foldl (visit graph) (processed, [])

/-- The outer loop, with at most `fuel` passes; it stops after a pass without a find. -/
def groupLoop (graph : DependencyGraph) (transactions : List Transaction) :
    Nat → Processed → List (List Transaction)
  | 0, _ => []
  | fuel + 1, processed =>
    let (processed, group) := pass graph transactions processed
    if group.isEmpty then [] else group :: groupLoop graph transactions fuel processed

/-- What the first pass of `group_by_dependency` takes. -/
def firstGroup (graph : DependencyGraph) (transactions : List Transaction) : List Transaction :=
  (pass graph transactions (List.replicate transactions.length false)).2

/-- `group_by_dependency`. All passes but the last process a transaction. -/
def groupByDependency (transactions : List Transaction) (graph : DependencyGraph) :
    List (List Transaction) :=
  groupLoop graph transactions (transactions.length + 1) (List.replicate transactions.length false)

/-- A contract that calls itself. -/
def CallsItself (accounts : Accounts) (tx : Transaction) : Prop :=
  tx.recipient = some tx.sender ∧ hasCode (accounts tx.sender) = true

/-! ## Dependencies point backwards -/

theorem mem_of_lookup {α : Type} {l : List (Nat × α)} {i : Nat} {a : α}
    (h : l.lookup i = some a) : (i, a) ∈ l := by
  obtain ⟨l₁, l₂, rfl, -⟩ := List.lookup_eq_some_iff.mp h
  exact List.mem_append_right _ (List.mem_cons_self ..)

variable {accounts : Accounts}

/-- An entry of the new map is an old one or the transaction's. -/
theorem lookup_dependenciesOf {lastTx : LastTx} {idx : Nat} {tx : Transaction} {address : Address}
    {j : Nat} (h : (dependenciesOf accounts lastTx idx tx).2.lookup address = some j) :
    lastTx.lookup address = some j ∨
      j = idx ∧ (address = tx.sender ∨ tx.recipient = some address) := by
  have hsender : ∀ {j}, (lastTx.insert tx.sender idx).lookup address = some j →
      lastTx.lookup address = some j ∨ j = idx ∧ address = tx.sender := by
    intro j h
    rcases lookup_insert_eq_some.mp h with ⟨ha, hj⟩ | ⟨_, hold⟩
    · exact Or.inr ⟨hj.symm, ha⟩
    · exact Or.inl hold
  unfold dependenciesOf at h
  dsimp only at h
  split at h
  next to' hto =>
    split at h
    next =>
      rcases lookup_insert_eq_some.mp h with ⟨ha, hj⟩ | ⟨_, hold⟩
      · exact Or.inr ⟨hj.symm, Or.inr (ha ▸ hto)⟩
      · exact (hsender hold).imp_right fun h => ⟨h.1, Or.inl h.2⟩
    next => exact (hsender h).imp_right fun h => ⟨h.1, Or.inl h.2⟩
  next => exact (hsender h).imp_right fun h => ⟨h.1, Or.inl h.2⟩

/-- A dependency is an entry of the old map, or, for a contract that calls itself, the
transaction. -/
theorem mem_dependenciesOf {lastTx : LastTx} {idx : Nat} {tx : Transaction} {dep : Nat}
    (h : dep ∈ (dependenciesOf accounts lastTx idx tx).1) :
    (∃ address, lastTx.lookup address = some dep ∧
      (address = tx.sender ∨ tx.recipient = some address)) ∨
    dep = idx ∧ tx.recipient = some tx.sender ∧ hasCode (accounts tx.sender) = true := by
  have hsender : dep ∈ (lastTx.lookup tx.sender).toList →
      ∃ address, lastTx.lookup address = some dep ∧
        (address = tx.sender ∨ tx.recipient = some address) := fun h =>
    ⟨tx.sender, Option.mem_toList.mp h, Or.inl rfl⟩
  unfold dependenciesOf at h
  dsimp only at h
  split at h
  next to' hto =>
    split at h
    next hcode =>
      cases List.mem_append.mp h with
      | inl h => exact Or.inl (hsender h)
      | inr h =>
        rcases lookup_insert_eq_some.mp (Option.mem_toList.mp h) with ⟨ha, hdep⟩ | ⟨_, hold⟩
        · rw [ha] at hto hcode
          exact Or.inr ⟨hdep.symm, hto, hcode⟩
        · exact Or.inl ⟨to', hold, Or.inr hto⟩
    next => exact Or.inl (hsender h)
  next => exact Or.inl (hsender h)

theorem dependencyLoop_lt_or_self (accounts : Accounts) (transactions : List Transaction) :
    ∀ (idx : Nat) (lastTx : LastTx), (∀ address j, lastTx.lookup address = some j → j < idx) →
      ∀ e ∈ dependencyLoop accounts idx lastTx transactions, ∀ dep ∈ e.2,
        dep < e.1 ∨ dep = e.1 ∧ ∃ tx ∈ transactions, CallsItself accounts tx := by
  induction transactions with
  | nil =>
    intro idx lastTx _ e he
    cases he
  | cons tx transactions ih =>
    intro idx lastTx hlast e he
    cases List.mem_cons.mp he with
    | inl he =>
      rw [he]
      intro dep hdep
      cases mem_dependenciesOf hdep with
      | inl hold =>
        obtain ⟨address, hlookup, -⟩ := hold
        exact .inl (hlast address dep hlookup)
      | inr hself => exact .inr ⟨hself.1, tx, List.mem_cons_self .., hself.2⟩
    | inr he =>
      intro dep hdep
      refine (ih (idx + 1) _ (fun address j h => ?_) e he dep hdep).imp_right fun hself => ?_
      · cases lookup_dependenciesOf h with
        | inl hold => exact Nat.lt_succ_of_lt (hlast address j hold)
        | inr hnew => exact hnew.1 ▸ Nat.lt_succ_self idx
      · obtain ⟨hdep, tx', hmem, hcalls⟩ := hself
        exact ⟨hdep, tx', List.mem_cons_of_mem _ hmem, hcalls⟩

/-- A transaction depends on earlier ones only, if no contract calls itself. -/
theorem deps_lt_or_self (accounts : Accounts) (transactions : List Transaction) (i : Nat) :
    ∀ dep ∈ (buildDependencyGraph accounts transactions).deps i,
      dep < i ∨ dep = i ∧ ∃ tx ∈ transactions, CallsItself accounts tx := by
  intro dep hdep
  unfold DependencyGraph.deps at hdep
  match hlookup : (buildDependencyGraph accounts transactions).lookup i with
  | none =>
    rw [hlookup] at hdep
    cases hdep
  | some deps =>
    rw [hlookup] at hdep
    refine dependencyLoop_lt_or_self accounts transactions 0 ∅ (fun address j h => ?_) _
      (mem_of_lookup hlookup) dep hdep
    cases h

/-- No transaction depends on a later one. -/
theorem deps_le (accounts : Accounts) (transactions : List Transaction) (i : Nat) :
    ∀ dep ∈ (buildDependencyGraph accounts transactions).deps i, dep ≤ i := by
  intro dep hdep
  rcases deps_lt_or_self accounts transactions i dep hdep with hlt | ⟨rfl, _⟩
  · exact Nat.le_of_lt hlt
  · exact Nat.le_refl _

/-- Transactions that have no account in common do not depend on each other. -/
theorem dependencyLoop_apart {env : Env} {transactions : List Transaction} :
    ∀ {idx : Nat} {lastTx : LastTx}, transactions.Pairwise (Apart (Transaction.Touches env)) →
      (∀ tx ∈ transactions, tx.recipient = some tx.sender →
        hasCode (accounts tx.sender) = false) →
      (∀ address j, lastTx.lookup address = some j → ∀ tx ∈ transactions,
        ¬ tx.Touches env address) →
      ∀ e ∈ dependencyLoop accounts idx lastTx transactions, e.2 = [] := by
  induction transactions with
  | nil =>
    intro idx lastTx _ _ _ e he
    cases he
  | cons tx transactions ih =>
    intro idx lastTx hapart hself hlast e he
    obtain ⟨hfirst, hapart⟩ := List.pairwise_cons.mp hapart
    obtain ⟨hselfTx, hself⟩ := List.forall_mem_cons.mp hself
    have htouches : ∀ {address}, address = tx.sender ∨ tx.recipient = some address →
        tx.Touches env address := fun h => h.elim Or.inl Transaction.touches_recipient
    cases List.mem_cons.mp he with
    | inl he =>
      rw [he]
      refine List.eq_nil_iff_forall_not_mem.mpr fun dep hdep => ?_
      cases mem_dependenciesOf hdep with
      | inl hold =>
        obtain ⟨address, hlookup, ha⟩ := hold
        exact hlast address dep hlookup tx (List.mem_cons_self ..) (htouches ha)
      | inr hcall =>
        rw [hselfTx hcall.2.1] at hcall
        cases hcall.2.2
    | inr he =>
      refine ih hapart hself (fun address j h t ht => ?_) e he
      cases lookup_dependenciesOf h with
      | inl hold => exact hlast address j hold t (List.mem_cons_of_mem _ ht)
      | inr hnew => exact hfirst t ht address (htouches hnew.2)

theorem deps_eq_nil {env : Env} {transactions : List Transaction}
    (hapart : transactions.Pairwise (Apart (Transaction.Touches env)))
    (hself : ∀ tx ∈ transactions, tx.recipient = some tx.sender →
      hasCode (accounts tx.sender) = false) (i : Nat) :
    (buildDependencyGraph accounts transactions).deps i = [] := by
  unfold DependencyGraph.deps
  match hlookup : (buildDependencyGraph accounts transactions).lookup i with
  | none => rfl
  | some deps =>
    refine dependencyLoop_apart hapart hself (fun address j h => ?_) _ (mem_of_lookup hlookup)
    cases h

/-! ## One group -/

section Pass

variable {graph : DependencyGraph}

variable {processed : Processed}

theorem Processed.at_set {i j : Nat} (hij : i ≠ j) :
    Processed.at (processed.set j true) i = processed.at i := by
  unfold Processed.at
  rw [List.getElem?_set_ne (Ne.symm hij)]

theorem Processed.at_set_self {i : Nat} (hi : i < processed.length) :
    Processed.at (processed.set i true) i = true := by
  unfold Processed.at
  rw [List.getElem?_set_self hi, Option.getD_some]

/-- Each of the first `k` transactions is processed, or depends on one that is not and
comes no later. -/
def Visited (graph : DependencyGraph) (k : Nat) (processed : Processed) : Prop :=
  ∀ i < k, processed.at i = false → ∃ dep ∈ graph.deps i, dep ≤ i ∧ processed.at dep = false

theorem visited_foldl (hdeps : ∀ i, ∀ dep ∈ graph.deps i, dep ≤ i)
    (transactions : List Transaction) : ∀ (k : Nat) (processed : Processed)
      (group : List Transaction), processed.length = k + transactions.length →
      Visited graph k processed →
      Visited graph (k + transactions.length)
        ((transactions.zipIdx k).foldl (visit graph) (processed, group)).1 := by
  induction transactions with
  | nil => exact fun k processed group _ h => h
  | cons tx transactions ih =>
    intro k processed group hlength h
    rw [List.length_cons] at hlength
    rw [List.zipIdx_cons, List.foldl_cons, List.length_cons, ← Nat.add_assoc, Nat.add_right_comm]
    -- what one visit does to the invariant; the induction is on the transactions that are left
    have hnext : ∃ processed' group', visit graph (processed, group) (tx, k)
        = (processed', group') ∧ processed'.length = processed.length ∧
        Visited graph (k + 1) processed' := by
      unfold visit
      dsimp only
      split
      next hdone =>
        refine ⟨_, _, rfl, rfl, fun i hi hopen => ?_⟩
        by_cases hik : i = k
        · rw [hik, hdone] at hopen
          cases hopen
        · exact h i (Nat.lt_of_le_of_ne (Nat.le_of_lt_succ hi) hik) hopen
      next hopen =>
        split
        next hall =>
          refine ⟨_, _, rfl, List.length_set, fun i hi hopen => ?_⟩
          by_cases hik : i = k
          · have hk : k < processed.length := by omega
            rw [hik, Processed.at_set_self hk] at hopen
            cases hopen
          · have hlt : i < k := Nat.lt_of_le_of_ne (Nat.le_of_lt_succ hi) hik
            rw [Processed.at_set hik] at hopen
            obtain ⟨dep, hdep, hle, hdepOpen⟩ := h i hlt hopen
            refine ⟨dep, hdep, hle, ?_⟩
            rw [Processed.at_set (Nat.ne_of_lt (Nat.lt_of_le_of_lt hle hlt))]
            exact hdepOpen
        next hall =>
          refine ⟨_, _, rfl, rfl, fun i hi hopen => ?_⟩
          by_cases hik : i = k
          · rw [List.all_eq_true] at hall
            -- a transaction that is passed over has a dependency that is open
            by_contra hno
            refine hall fun dep hdep => ?_
            by_contra hdepOpen
            refine hno ⟨dep, hik ▸ hdep, hik ▸ hdeps k dep hdep, ?_⟩
            exact Bool.not_eq_true _ ▸ hdepOpen
          · exact h i (Nat.lt_of_le_of_ne (Nat.le_of_lt_succ hi) hik) hopen
    obtain ⟨processed', group', hvisit, hlength', hvisited⟩ := hnext
    rw [hvisit]
    exact ih (k + 1) processed' group' (by omega) hvisited

/-- Once every transaction has been visited, another pass finds nothing. -/
theorem pass_of_visited {transactions : List Transaction}
    (h : Visited graph transactions.length processed) :
    pass graph transactions processed = (processed, []) := by
  unfold pass
  have hstep : ∀ l : List (Transaction × Nat), (∀ x ∈ l, x.2 < transactions.length) →
      l.foldl (visit graph) (processed, []) = (processed, []) := by
    intro l
    induction l with
    | nil => exact fun _ => rfl
    | cons x l ih =>
      intro hl
      obtain ⟨hx, hl⟩ := List.forall_mem_cons.mp hl
      have hvisit : visit graph (processed, []) x = (processed, []) := by
        unfold visit
        dsimp only
        split
        next => rfl
        next hopen =>
          obtain ⟨dep, hdep, -, hdepOpen⟩ := h x.2 hx (Bool.not_eq_true _ ▸ hopen)
          rw [if_neg fun hall => ?_]
          rw [List.all_eq_true.mp hall dep hdep] at hdepOpen
          cases hdepOpen
      rw [List.foldl_cons, hvisit, ih hl]
  refine hstep _ fun x hx => ?_
  have hlt := List.snd_lt_add_of_mem_zipIdx hx
  rwa [Nat.zero_add] at hlt

/-- There is one group, or none. -/
theorem groupByDependency_eq (hdeps : ∀ i, ∀ dep ∈ graph.deps i, dep ≤ i)
    (transactions : List Transaction) :
    groupByDependency transactions graph = if (firstGroup graph transactions).isEmpty then []
      else [firstGroup graph transactions] := by
  have hvisited := visited_foldl hdeps transactions 0
    (List.replicate transactions.length false) [] (by rw [List.length_replicate, Nat.zero_add])
    fun i hi => absurd hi (Nat.not_lt_zero i)
  rw [Nat.zero_add] at hvisited
  have hsecond := pass_of_visited hvisited
  unfold groupByDependency groupLoop firstGroup
  dsimp only
  split
  next => rfl
  next =>
    refine congrArg (List.cons _) ?_
    cases hn : transactions.length with
    | zero => rfl
    | succ n =>
      rw [hn] at hsecond
      unfold groupLoop
      rw [show pass graph transactions (pass graph transactions (List.replicate (n + 1) false)).1
        = _ from hsecond]
      rfl

/-- If all that a transaction depends on comes before it, all transactions are in the group. -/
theorem firstGroup_of_deps_lt (hdeps : ∀ i, ∀ dep ∈ graph.deps i, dep < i)
    (transactions : List Transaction) : firstGroup graph transactions = transactions := by
  -- what comes before `k` is processed, and nothing else
  have hfold : ∀ (l : List Transaction) (k : Nat) (processed : Processed)
      (group : List Transaction), processed.length = k + l.length →
      (∀ i < k, processed.at i = true) → (∀ i, k ≤ i → processed.at i = false) →
      ((l.zipIdx k).foldl (visit graph) (processed, group)).2 = group ++ l := by
    intro l
    induction l with
    | nil => exact fun k processed group _ _ _ => (List.append_nil group).symm
    | cons tx l ih =>
      intro k processed group hlength hbefore hafter
      rw [List.length_cons] at hlength
      have hopen : ¬ processed.at k = true := by
        rw [hafter k (Nat.le_refl k)]
        exact Bool.false_ne_true
      have hready : (graph.deps k).all processed.at = true :=
        List.all_eq_true.mpr fun dep hdep => hbefore dep (hdeps k dep hdep)
      have hvisit : visit graph (processed, group) (tx, k)
          = (processed.set k true, group ++ [tx]) := by
        unfold visit
        dsimp only
        rw [if_neg hopen, if_pos hready]
      have hearlier : ∀ i < k + 1, Processed.at (processed.set k true) i = true := by
        intro i hi
        by_cases hik : i = k
        · rw [hik, Processed.at_set_self (by omega)]
        · rw [Processed.at_set hik]
          exact hbefore i (by omega)
      have hlater : ∀ i, k + 1 ≤ i → Processed.at (processed.set k true) i = false := by
        intro i hi
        rw [Processed.at_set (Nat.ne_of_gt hi)]
        exact hafter i (Nat.le_of_succ_le hi)
      have hlength' : (processed.set k true).length = k + 1 + l.length := by
        rw [List.length_set]
        omega
      rw [List.zipIdx_cons, List.foldl_cons, hvisit, ih (k + 1) _ _ hlength' hearlier hlater,
        List.append_assoc]
      rfl
  refine hfold transactions 0 _ [] ?_ (fun i hi => absurd hi (Nat.not_lt_zero i)) fun i _ => ?_
  · rw [List.length_replicate, Nat.zero_add]
  · unfold Processed.at
    rw [List.getElem?_replicate]
    split <;> rfl

/-- Without dependencies, all transactions are in the group. -/
theorem firstGroup_of_deps_eq_nil (hdeps : ∀ i, graph.deps i = [])
    (transactions : List Transaction) : firstGroup graph transactions = transactions := by
  refine firstGroup_of_deps_lt (fun i dep hdep => ?_) transactions
  rw [hdeps i] at hdep
  cases hdep

end Pass

end InterBit.StateMachine.Block
