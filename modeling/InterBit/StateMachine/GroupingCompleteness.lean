import InterBit.StateMachine.Dependencies

/-!
# What the groups of a block leave out

The sender of a transaction is entered as its last user before its recipient is looked up, so a
contract that calls itself finds its own transaction there, and depends on it. No pass ever takes
that transaction. `groups_complete_iff`: the loop over the passes ends, and the groups have each
transaction of the list as often as the list has it exactly if no contract of the list calls itself.
-/

namespace InterBit.StateMachine.Block

open InterBit.Lib

/-- The outer loop of `group_by_dependency` for at most `fuel` passes; `none` if it goes on. -/
def groupsWithin (graph : DependencyGraph) (transactions : List Transaction) :
    Nat → Processed → Option (List (List Transaction))
  | 0, _ => none
  | fuel + 1, processed =>
    let (processed, group) := pass graph transactions processed
    if group.isEmpty then some []
    else (groupsWithin graph transactions fuel processed).map (group :: ·)

/-- The loop ends, and these are the groups. -/
def Returns (graph : DependencyGraph) (transactions : List Transaction)
    (groups : List (List Transaction)) : Prop :=
  ∃ fuel, groupsWithin graph transactions fuel (List.replicate transactions.length false)
    = some groups

/-! ## The loop ends -/

variable {graph : DependencyGraph}

/-- The second pass finds nothing. -/
theorem groupsWithin_eq (hdeps : ∀ i, ∀ dep ∈ graph.deps i, dep ≤ i)
    (transactions : List Transaction) (fuel : Nat) :
    groupsWithin graph transactions (fuel + 2) (List.replicate transactions.length false)
      = some (groupByDependency transactions graph) := by
  have hvisited := visited_foldl hdeps transactions 0
    (List.replicate transactions.length false) [] (by rw [List.length_replicate, Nat.zero_add])
    fun i hi => absurd hi (Nat.not_lt_zero i)
  rw [Nat.zero_add] at hvisited
  have hsecond := pass_of_visited hvisited
  rw [groupByDependency_eq hdeps, groupsWithin]
  unfold firstGroup
  dsimp only
  split
  next => rfl
  next =>
    have hsecond : pass graph transactions
        (pass graph transactions (List.replicate transactions.length false)).1
        = ((pass graph transactions (List.replicate transactions.length false)).1, []) := hsecond
    rw [groupsWithin, hsecond]
    rfl

/-- More passes make no difference. -/
theorem groupsWithin_succ {transactions : List Transaction} {fuel : Nat} {processed : Processed}
    {groups : List (List Transaction)}
    (h : groupsWithin graph transactions fuel processed = some groups) :
    groupsWithin graph transactions (fuel + 1) processed = some groups := by
  induction fuel generalizing processed groups with
  | zero => cases h
  | succ fuel ih =>
    rw [groupsWithin] at h ⊢
    dsimp only at h ⊢
    split at h
    next hempty =>
      rw [if_pos hempty]
      exact h
    next hsome =>
      obtain ⟨later, hlater, hgroups⟩ := Option.map_eq_some_iff.mp h
      rw [if_neg hsome, ih hlater, ← hgroups]
      rfl

/-- The loop ends with the groups of `groupByDependency`. -/
theorem returns_iff (hdeps : ∀ i, ∀ dep ∈ graph.deps i, dep ≤ i) (transactions : List Transaction)
    (groups : List (List Transaction)) :
    Returns graph transactions groups ↔ groups = groupByDependency transactions graph := by
  constructor
  · rintro ⟨fuel, hgroups⟩
    have hmore := groupsWithin_succ (groupsWithin_succ hgroups)
    exact Option.some.inj (hmore.symm.trans (groupsWithin_eq hdeps transactions fuel))
  · rintro rfl
    exact ⟨2, groupsWithin_eq hdeps transactions 0⟩

/-- All groups together are the first one. -/
theorem flatten_groupByDependency (hdeps : ∀ i, ∀ dep ∈ graph.deps i, dep ≤ i)
    (transactions : List Transaction) :
    (groupByDependency transactions graph).flatten = firstGroup graph transactions := by
  rw [groupByDependency_eq hdeps]
  split
  next hempty =>
    rw [List.isEmpty_iff.mp hempty]
    rfl
  next => exact List.append_nil _

/-- A contract that calls itself depends on itself. -/
theorem self_mem_deps {accounts : Accounts} {transactions : List Transaction}
    {tx : Transaction} {i : Nat} (htx : transactions[i]? = some tx) (h : CallsItself accounts tx) :
    i ∈ (buildDependencyGraph accounts transactions).deps i :=
  mem_deps_iff.mpr (Or.inr ⟨rfl, tx, htx, h⟩)

/-! ## What is left out -/

section Visit

variable {graph : DependencyGraph}

/-- A visit takes one transaction at most. -/
theorem length_visit_le (state : Processed × List Transaction) (x : Transaction × Nat) :
    (visit graph state x).2.length ≤ state.2.length + 1 := by
  unfold visit
  dsimp only
  split
  next => exact Nat.le_succ _
  next =>
    split
    next => rw [List.length_append, List.length_singleton]
    next => exact Nat.le_succ _

theorem length_foldl_visit_le (l : List (Transaction × Nat)) :
    ∀ state : Processed × List Transaction,
      (l.foldl (visit graph) state).2.length ≤ state.2.length + l.length := by
  induction l with
  | nil => exact fun _ => Nat.le_refl _
  | cons x l ih =>
    intro state
    have hfirst := @length_visit_le graph state x
    have hrest := ih (visit graph state x)
    rw [List.foldl_cons, List.length_cons]
    omega

/-- What depends on itself is not processed. -/
theorem visit_self {i : Nat} (hself : i ∈ graph.deps i) (state : Processed × List Transaction)
    (hopen : state.1.at i = false) (x : Transaction × Nat) :
    (visit graph state x).1.at i = false := by
  unfold visit
  dsimp only
  split
  next => exact hopen
  next =>
    split
    next hready =>
      have hne : i ≠ x.2 := by
        rintro rfl
        exact absurd (hopen.symm.trans (List.all_eq_true.mp hready _ hself)) Bool.false_ne_true
      exact (Processed.at_set hne).trans hopen
    next => exact hopen

theorem foldl_visit_self {i : Nat} (hself : i ∈ graph.deps i) (l : List (Transaction × Nat)) :
    ∀ state : Processed × List Transaction, state.1.at i = false →
      (l.foldl (visit graph) state).1.at i = false := by
  induction l with
  | nil => exact fun _ hopen => hopen
  | cons x l ih => exact fun state hopen => ih _ (visit_self hself state hopen x)

/-- Nor is it taken. -/
theorem visit_self_taken {i : Nat} (hself : i ∈ graph.deps i)
    (state : Processed × List Transaction) (hopen : state.1.at i = false) (tx : Transaction) :
    visit graph state (tx, i) = state := by
  have hwaits : ¬ (graph.deps i).all state.1.at = true := fun hready =>
    absurd (hopen.symm.trans (List.all_eq_true.mp hready _ hself)) Bool.false_ne_true
  unfold visit
  dsimp only
  rw [if_neg (by rw [hopen]; exact Bool.false_ne_true), if_neg hwaits]

/-- The group is too small for what depends on itself. -/
theorem length_firstGroup_lt {transactions : List Transaction} {tx : Transaction} {i : Nat}
    (htx : transactions[i]? = some tx) (hself : i ∈ graph.deps i) :
    (firstGroup graph transactions).length < transactions.length := by
  have hmem : (tx, i) ∈ transactions.zipIdx := List.mk_mem_zipIdx_iff_getElem?.mpr htx
  obtain ⟨before, after, hsplit⟩ := List.append_of_mem hmem
  have hlength : before.length + (after.length + 1) = transactions.length := by
    rw [← List.length_cons, ← List.length_append, ← hsplit, List.length_zipIdx]
  have hopen : Processed.at (List.replicate transactions.length false) i = false := by
    unfold Processed.at
    rw [List.getElem?_replicate]
    split <;> rfl
  unfold firstGroup pass
  rw [hsplit, List.foldl_append, List.foldl_cons,
    visit_self_taken hself _ (foldl_visit_self hself before _ hopen)]
  have hbefore := @length_foldl_visit_le graph before
    (List.replicate transactions.length false, [])
  have hafter := @length_foldl_visit_le graph after
    (before.foldl (visit graph) (List.replicate transactions.length false, []))
  rw [List.length_nil] at hbefore
  omega

end Visit

/-- The loop ends with groups that are the list again exactly if no contract calls itself. -/
theorem groups_complete_iff (accounts : Accounts) (transactions : List Transaction) :
    (∃ groups, Returns (buildDependencyGraph accounts transactions) transactions groups ∧
      groups.flatten.Perm transactions) ↔
      ∀ tx ∈ transactions, ¬ CallsItself accounts tx := by
  have hle := deps_le accounts transactions
  constructor
  · rintro ⟨groups, hreturns, hperm⟩ tx hmem hcalls
    obtain ⟨i, htx⟩ := List.getElem?_of_mem hmem
    rw [(returns_iff hle transactions groups).mp hreturns,
      flatten_groupByDependency hle] at hperm
    exact absurd hperm.length_eq (Nat.ne_of_lt (length_firstGroup_lt htx (self_mem_deps htx hcalls)))
  · intro hno
    refine ⟨_, (returns_iff hle transactions _).mpr rfl, ?_⟩
    have hlt : ∀ i, ∀ dep ∈ (buildDependencyGraph accounts transactions).deps i, dep < i := by
      intro i dep hdep
      refine (deps_lt_or_self accounts transactions i dep hdep).resolve_right ?_
      rintro ⟨_, tx, hmem, hcalls⟩
      exact hno tx hmem hcalls
    rw [flatten_groupByDependency hle, firstGroup_of_deps_lt hlt]

/-- Every account is a contract. -/
def sampleContracts : Accounts := fun _ =>
  some { (default : Account) with codeHash := some (.replicate 32 1) }

/-- A contract calls itself, and then another account. -/
def sampleCalls : List Transaction :=
  [sampleTransfer alice alice 0, sampleTransfer alice bob 0]

/-- Both transactions are lost: the second waits for the first, which waits for itself. -/
theorem selfCall_dropped : ¬ ∀ (accounts : Accounts) (transactions : List Transaction),
    ∃ groups, Returns (buildDependencyGraph accounts transactions) transactions groups ∧
      groups.flatten.Perm transactions := by
  intro hgeneral
  obtain ⟨groups, hreturns, hperm⟩ := hgeneral sampleContracts sampleCalls
  have hgroups := (returns_iff (deps_le sampleContracts sampleCalls) sampleCalls groups).mp hreturns
  have hnone : groupByDependency sampleCalls (buildDependencyGraph sampleContracts sampleCalls)
      = [] := by decide
  rw [hgroups, hnone] at hperm
  exact absurd hperm.length_eq (by decide)

end InterBit.StateMachine.Block
