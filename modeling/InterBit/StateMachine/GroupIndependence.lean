import InterBit.StateMachine.GroupingCompleteness

/-!
# Groups that depend on themselves

`group_by_dependency` is meant to put a transaction into a later group than all it depends on, so
that a group can run in parallel. As the loops let a transaction in as soon as its dependencies are
marked, and mark what they let in, the one group there is has the dependencies as well.
`groups_independent_iff`: the groups are independent exactly if there is nothing to depend on.

Two transactions of a block may be equal, so the loops are repeated here with the place of each
transaction in the list (`groupsWithin_eq_map`).
-/

namespace InterBit.StateMachine.Block

open InterBit.Lib Relation

/-- A transaction and its place in the list. -/
abbrev Placed := Transaction × Nat

/-- The body of the inner loop. -/
def visitPlaced (graph : DependencyGraph) (state : Processed × List Placed) (x : Placed) :
    Processed × List Placed :=
  let (processed, group) := state
  if processed.at x.2 then (processed, group)
  else if (graph.deps x.2).all processed.at then (processed.set x.2 true, group ++ [x])
  else (processed, group)

/-- The inner loop. -/
def passPlaced (graph : DependencyGraph) (transactions : List Transaction)
    (processed : Processed) : Processed × List Placed :=
  transactions.zipIdx.foldl (visitPlaced graph) (processed, [])

/-- The outer loop for at most `fuel` passes; `none` if it goes on. -/
def placedWithin (graph : DependencyGraph) (transactions : List Transaction) :
    Nat → Processed → Option (List (List Placed))
  | 0, _ => none
  | fuel + 1, processed =>
    let (processed, group) := passPlaced graph transactions processed
    if group.isEmpty then some []
    else (placedWithin graph transactions fuel processed).map (group :: ·)

/-- The loop ends, and these are the groups. -/
def ReturnsPlaced (graph : DependencyGraph) (transactions : List Transaction)
    (groups : List (List Placed)) : Prop :=
  ∃ fuel, placedWithin graph transactions fuel (List.replicate transactions.length false)
    = some groups

/-- No two transactions of a group have a path from one to the other, and what a transaction
depends on is in a strictly earlier group than itself. -/
structure IndependentGroups (graph : DependencyGraph) (transactions : List Transaction)
    (groups : List (List Placed)) : Prop where
  apart : ∀ group ∈ groups, ∀ x ∈ group, ∀ y ∈ group, x.2 ≠ y.2 → ¬ Reaches graph x.2 y.2
  earlier : ∀ i < transactions.length, ∀ dep ∈ graph.deps i,
    ∃ (k k' : Nat) (group group' : List Placed),
      k' < k ∧ groups[k]? = some group ∧ groups[k']? = some group' ∧
      (∃ x ∈ group, Prod.snd x = i) ∧ ∃ y ∈ group', Prod.snd y = dep

/-! ## The places change nothing -/

section Places

variable {graph : DependencyGraph}

theorem visit_eq_map (processed : Processed) (group : List Placed) (x : Placed) :
    visit graph (processed, group.map Prod.fst) x
      = ((visitPlaced graph (processed, group) x).1,
          (visitPlaced graph (processed, group) x).2.map Prod.fst) := by
  unfold visit visitPlaced
  dsimp only
  split
  next => rfl
  next =>
    split
    next => simp only [List.map_append, List.map_cons, List.map_nil]
    next => rfl

theorem foldl_visit_eq_map (l : List Placed) : ∀ (processed : Processed) (group : List Placed),
    l.foldl (visit graph) (processed, group.map Prod.fst)
      = ((l.foldl (visitPlaced graph) (processed, group)).1,
          (l.foldl (visitPlaced graph) (processed, group)).2.map Prod.fst) := by
  induction l with
  | nil => exact fun _ _ => rfl
  | cons x l ih =>
    intro processed group
    rw [List.foldl_cons, List.foldl_cons, visit_eq_map]
    exact ih _ _

theorem pass_eq_map (transactions : List Transaction) (processed : Processed) :
    pass graph transactions processed
      = ((passPlaced graph transactions processed).1,
          (passPlaced graph transactions processed).2.map Prod.fst) :=
  foldl_visit_eq_map transactions.zipIdx processed []

/-- Without the places, these are the groups of `group_by_dependency`. -/
theorem groupsWithin_eq_map (transactions : List Transaction) (fuel : Nat) :
    ∀ processed : Processed, groupsWithin graph transactions fuel processed
      = (placedWithin graph transactions fuel processed).map (·.map (·.map Prod.fst)) := by
  induction fuel with
  | zero => exact fun _ => rfl
  | succ fuel ih =>
    intro processed
    rw [groupsWithin, placedWithin, pass_eq_map]
    dsimp only
    rw [List.isEmpty_map]
    split
    next => rfl
    next =>
      rw [ih, Option.map_map, Option.map_map]
      rfl

theorem returns_iff_placed (transactions : List Transaction)
    (groups : List (List Transaction)) :
    Returns graph transactions groups ↔
      ∃ placed, ReturnsPlaced graph transactions placed ∧ groups = placed.map (·.map Prod.fst) := by
  unfold Returns ReturnsPlaced
  simp only [groupsWithin_eq_map, Option.map_eq_some_iff]
  constructor
  · intro ⟨fuel, placed, hplaced, hgroups⟩
    exact ⟨placed, ⟨fuel, hplaced⟩, hgroups.symm⟩
  · intro ⟨placed, ⟨fuel, hplaced⟩, hgroups⟩
    exact ⟨fuel, placed, hplaced, hgroups.symm⟩

/-- The loop returns at most one group. -/
theorem exists_returnsPlaced (hdeps : ∀ i, ∀ dep ∈ graph.deps i, dep ≤ i)
    (transactions : List Transaction) :
    ∃ placed, ReturnsPlaced graph transactions placed ∧ placed.length ≤ 1 := by
  obtain ⟨placed, hplaced, hgroups⟩ := (returns_iff_placed transactions _).mp
    ((returns_iff hdeps transactions _).mpr rfl)
  refine ⟨placed, hplaced, ?_⟩
  have hlength : (groupByDependency transactions graph).length = placed.length := by
    rw [hgroups, List.length_map]
  rw [← hlength, groupByDependency_eq hdeps]
  split
  next => exact Nat.zero_le 1
  next => exact Nat.le_refl 1

end Places

/-! ## Nothing to depend on -/

/-- No transaction has a dependency exactly if no two share an account and none calls itself. -/
theorem deps_eq_nil_iff (accounts : Accounts) (transactions : List Transaction) :
    (∀ i, (buildDependencyGraph accounts transactions).deps i = []) ↔
      transactions.Pairwise (Apart (Uses accounts)) ∧
        ∀ tx ∈ transactions, ¬ CallsItself accounts tx := by
  constructor
  · intro hnil
    have hno : ∀ i dep, dep ∉ (buildDependencyGraph accounts transactions).deps i := by
      intro i dep h
      rw [hnil i] at h
      cases h
    constructor
    · refine List.pairwise_iff_getElem.mpr fun j i hj hi hlt address huse huse' => ?_
      have hlink : Link accounts transactions i j := ⟨hlt, address,
        ⟨_, List.getElem?_eq_getElem hi, huse'⟩, ⟨_, List.getElem?_eq_getElem hj, huse⟩⟩
      obtain ⟨dep, hdep, _⟩ := TransGen.head'_iff.mp hlink.reaches
      exact hno i dep hdep
    · intro tx hmem hcalls
      obtain ⟨i, htx⟩ := List.getElem?_of_mem hmem
      exact hno i i (self_mem_deps htx hcalls)
  · intro ⟨hapart, hself⟩ i
    refine List.eq_nil_iff_forall_not_mem.mpr fun dep hdep => ?_
    rcases mem_deps_iff.mp hdep with ⟨address, ⟨tx, htx, huse⟩, hlt, ⟨tx', htx', huse'⟩, _⟩ |
      ⟨_, tx, htx, hcalls⟩
    · obtain ⟨hi, rfl⟩ := List.getElem?_eq_some_iff.mp htx
      obtain ⟨hj, rfl⟩ := List.getElem?_eq_some_iff.mp htx'
      exact List.pairwise_iff_getElem.mp hapart dep i hj hi hlt address huse' huse
    · exact hself tx (List.mem_of_getElem? htx) hcalls

/-- The groups that are returned are independent exactly if no two transactions have an account in
common, senders and called contracts, and no contract calls itself. -/
theorem groups_independent_iff (accounts : Accounts) (transactions : List Transaction) :
    (∀ groups, ReturnsPlaced (buildDependencyGraph accounts transactions) transactions groups →
      IndependentGroups (buildDependencyGraph accounts transactions) transactions groups) ↔
    transactions.Pairwise (Apart (Uses accounts)) ∧
      ∀ tx ∈ transactions, ¬ CallsItself accounts tx := by
  rw [← deps_eq_nil_iff]
  constructor
  · intro hindependent i
    obtain ⟨groups, hreturns, hone⟩ :=
      exists_returnsPlaced (deps_le accounts transactions) transactions
    refine List.eq_nil_iff_forall_not_mem.mpr fun dep hdep => ?_
    have hi : i < transactions.length := by
      rcases mem_deps_iff.mp hdep with ⟨_, ⟨tx, htx, _⟩, _⟩ | ⟨_, tx, htx, _⟩
      · exact (List.getElem?_eq_some_iff.mp htx).1
      · exact (List.getElem?_eq_some_iff.mp htx).1
    -- two different groups, where there is one at most
    obtain ⟨k, k', group, group', hlt, hk, _⟩ :=
      (hindependent groups hreturns).earlier i hi dep hdep
    have hklt := (List.getElem?_eq_some_iff.mp hk).1
    omega
  · intro hnil groups _
    constructor
    · intro group _ x _ y _ _ hreaches
      obtain ⟨dep, hdep, _⟩ := TransGen.head'_iff.mp hreaches
      rw [hnil x.2] at hdep
      cases hdep
    · intro i _ dep hdep
      rw [hnil i] at hdep
      cases hdep

/-- Alice pays Bob twice, and both payments are in one group. -/
theorem dependent_group : ¬ ∀ (accounts : Accounts) (transactions : List Transaction) (groups),
    ReturnsPlaced (buildDependencyGraph accounts transactions) transactions groups →
      IndependentGroups (buildDependencyGraph accounts transactions) transactions groups := by
  intro hgeneral
  have hindependent := hgeneral sampleAccounts
    [sampleTransfer alice bob 5, sampleTransfer alice bob 7]
    [[(sampleTransfer alice bob 5, 0), (sampleTransfer alice bob 7, 1)]] ⟨2, by decide⟩
  refine hindependent.apart _ (List.mem_singleton_self _) (sampleTransfer alice bob 7, 1)
    (by simp) (sampleTransfer alice bob 5, 0) (by simp) (by decide) ?_
  exact TransGen.single (show 0 ∈ _ by decide)

end InterBit.StateMachine.Block
