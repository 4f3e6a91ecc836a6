import Mathlib.Data.Finset.Max
import InterBit.StateMachine.Schedule

/-!
# What the batches of `topological_sort` are

`topological_sort` is modelled here with its panic and with its loop as it is: the degrees are keyed
by the ids of the tasks, and raised for the positions in the graph. `analyze_transactions` numbers
the tasks by their positions. `sort_partitions`: with any distinct ids the loop ends, unless a
position that is to be raised is no id, and its batches are the tasks; that no two tasks of a batch
conflict needs the ids to be the positions.

A degree counts the tasks that depend on a task, so what is taken first is what nobody depends on.
`sort_ordered_iff`: no task ever comes after one that it depends on.
-/

namespace InterBit.StateMachine

open InterBit.Lib

/-- `*in_degree.get_mut(&dep).unwrap() += 1`; `none` is the panic. -/
def raiseExisting (inDegree : List (Nat × Nat)) (dep : Nat) : Option (List (Nat × Nat)) :=
  if inDegree.any (·.1 == dep) then some (raiseDegree inDegree dep) else none

/-- "Compute the in-degrees". -/
def computeDegrees (order : IterOrder (Nat × List Nat)) (tasks : List ExecutionTask)
    (graph : DependencyGraph) : Option (List (Nat × Nat)) :=
  ((order.arrange graph).flatMap (·.2)).foldlM raiseExisting (tasks.map fun task => (task.id, 0))

/-- The loop of `topological_sort` for at most `fuel` passes; `none` if it goes on. -/
def sortWithin (order : IterOrder (Nat × Nat)) (graph : DependencyGraph) :
    Nat → List (Nat × Nat) → List ExecutionTask → Option (List (List ExecutionTask))
  | 0, inDegree, _ => if inDegree.isEmpty then some [] else none
  | fuel + 1, inDegree, taskMap =>
    if inDegree.isEmpty then some []
    else
      let (batch, toRemove) := nextBatch order inDegree taskMap
      (sortWithin order graph fuel (toRemove.foldl (removeId graph) inDegree)
        (taskMap.filter (!toRemove.contains ·.id))).map fun rest =>
          if batch.isEmpty then rest else batch :: rest

/-- `topological_sort` comes to its end, with these batches. -/
def SortsInto (graphOrder : IterOrder (Nat × List Nat)) (degreeOrder : IterOrder (Nat × Nat))
    (tasks : List ExecutionTask) (graph : DependencyGraph) (batches : List (List ExecutionTask)) :
    Prop :=
  ∃ inDegree fuel, computeDegrees graphOrder tasks graph = some inDegree ∧
    sortWithin degreeOrder graph fuel inDegree tasks = some batches

/-- Each task is in a later batch than what it depends on. -/
def PlacedInOrder (graph : DependencyGraph) (batches : List (List ExecutionTask)) : Prop :=
  ∀ i, ∀ dep ∈ graph.deps i, ∃ (k' k : Nat) (batch' batch : List ExecutionTask), k' < k ∧
    batches[k']? = some batch' ∧ batches[k]? = some batch ∧
    (∃ task ∈ batch', task.id = dep) ∧ ∃ task ∈ batch, task.id = i

/-! ## The loop ends -/

section Degrees

theorem raiseDegree_keys (inDegree : List (Nat × Nat)) (dep : Nat) :
    (raiseDegree inDegree dep).map Prod.fst = inDegree.map Prod.fst := by
  unfold raiseDegree
  rw [List.map_map]
  refine List.map_congr_left fun e _ => ?_
  rw [Function.comp_apply]
  split <;> rfl

/-- Raising does not panic if everything to be raised is there. -/
theorem foldlM_raiseExisting (deps : List Nat) : ∀ inDegree : List (Nat × Nat),
    deps.foldlM raiseExisting inDegree
      = if ∀ dep ∈ deps, dep ∈ inDegree.map Prod.fst then some (deps.foldl raiseDegree inDegree)
        else none := by
  induction deps with
  | nil => exact fun inDegree => (if_pos (List.forall_mem_nil _)).symm
  | cons dep deps ih =>
    intro inDegree
    have hany : inDegree.any (·.1 == dep) = true ↔ dep ∈ inDegree.map Prod.fst := by
      rw [List.any_eq_true, List.mem_map]
      exact exists_congr fun e => and_congr_right fun _ => beq_iff_eq
    rw [List.foldlM_cons, raiseExisting]
    by_cases hdep : dep ∈ inDegree.map Prod.fst
    · rw [if_pos (hany.mpr hdep)]
      show deps.foldlM raiseExisting (raiseDegree inDegree dep) = _
      rw [ih, raiseDegree_keys]
      refine if_congr ?_ rfl rfl
      rw [List.forall_mem_cons]
      exact (and_iff_right hdep).symm
    · rw [if_neg fun h => hdep (hany.mp h)]
      exact (if_neg fun h => hdep (h dep (List.mem_cons_self ..))).symm

theorem lt_of_conflictAt {tasks : List ExecutionTask} {j i : Nat}
    (h : conflictAt tasks j i = true) : i < tasks.length := by
  by_contra hle
  unfold conflictAt at h
  rw [List.getElem?_eq_none (Nat.le_of_not_lt hle)] at h
  split at h
  next hnone => cases hnone
  next => cases h

/-- There is no panic exactly if each position that a later task conflicts with is an id. -/
theorem computeDegrees_eq_some_iff {order : IterOrder (Nat × List Nat)}
    {tasks : List ExecutionTask} {inDegree : List (Nat × Nat)} :
    computeDegrees order tasks (buildDependencyGraph tasks) = some inDegree ↔
      (∀ i j, j < i → conflictAt tasks j i = true → j ∈ tasks.map (·.id)) ∧
        inDegree = initialDegrees order tasks (buildDependencyGraph tasks) := by
  have hkeys : (tasks.map fun task => (task.id, 0)).map Prod.fst = tasks.map (·.id) := by
    rw [List.map_map]
    rfl
  have hraised : (∀ j ∈ (order.arrange (buildDependencyGraph tasks)).flatMap (·.2),
      j ∈ tasks.map (·.id)) ↔
        ∀ i j, j < i → conflictAt tasks j i = true → j ∈ tasks.map (·.id) := by
    simp only [((order.perm _).flatMap_right _).mem_iff, List.mem_flatMap, buildDependencyGraph]
    constructor
    · intro h i j hlt hconflict
      exact h j ⟨_, List.mem_map_of_mem (List.mem_range.mpr (lt_of_conflictAt hconflict)),
        List.mem_filter.mpr ⟨List.mem_range.mpr hlt, hconflict⟩⟩
    · rintro h j ⟨e, he, hj⟩
      obtain ⟨i, _, rfl⟩ := List.mem_map.mp he
      obtain ⟨hlt, hconflict⟩ := List.mem_filter.mp hj
      exact h i j (List.mem_range.mp hlt) hconflict
  unfold computeDegrees initialDegrees
  rw [foldlM_raiseExisting, hkeys, ← hraised]
  split
  next h => exact ⟨fun he => ⟨h, (Option.some.inj he).symm⟩, fun he => congrArg some he.2.symm⟩
  next h => exact ⟨fun he => (by cases he), fun he => absurd he.1 h⟩

/-- As every pass takes a task out, the loop ends. -/
theorem sortWithin_eq (order : IterOrder (Nat × Nat)) {graph : DependencyGraph}
    (hdeps : ∀ i, (graph.deps i).Nodup) (fuel : Nat) :
    ∀ (inDegree : List (Nat × Nat)) (taskMap : List ExecutionTask),
      Degrees graph inDegree (taskMap.map (·.id)) → taskMap.length ≤ fuel →
      sortWithin order graph fuel inDegree taskMap
        = some (sortLoop order graph fuel inDegree taskMap) := by
  induction fuel with
  | zero =>
    intro inDegree taskMap h hfuel
    have hkeys := h.keys
    rw [List.length_eq_zero_iff.mp (Nat.le_zero.mp hfuel), List.map_nil] at hkeys
    rw [sortWithin, List.map_eq_nil_iff.mp hkeys]
    rfl
  | succ fuel ih =>
    intro inDegree taskMap h hfuel
    rw [sortWithin, sortLoop]
    split
    next => rfl
    next hne =>
      have hlayer := layer_nextBatch order h fun he => hne (List.isEmpty_iff.mpr he)
      obtain ⟨hrest, hshorter⟩ := hlayer.next h hdeps
      dsimp only
      rw [ih _ _ hrest (by omega)]
      rfl

end Degrees

theorem conflictAt_getElem {tasks : List ExecutionTask} {j i : Nat} (hj : j < tasks.length)
    (hi : i < tasks.length) : conflictAt tasks j i = hasConflict tasks[j] tasks[i] := by
  unfold conflictAt
  rw [List.getElem?_eq_getElem hj, List.getElem?_eq_getElem hi]

/-- For tasks with any distinct ids: unless a position that is to be raised is no id, the sort ends,
its batches are not empty and have every task once, and if the ids are the positions, no two tasks
of a batch conflict. -/
theorem sort_partitions (graphOrder : IterOrder (Nat × List Nat))
    (degreeOrder : IterOrder (Nat × Nat)) {tasks : List ExecutionTask}
    (hnodup : (tasks.map (·.id)).Nodup)
    (hraised : ∀ i j, j < i → conflictAt tasks j i = true → j ∈ tasks.map (·.id)) :
    ∃ batches, SortsInto graphOrder degreeOrder tasks (buildDependencyGraph tasks) batches ∧
      batches.flatten.Perm tasks ∧ (∀ batch ∈ batches, batch ≠ []) ∧
      (tasks.map (·.id) = List.range tasks.length →
        ∀ batch ∈ batches, batch.Pairwise fun a b => hasConflict a b = false) := by
  have hdegrees := degrees_of_nodup graphOrder hnodup
  have hdeps := nodup_deps_buildDependencyGraph tasks
  have hsort := sortWithin_eq degreeOrder hdeps _ _ _ hdegrees (Nat.le_refl _)
  obtain ⟨hperm, hbatches⟩ := sortLoop_spec degreeOrder hdeps _ _ _ hdegrees (Nat.le_refl _)
  exact ⟨_, ⟨_, _, computeDegrees_eq_some_iff.mpr ⟨hraised, rfl⟩, hsort⟩, hperm,
    fun batch hbatch => (hbatches batch hbatch).1,
    fun hids => topologicalSort_conflictFree graphOrder degreeOrder hids⟩

/-- If the tasks are numbered by their positions, every position is an id. -/
theorem raised_of_numbered {tasks : List ExecutionTask}
    (hids : tasks.map (·.id) = List.range tasks.length) :
    ∀ i j, j < i → conflictAt tasks j i = true → j ∈ tasks.map (·.id) := by
  intro i j hlt hconflict
  rw [hids, List.mem_range]
  exact hlt.trans (lt_of_conflictAt hconflict)

/-- Alice and Bob pay Carol. -/
def commonRecipient : List ExecutionTask :=
  analyzeTransactions sampleAccounts [sampleTransfer alice carol 5, sampleTransfer bob carol 7]

theorem sort_partitions_two :
    ∃ batches, SortsInto sampleOrder sampleOrder commonRecipient
        (buildDependencyGraph commonRecipient) batches ∧
      batches.flatten.Perm commonRecipient ∧ (∀ batch ∈ batches, batch ≠ []) ∧
      (commonRecipient.map (·.id) = List.range commonRecipient.length →
        ∀ batch ∈ batches, batch.Pairwise fun a b => hasConflict a b = false) :=
  sort_partitions sampleOrder sampleOrder (by decide) (raised_of_numbered (by decide))

/-- The two tasks with the ids 5 and 6: the sort panics, as there is no task 0. -/
theorem sort_panics : ¬ ∀ (graphOrder : IterOrder (Nat × List Nat))
    (degreeOrder : IterOrder (Nat × Nat)) (tasks : List ExecutionTask),
    (tasks.map (·.id)).Nodup →
      ∃ batches, SortsInto graphOrder degreeOrder tasks (buildDependencyGraph tasks) batches ∧
        batches.flatten.Perm tasks ∧ (∀ batch ∈ batches, batch ≠ []) ∧
        ∀ batch ∈ batches, batch.Pairwise fun a b => hasConflict a b = false := by
  intro hgeneral
  obtain ⟨_, ⟨inDegree, _, hcompute, _⟩, _⟩ := hgeneral sampleOrder sampleOrder
    [analyzeTransaction sampleAccounts 5 (sampleTransfer alice carol 5),
      analyzeTransaction sampleAccounts 6 (sampleTransfer bob carol 7)] (by decide)
  have hnone : computeDegrees sampleOrder
      [analyzeTransaction sampleAccounts 5 (sampleTransfer alice carol 5),
        analyzeTransaction sampleAccounts 6 (sampleTransfer bob carol 7)]
      (buildDependencyGraph
        [analyzeTransaction sampleAccounts 5 (sampleTransfer alice carol 5),
          analyzeTransaction sampleAccounts 6 (sampleTransfer bob carol 7)]) = none := by decide
  exact nomatch hcompute.symm.trans hnone

/-- Three tasks with the ids 1, 2 and 0: the first batch has both payments to Carol, since the
conflict of positions 0 and 1 holds back the task with the id 0. -/
theorem renumbered_conflict : SortsInto sampleOrder sampleOrder
    [analyzeTransaction sampleAccounts 1 (sampleTransfer alice carol 5),
      analyzeTransaction sampleAccounts 2 (sampleTransfer bob carol 7),
      analyzeTransaction sampleAccounts 0 (sampleTransfer dave dave 1)]
    (buildDependencyGraph
      [analyzeTransaction sampleAccounts 1 (sampleTransfer alice carol 5),
        analyzeTransaction sampleAccounts 2 (sampleTransfer bob carol 7),
        analyzeTransaction sampleAccounts 0 (sampleTransfer dave dave 1)])
    [[analyzeTransaction sampleAccounts 1 (sampleTransfer alice carol 5),
        analyzeTransaction sampleAccounts 2 (sampleTransfer bob carol 7)],
      [analyzeTransaction sampleAccounts 0 (sampleTransfer dave dave 1)]] :=
  ⟨_, 2, rfl, by decide⟩

/-! ## The order of the batches -/

/-- The degree of a task is the number of tasks left that depend on it. -/
def CountsDependents (graph : DependencyGraph) (inDegree : List (Nat × Nat)) (ids : List Nat) :
    Prop :=
  ∀ e ∈ inDegree, e.2 = dependents graph ids e.1

section Order

variable {graph : DependencyGraph} {inDegree : List (Nat × Nat)}

theorem CountsDependents.removeId {ids : List Nat} (h : CountsDependents graph inDegree ids)
    (hnodup : ids.Nodup) (hdeps : ∀ i, (graph.deps i).Nodup) {id : Nat} (hid : id ∈ ids) :
    CountsDependents graph (removeId graph inDegree id) (ids.filter (· != id)) := by
  intro e he
  unfold StateMachine.removeId at he
  rw [foldl_lowerDegree] at he
  obtain ⟨e', he', rfl⟩ := List.mem_map.mp he
  have hexact := h e' (List.mem_filter.mp he').1
  have hcount := (List.perm_cons_erase hid).countP_eq fun i => (graph.deps i).contains e'.1
  rw [List.countP_cons, hnodup.erase_eq_filter] at hcount
  unfold dependents at hexact ⊢
  rw [hcount] at hexact
  dsimp only
  rw [(hdeps id).count, hexact]
  simp only [List.contains_iff_mem]
  exact Nat.add_sub_cancel ..

theorem CountsDependents.removeIds (hdeps : ∀ i, (graph.deps i).Nodup) {toRemove : List Nat}
    {inDegree : List (Nat × Nat)} {ids : List Nat} (h : CountsDependents graph inDegree ids)
    (hids : ids.Nodup) (hnodup : toRemove.Nodup) (hsub : toRemove ⊆ ids) :
    CountsDependents graph (toRemove.foldl (StateMachine.removeId graph) inDegree)
      (ids.filter fun i => !toRemove.contains i) :=
  (foldl_removeId (P := fun inDegree ids => CountsDependents graph inDegree ids ∧ ids.Nodup)
    (fun _ _ _ hid h => ⟨h.1.removeId h.2 hdeps hid, h.2.filter _⟩) ⟨h, hids⟩ hnodup hsub).1

/-- Nothing depends on the task with the largest id, so there is always a task of degree 0, and no
task that is left depends on one of the batch. -/
theorem free_nextBatch (order : IterOrder (Nat × Nat)) {taskMap : List ExecutionTask}
    (h : Degrees graph inDegree (taskMap.map (·.id)))
    (hcounts : CountsDependents graph inDegree (taskMap.map (·.id)))
    (hlt : ∀ i, ∀ dep ∈ graph.deps i, dep < i) (hne : inDegree ≠ []) :
    ∀ a ∈ (nextBatch order inDegree taskMap).1, ∀ b ∈ taskMap, a.id ∉ graph.deps b.id := by
  have harrange := order.perm inDegree
  have hids : (taskMap.map (·.id)).toFinset.Nonempty := by
    rw [List.toFinset_nonempty_iff, ← h.keys]
    exact fun he => hne (List.map_eq_nil_iff.mp he)
  -- nothing depends on the last task, so the batch is not empty
  obtain ⟨last, hlast, hmax⟩ := (taskMap.map (·.id)).toFinset.exists_max_image id hids
  rw [List.mem_toFinset] at hlast
  obtain ⟨task, htask, hid⟩ := List.mem_map.mp hlast
  have hfree : last ∈ ((order.arrange inDegree).filter (·.2 == 0)).map (·.1) := by
    rw [← h.keys] at hlast
    obtain ⟨e, he, rfl⟩ := List.mem_map.mp hlast
    have hzero : e.2 = 0 := by
      rw [hcounts e he, dependents, List.countP_eq_zero]
      intro i hi hdep
      have hle := hmax i (List.mem_toFinset.mpr hi)
      exact absurd (hlt i _ (List.contains_iff_mem.mp hdep)) (Nat.not_lt.mpr hle)
    exact List.mem_map_of_mem
      (List.mem_filter.mpr ⟨harrange.mem_iff.mpr he, beq_iff_eq.mpr hzero⟩)
  unfold nextBatch
  dsimp only
  split
  next hempty =>
    have htaken := (mem_takeTasks h.nodup).mpr ⟨htask, hid ▸ hfree⟩
    rw [List.isEmpty_iff.mp hempty] at htaken
    cases htaken
  next =>
    intro a ha b hb hdep
    obtain ⟨e, he, heq⟩ := List.mem_map.mp ((mem_takeTasks h.nodup).mp ha).2
    obtain ⟨he, hdegree⟩ := List.mem_filter.mp he
    -- a task that is taken has no dependents that are left
    have hcount := hcounts e (harrange.mem_iff.mp he)
    rw [eq_of_beq hdegree, eq_comm, dependents, List.countP_eq_zero] at hcount
    refine hcount b.id (List.mem_map_of_mem hb) (List.contains_iff_mem.mpr ?_)
    rw [heq]
    exact hdep

/-- No task of a batch depends on one of an earlier batch. -/
theorem sortLoop_reversed (order : IterOrder (Nat × Nat)) (hdeps : ∀ i, (graph.deps i).Nodup)
    (hlt : ∀ i, ∀ dep ∈ graph.deps i, dep < i) (fuel : Nat) :
    ∀ (inDegree : List (Nat × Nat)) (taskMap : List ExecutionTask),
      Degrees graph inDegree (taskMap.map (·.id)) →
      CountsDependents graph inDegree (taskMap.map (·.id)) → taskMap.length ≤ fuel →
      (sortLoop order graph fuel inDegree taskMap).Pairwise fun earlier later =>
        ∀ a ∈ earlier, ∀ b ∈ later, a.id ∉ graph.deps b.id := by
  induction fuel with
  | zero => exact fun _ _ _ _ _ => List.Pairwise.nil
  | succ fuel ih =>
    intro inDegree taskMap h hcounts hfuel
    unfold sortLoop
    split
    next => exact List.Pairwise.nil
    next hne =>
      have hne : inDegree ≠ [] := fun he => hne (List.isEmpty_iff.mpr he)
      have hlayer := layer_nextBatch order h hne
      have hfree := free_nextBatch order h hcounts hlt hne
      generalize nextBatch order inDegree taskMap = next at hlayer hfree ⊢
      obtain ⟨batch, toRemove⟩ := next
      dsimp only at hlayer hfree ⊢
      obtain ⟨hrest, hshorter⟩ := hlayer.next h hdeps
      have hrestCounts := hcounts.removeIds hdeps h.nodup hlayer.nodup hlayer.subset
      rw [List.filter_map] at hrestCounts
      have hpairwise := ih _ _ hrest hrestCounts (by omega)
      obtain ⟨hflatten, _⟩ := sortLoop_spec order hdeps fuel _ _ hrest (by omega)
      split
      next => exact hpairwise
      next =>
        refine List.pairwise_cons.mpr ⟨fun later hlater a ha b hb => ?_, hpairwise⟩
        have hleft := hflatten.subset (List.mem_flatten_of_mem hlater hb)
        exact hfree a ha b (List.mem_filter.mp hleft).1

end Order

/-- What a task depends on is placed before it exactly if no two tasks conflict, so that there is
nothing to depend on. -/
theorem sort_ordered_iff (graphOrder : IterOrder (Nat × List Nat))
    (degreeOrder : IterOrder (Nat × Nat)) {tasks : List ExecutionTask}
    (hids : tasks.map (·.id) = List.range tasks.length) :
    (∀ batches, SortsInto graphOrder degreeOrder tasks (buildDependencyGraph tasks) batches →
      PlacedInOrder (buildDependencyGraph tasks) batches) ↔
    tasks.Pairwise fun a b => hasConflict a b = false := by
  have hdep : ∀ {i dep}, dep ∈ (buildDependencyGraph tasks).deps i ↔
      i < tasks.length ∧ dep < i ∧ conflictAt tasks dep i = true := by
    intro i dep
    by_cases hi : i < tasks.length
    · rw [deps_buildDependencyGraph hi, List.mem_filter, List.mem_range]
      exact (and_iff_right hi).symm
    · unfold DependencyGraph.deps buildDependencyGraph
      rw [lookup_map_prodMk, if_neg fun h => hi (List.mem_range.mp h)]
      exact iff_of_false List.not_mem_nil fun h => hi h.1
  constructor
  · intro hordered
    have hnodup : (tasks.map (·.id)).Nodup := hids ▸ List.nodup_range
    have hdegrees := degrees_of_nodup graphOrder hnodup
    have hdeps := nodup_deps_buildDependencyGraph tasks
    have hcounts : CountsDependents (buildDependencyGraph tasks)
        (initialDegrees graphOrder tasks (buildDependencyGraph tasks)) (tasks.map (·.id)) :=
      hids ▸ fun e he => degree_initial he
    -- the loop puts a task before those that it depends on
    have hreversed := sortLoop_reversed degreeOrder hdeps (fun i dep h => (hdep.mp h).2.1) _ _ _
      hdegrees hcounts (Nat.le_refl _)
    have hplaced := hordered _ ⟨_, _, computeDegrees_eq_some_iff.mpr
      ⟨raised_of_numbered hids, rfl⟩,
      sortWithin_eq degreeOrder hdeps _ _ _ hdegrees (Nat.le_refl _)⟩
    refine List.pairwise_iff_getElem.mpr fun j i hj hi hlt => ?_
    -- a conflict would have to be in the right order and in the reverse one
    by_contra hconflict
    rw [← conflictAt_getElem hj hi, Bool.not_eq_false] at hconflict
    obtain ⟨k', k, batch', batch, hkk, hk', hk, ⟨a, ha, haid⟩, b, hb, hbid⟩ :=
      hplaced i j (hdep.mpr ⟨hi, hlt, hconflict⟩)
    obtain ⟨hk'lt, rfl⟩ := List.getElem?_eq_some_iff.mp hk'
    obtain ⟨hklt, rfl⟩ := List.getElem?_eq_some_iff.mp hk
    refine List.pairwise_iff_getElem.mp hreversed k' k hk'lt hklt hkk a ha b hb ?_
    rw [haid, hbid]
    exact hdep.mpr ⟨hi, hlt, hconflict⟩
  · intro hpairwise batches _ i dep hmem
    obtain ⟨hi, hlt, hconflict⟩ := hdep.mp hmem
    rw [conflictAt_getElem (hlt.trans hi) hi,
      List.pairwise_iff_getElem.mp hpairwise dep i (hlt.trans hi) hi hlt] at hconflict
    cases hconflict

/-- Alice pays Carol, and Bob pays Dave. -/
theorem sort_ordered_iff_apart :
    (analyzeTransactions sampleAccounts
      [sampleTransfer alice carol 5, sampleTransfer bob dave 7]).map (·.id) = [0, 1] ∧
    ∀ batches, SortsInto sampleOrder sampleOrder
      (analyzeTransactions sampleAccounts [sampleTransfer alice carol 5, sampleTransfer bob dave 7])
      (buildDependencyGraph (analyzeTransactions sampleAccounts
        [sampleTransfer alice carol 5, sampleTransfer bob dave 7])) batches →
      PlacedInOrder (buildDependencyGraph (analyzeTransactions sampleAccounts
        [sampleTransfer alice carol 5, sampleTransfer bob dave 7])) batches :=
  ⟨by decide, (sort_ordered_iff sampleOrder sampleOrder (by decide)).mpr (by decide)⟩

/-- Alice and Bob pay Carol: Bob's payment, which depends on Alice's, is in the first batch. -/
theorem sort_reverses : ¬ ∀ (graphOrder : IterOrder (Nat × List Nat))
    (degreeOrder : IterOrder (Nat × Nat)) (tasks : List ExecutionTask),
    tasks.map (·.id) = List.range tasks.length →
      ∀ batches, SortsInto graphOrder degreeOrder tasks (buildDependencyGraph tasks) batches →
        PlacedInOrder (buildDependencyGraph tasks) batches := by
  intro hgeneral
  have hsorts : SortsInto sampleOrder sampleOrder commonRecipient
      (buildDependencyGraph commonRecipient)
      [[analyzeTransaction sampleAccounts 1 (sampleTransfer bob carol 7)],
        [analyzeTransaction sampleAccounts 0 (sampleTransfer alice carol 5)]] :=
    ⟨_, 2, rfl, by decide⟩
  obtain ⟨k', k, batch', batch, hlt, hk', hk, ⟨a, ha, haid⟩, b, hb, hbid⟩ :=
    hgeneral sampleOrder sampleOrder commonRecipient (by decide) _ hsorts 1 0 (by decide)
  obtain ⟨hlength, _⟩ := List.getElem?_eq_some_iff.mp hk
  have hk'0 : k' = 0 := by
    simp only [List.length_cons, List.length_nil] at hlength
    omega
  rw [hk'0] at hk'
  obtain rfl := Option.some.inj hk'
  rw [List.mem_singleton.mp ha] at haid
  cases haid

end InterBit.StateMachine
