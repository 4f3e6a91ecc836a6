import InterBit.StateMachine.Footprint

/-!
# The schedule of the parallel executor

`analyze_transactions`, `build_dependency_graph` and `topological_sort` of
`state_machine/parallel.rs`. A task gets the accounts it is thought to read and to
write; a later task that conflicts with an earlier one depends on it; the tasks
are then taken in layers.

`topological_sort` counts for each task the tasks that depend on it, not the tasks
it depends on, so the layers start with the tasks that nobody depends on: of two
that conflict the later one is run first. What the sort does guarantee is that
every task is in one layer (`topologicalSort_perm`) and that no two tasks of a
layer conflict (`topologicalSort_conflictFree`).
-/

namespace InterBit.StateMachine

open InterBit.Lib

/-- `struct ExecutionTask`; the hash sets are lists without duplicates. -/
structure ExecutionTask where
  id : Nat
  transaction : Transaction
  readSet : List Address
  writeSet : List Address
  deriving DecidableEq

/-- `predict_accessed_accounts`: the 20 bytes behind the selector. -/
def predictAccessedAccounts (data : List UInt8) : Option (List Address) :=
  if h : 24 ≤ data.length then
    some [⟨((data.drop 4).take 20).toArray, by
      rw [List.size_toArray, List.length_take, List.length_drop]
      omega⟩]
  else none

/-- The body of the loop of `analyze_transactions`. -/
def analyzeTransaction (accounts : Accounts) (id : Nat) (tx : Transaction) : ExecutionTask :=
  let readSet := [tx.sender]
  let writeSet := [tx.sender]
  match tx.recipient with
  | some address =>
    if hasCode (accounts address) then
      let accessed := (predictAccessedAccounts tx.data).getD []
      let readSet := accessed.foldl (fun s a => s.insert a) (readSet.insert address)
      { id, transaction := tx, readSet, writeSet := writeSet.insert address }
    else { id, transaction := tx, readSet, writeSet := writeSet.insert address }
  | none => { id, transaction := tx, readSet, writeSet }

/-- `analyze_transactions`. -/
def analyzeTransactions (accounts : Accounts) (transactions : List Transaction) :
    List ExecutionTask :=
  transactions.zipIdx.map fun x => analyzeTransaction accounts x.2 x.1

/-- `HashSet::is_disjoint`. -/
def isDisjoint (s t : List Address) : Bool := s.all fun a => !t.contains a

/-- `has_conflict`. -/
def hasConflict (task₁ task₂ : ExecutionTask) : Bool :=
  !isDisjoint task₁.writeSet task₂.writeSet || !isDisjoint task₁.readSet task₂.writeSet ||
    !isDisjoint task₁.writeSet task₂.readSet

/-- Task ids, with the ids of the tasks they depend on. -/
abbrev DependencyGraph := List (Nat × List Nat)

/-- Whether the tasks at two positions conflict. -/
def conflictAt (tasks : List ExecutionTask) (j i : Nat) : Bool :=
  match tasks[j]?, tasks[i]? with
  | some task₁, some task₂ => hasConflict task₁ task₂
  | _, _ => false

/-- `build_dependency_graph`. -/
def buildDependencyGraph (tasks : List ExecutionTask) : DependencyGraph :=
  (List.range tasks.length).map fun i => (i, (List.range i).filter fun j => conflictAt tasks j i)

/-- What task `id` depends on. -/
def DependencyGraph.deps (graph : DependencyGraph) (id : Nat) : List Nat :=
  (graph.lookup id).getD []

/-- `*in_degree.get_mut(&dep).unwrap() += 1`; a dependency is always a task. -/
def raiseDegree (inDegree : List (Nat × Nat)) (dep : Nat) : List (Nat × Nat) :=
  inDegree.map fun e => if e.1 = dep then (e.1, e.2 + 1) else e

/-- `*degree = degree.saturating_sub(1)`, if the task is still there. -/
def lowerDegree (inDegree : List (Nat × Nat)) (dep : Nat) : List (Nat × Nat) :=
  inDegree.map fun e => if e.1 = dep then (e.1, e.2 - 1) else e

/-- "Compute the in-degrees"; `order` is the iteration order of the graph. -/
def initialDegrees (order : IterOrder (Nat × List Nat)) (tasks : List ExecutionTask)
    (graph : DependencyGraph) : List (Nat × Nat) :=
  ((order.arrange graph).flatMap (·.2)).foldl raiseDegree (tasks.map fun task => (task.id, 0))

/-- `task_map.remove` for each of the ids. -/
def takeTasks (taskMap : List ExecutionTask) (ids : List Nat) : List ExecutionTask :=
  ids.filterMap fun id => taskMap.find? (·.id == id)

/-- The next batch, and the ids to remove: the tasks of degree 0, or, if there is none,
the first task in the order of the map. -/
def nextBatch (order : IterOrder (Nat × Nat)) (inDegree : List (Nat × Nat))
    (taskMap : List ExecutionTask) : List ExecutionTask × List Nat :=
  let free := ((order.arrange inDegree).filter (·.2 == 0)).map (·.1)
  let batch := takeTasks taskMap free
  if batch.isEmpty then
    let forced := ((order.arrange inDegree).map (·.1)).take 1
    (takeTasks (taskMap.filter (!free.contains ·.id)) forced, free ++ forced)
  else (batch, free)

/-- The loop "update the in-degrees", for one id. -/
def removeId (graph : DependencyGraph) (inDegree : List (Nat × Nat)) (id : Nat) :
    List (Nat × Nat) :=
  (graph.deps id).foldl lowerDegree (inDegree.filter (·.1 != id))

/-- The loop of `topological_sort`, with at most `fuel` passes. -/
def sortLoop (order : IterOrder (Nat × Nat)) (graph : DependencyGraph) :
    Nat → List (Nat × Nat) → List ExecutionTask → List (List ExecutionTask)
  | 0, _, _ => []
  | fuel + 1, inDegree, taskMap =>
    if inDegree.isEmpty then []
    else
      let (batch, toRemove) := nextBatch order inDegree taskMap
      let rest := sortLoop order graph fuel (toRemove.foldl (removeId graph) inDegree)
        (taskMap.filter (!toRemove.contains ·.id))
      if batch.isEmpty then rest else batch :: rest

/-- `topological_sort`. Every pass removes a task. -/
def topologicalSort (graphOrder : IterOrder (Nat × List Nat)) (degreeOrder : IterOrder (Nat × Nat))
    (tasks : List ExecutionTask) (graph : DependencyGraph) : List (List ExecutionTask) :=
  sortLoop degreeOrder graph tasks.length (initialDegrees graphOrder tasks graph) tasks

/-! ## Degrees -/

/-- Looking up in a table built from a list of ids. -/
theorem lookup_map_prodMk {α : Type} (f : Nat → α) (ids : List Nat) (i : Nat) :
    (ids.map fun j => (j, f j)).lookup i = if i ∈ ids then some (f i) else none := by
  induction ids with
  | nil => rfl
  | cons j ids ih =>
    rw [List.map_cons, List.lookup_cons]
    by_cases hij : i = j
    · rw [hij, beq_self_eq_true, if_pos (List.mem_cons_self ..)]
    · rw [beq_false_of_ne hij, ih]
      dsimp only
      by_cases hi : i ∈ ids
      · rw [if_pos hi, if_pos (List.mem_cons_of_mem _ hi)]
      · rw [if_neg hi, if_neg fun h => (List.mem_cons.mp h).elim hij hi]

variable {tasks : List ExecutionTask} {ids : List Nat} {graph : DependencyGraph}
  {inDegree : List (Nat × Nat)} {toRemove : List Nat} {taskMap : List ExecutionTask}
  {task : ExecutionTask}

theorem deps_buildDependencyGraph {i : Nat} (h : i < tasks.length) :
    (buildDependencyGraph tasks).deps i = (List.range i).filter fun j => conflictAt tasks j i := by
  unfold DependencyGraph.deps buildDependencyGraph
  rw [lookup_map_prodMk, if_pos (List.mem_range.mpr h), Option.getD_some]

theorem nodup_deps_buildDependencyGraph (tasks : List ExecutionTask) (i : Nat) :
    ((buildDependencyGraph tasks).deps i).Nodup := by
  unfold DependencyGraph.deps buildDependencyGraph
  rw [lookup_map_prodMk]
  split
  next => exact List.nodup_range.filter _
  next => exact List.nodup_nil

/-- A degree that each dependency moves by one is moved by how often it is a dependency. -/
theorem foldl_map_degree {move : Nat → Nat → Nat} (hzero : ∀ d, move d 0 = d)
    (hsucc : ∀ d n, move (move d 1) n = move d (n + 1)) (deps : List Nat)
    (inDegree : List (Nat × Nat)) :
    deps.foldl (fun inDegree dep =>
        inDegree.map fun e => if e.1 = dep then (e.1, move e.2 1) else e) inDegree
      = inDegree.map fun e => (e.1, move e.2 (deps.count e.1)) := by
  induction deps generalizing inDegree with
  | nil =>
    simp only [List.foldl_nil, List.count_nil, hzero]
    exact (List.map_id inDegree).symm
  | cons dep deps ih =>
    rw [List.foldl_cons, ih, List.map_map]
    refine List.map_congr_left fun e _ => ?_
    rw [Function.comp_apply, List.count_cons]
    by_cases he : e.1 = dep
    · rw [if_pos he, he, beq_self_eq_true, if_pos rfl]
      exact congrArg (Prod.mk dep) (hsucc e.2 _)
    · rw [if_neg he, beq_false_of_ne (Ne.symm he), if_neg Bool.false_ne_true, Nat.add_zero]

theorem foldl_raiseDegree (deps : List Nat) (inDegree : List (Nat × Nat)) :
    deps.foldl raiseDegree inDegree = inDegree.map fun e => (e.1, e.2 + deps.count e.1) :=
  foldl_map_degree Nat.add_zero (fun d n => by omega) deps inDegree

theorem foldl_lowerDegree (deps : List Nat) (inDegree : List (Nat × Nat)) :
    deps.foldl lowerDegree inDegree = inDegree.map fun e => (e.1, e.2 - deps.count e.1) :=
  foldl_map_degree Nat.sub_zero (fun d n => by omega) deps inDegree

/-- How many of the tasks `ids` depend on task `j`. -/
def dependents (graph : DependencyGraph) (ids : List Nat) (j : Nat) : Nat :=
  ids.countP fun i => (graph.deps i).contains j

/-- The map of degrees has one entry for each of the tasks `ids`, and counts at least the
tasks that depend on it. -/
structure Degrees (graph : DependencyGraph) (inDegree : List (Nat × Nat)) (ids : List Nat) :
    Prop where
  keys : inDegree.map Prod.fst = ids
  nodup : ids.Nodup
  bound : ∀ e ∈ inDegree, dependents graph ids e.1 ≤ e.2

theorem countP_eq_sum {p : Nat → Bool} {f : Nat → Nat} (h : ∀ i ∈ ids, f i = if p i then 1 else 0) :
    ids.countP p = (ids.map f).sum := by
  induction ids with
  | nil => rfl
  | cons i ids ih =>
    obtain ⟨hi, hrest⟩ := List.forall_mem_cons.mp h
    rw [List.countP_cons, List.map_cons, List.sum_cons, hi, ih hrest, Nat.add_comm]

/-- At the start a degree is the number of positions that depend on the task. -/
theorem degree_initial {order : IterOrder (Nat × List Nat)} {e : Nat × Nat}
    (he : e ∈ initialDegrees order tasks (buildDependencyGraph tasks)) :
    e.2 = dependents (buildDependencyGraph tasks) (List.range tasks.length) e.1 := by
  unfold initialDegrees at he
  rw [foldl_raiseDegree, List.map_map] at he
  obtain ⟨task, -, rfl⟩ := List.mem_map.mp he
  have hcount : ((order.arrange (buildDependencyGraph tasks)).flatMap (·.2)).count task.id
      = ((List.range tasks.length).map fun i =>
        ((List.range i).filter fun j => conflictAt tasks j i).count task.id).sum := by
    rw [((order.perm _).flatMap_right _).count_eq, List.count_flatMap, buildDependencyGraph,
      List.map_map]
    rfl
  show 0 + _ = dependents _ _ task.id
  rw [Nat.zero_add, hcount]
  refine (countP_eq_sum fun i hi => ?_).symm
  rw [← deps_buildDependencyGraph (List.mem_range.mp hi),
    (nodup_deps_buildDependencyGraph tasks i).count]
  simp only [List.contains_iff_mem]

/-- The degrees at the start, for tasks with any ids. -/
theorem degrees_of_nodup (order : IterOrder (Nat × List Nat)) (hnodup : (tasks.map (·.id)).Nodup) :
    Degrees (buildDependencyGraph tasks)
      (initialDegrees order tasks (buildDependencyGraph tasks)) (tasks.map (·.id)) where
  keys := by
    unfold initialDegrees
    rw [foldl_raiseDegree, List.map_map, List.map_map]
    rfl
  nodup := hnodup
  bound e he := by
    rw [degree_initial he]
    -- only the positions of the list have dependencies
    have hsub : ((tasks.map (·.id)).filter fun i =>
        ((buildDependencyGraph tasks).deps i).contains e.1) ⊆
        (List.range tasks.length).filter fun i =>
          ((buildDependencyGraph tasks).deps i).contains e.1 := by
      intro i hi
      have hdep := (List.mem_filter.mp hi).2
      refine List.mem_filter.mpr ⟨?_, hdep⟩
      by_contra hrange
      unfold DependencyGraph.deps buildDependencyGraph at hdep
      rw [lookup_map_prodMk, if_neg hrange] at hdep
      cases hdep
    unfold dependents
    rw [List.countP_eq_length_filter, List.countP_eq_length_filter]
    exact (List.subperm_of_subset (hnodup.filter _) hsub).length_le

theorem degrees_initial (order : IterOrder (Nat × List Nat))
    (hids : tasks.map (·.id) = List.range tasks.length) :
    Degrees (buildDependencyGraph tasks)
      (initialDegrees order tasks (buildDependencyGraph tasks)) (List.range tasks.length) := by
  have h := degrees_of_nodup order (hids ▸ List.nodup_range)
  rwa [hids] at h

theorem Degrees.removeId (h : Degrees graph inDegree ids) (hdeps : ∀ i, (graph.deps i).Nodup)
    {id : Nat} (hid : id ∈ ids) :
    Degrees graph (removeId graph inDegree id) (ids.filter (· != id)) where
  keys := by
    unfold StateMachine.removeId
    rw [foldl_lowerDegree, List.map_map, ← h.keys, List.filter_map]
    rfl
  nodup := h.nodup.filter _
  bound e he := by
    unfold StateMachine.removeId at he
    rw [foldl_lowerDegree] at he
    obtain ⟨e', he', rfl⟩ := List.mem_map.mp he
    have hbound := h.bound e' (List.mem_filter.mp he').1
    have hcount := (List.perm_cons_erase hid).countP_eq fun i => (graph.deps i).contains e'.1
    rw [List.countP_cons, h.nodup.erase_eq_filter] at hcount
    unfold dependents at hbound ⊢
    rw [hcount] at hbound
    dsimp only
    rw [(hdeps id).count]
    split at hbound
    next hc =>
      rw [if_pos (List.contains_iff_mem.mp hc)]
      omega
    next hc =>
      rw [if_neg fun hmem => hc (List.contains_iff_mem.mpr hmem)]
      exact hbound

/-- What taking out one id keeps, taking out several keeps. -/
theorem foldl_removeId {P : List (Nat × Nat) → List Nat → Prop}
    (hstep : ∀ inDegree ids id, id ∈ ids → P inDegree ids →
      P (removeId graph inDegree id) (ids.filter (· != id))) :
    ∀ {inDegree : List (Nat × Nat)} {ids : List Nat}, P inDegree ids → toRemove.Nodup →
      toRemove ⊆ ids → P (toRemove.foldl (removeId graph) inDegree)
        (ids.filter fun i => !toRemove.contains i) := by
  induction toRemove with
  | nil =>
    intro inDegree ids h _ _
    have hfilter : (ids.filter fun i => !([] : List Nat).contains i) = ids :=
      List.filter_eq_self.mpr fun _ _ => rfl
    rwa [hfilter]
  | cons id toRemove ih =>
    intro inDegree ids h hnodup hsub
    obtain ⟨hid, hnodup⟩ := List.nodup_cons.mp hnodup
    have hsub' : toRemove ⊆ ids.filter (· != id) := fun i hi =>
      List.mem_filter.mpr ⟨hsub (List.mem_cons_of_mem _ hi),
        bne_iff_ne.mpr fun he => hid (he ▸ hi)⟩
    have hrest := ih (hstep _ _ id (hsub (List.mem_cons_self ..)) h) hnodup hsub'
    rw [List.filter_filter] at hrest
    have hfilter : (ids.filter fun i => !(id :: toRemove).contains i)
        = ids.filter fun i => !toRemove.contains i && i != id := by
      refine List.filter_congr fun i _ => ?_
      rw [List.contains_cons, Bool.not_or, Bool.and_comm]
      rfl
    rwa [List.foldl_cons, hfilter]

theorem Degrees.removeIds (hdeps : ∀ i, (graph.deps i).Nodup) (h : Degrees graph inDegree ids)
    (hnodup : toRemove.Nodup) (hsub : toRemove ⊆ ids) :
    Degrees graph (toRemove.foldl (StateMachine.removeId graph) inDegree)
      (ids.filter fun i => !toRemove.contains i) :=
  foldl_removeId (fun _ _ _ hid h => h.removeId hdeps hid) h hnodup hsub

/-! ## Layers -/

theorem find?_id (hnodup : (taskMap.map (·.id)).Nodup) (h : task ∈ taskMap) :
    taskMap.find? (·.id == task.id) = some task := by
  induction taskMap with
  | nil => cases h
  | cons head taskMap ih =>
    rw [List.map_cons, List.nodup_cons] at hnodup
    rw [List.find?_cons]
    cases List.mem_cons.mp h with
    | inl he => rw [he, beq_self_eq_true]
    | inr hmem =>
      have hne : head.id ≠ task.id := fun he =>
        hnodup.1 (he ▸ List.mem_map_of_mem (f := ExecutionTask.id) hmem)
      rw [beq_false_of_ne hne]
      exact ih hnodup.2 hmem

theorem id_of_find? {id : Nat} (h : taskMap.find? (·.id == id) = some task) : task.id = id := by
  have hp : (task.id == id) = true := List.find?_some (p := fun t : ExecutionTask => t.id == id) h
  exact eq_of_beq hp

theorem mem_takeTasks (hnodup : (taskMap.map (·.id)).Nodup) :
    task ∈ takeTasks taskMap ids ↔ task ∈ taskMap ∧ task.id ∈ ids := by
  unfold takeTasks
  rw [List.mem_filterMap]
  constructor
  · rintro ⟨id, hid, hfind⟩
    exact ⟨List.mem_of_find?_eq_some hfind, (id_of_find? hfind).symm ▸ hid⟩
  · rintro ⟨hmem, hid⟩
    exact ⟨task.id, hid, find?_id hnodup hmem⟩

/-- The tasks of some ids are those tasks, each once. -/
theorem takeTasks_perm (hnodup : (taskMap.map (·.id)).Nodup) (hids : ids.Nodup) :
    (takeTasks taskMap ids).Perm (taskMap.filter fun task => ids.contains task.id) := by
  refine (List.perm_ext_iff_of_nodup ?_ (hnodup.of_map.filter _)).mpr fun task => ?_
  · refine hids.filterMap fun i j task hi hj => ?_
    exact (id_of_find? hi).symm.trans (id_of_find? hj)
  · rw [mem_takeTasks hnodup, List.mem_filter, List.contains_iff_mem]

/-- A batch that is taken out of the tasks. -/
structure Layer (graph : DependencyGraph) (taskMap batch : List ExecutionTask)
    (toRemove : List Nat) : Prop where
  nodup : toRemove.Nodup
  subset : toRemove ⊆ taskMap.map (·.id)
  nonempty : batch ≠ []
  perm : batch.Perm (taskMap.filter fun task => toRemove.contains task.id)
  /-- No task of the batch depends on another. -/
  free : ∀ a ∈ batch, ∀ b ∈ batch, a.id ≠ b.id → a.id ∉ graph.deps b.id

theorem layer_nextBatch (order : IterOrder (Nat × Nat))
    (h : Degrees graph inDegree (taskMap.map (·.id))) (hne : inDegree ≠ []) :
    Layer graph taskMap (nextBatch order inDegree taskMap).1
      (nextBatch order inDegree taskMap).2 := by
  have harrange := order.perm inDegree
  have hkeys : ((order.arrange inDegree).map Prod.fst).Perm (taskMap.map (·.id)) :=
    (harrange.map Prod.fst).trans (.of_eq h.keys)
  have hnodup := hkeys.nodup_iff.mpr h.nodup
  have hfreeNodup : (((order.arrange inDegree).filter (·.2 == 0)).map (·.1)).Nodup :=
    hnodup.sublist (List.filter_sublist.map Prod.fst)
  have hfreeSub : ((order.arrange inDegree).filter (·.2 == 0)).map (·.1) ⊆ taskMap.map (·.id) :=
    fun id hid => hkeys.subset ((List.filter_sublist.map Prod.fst).subset hid)
  unfold nextBatch
  dsimp only
  split
  next hempty =>
    -- There is no task of degree 0, and the first one is taken alone.
    have hnone : ((order.arrange inDegree).filter (·.2 == 0)).map (·.1) = [] := by
      refine List.eq_nil_iff_forall_not_mem.mpr fun id hid => ?_
      obtain ⟨task, hmem, htask⟩ := List.mem_map.mp (hfreeSub hid)
      have hbatch := (mem_takeTasks h.nodup).mpr ⟨hmem, htask ▸ hid⟩
      rw [List.isEmpty_iff.mp hempty] at hbatch
      cases hbatch
    have hall : (taskMap.filter fun task => !([] : List Nat).contains task.id) = taskMap :=
      List.filter_eq_self.mpr fun _ _ => rfl
    rw [hnone, hall, List.nil_append]
    match hkeysEq : (order.arrange inDegree).map Prod.fst with
    | [] =>
      rw [hkeysEq] at hkeys
      exact absurd (List.map_eq_nil_iff.mp (h.keys.trans hkeys.nil_eq.symm)) hne
    | id :: ids =>
      have hid : id ∈ taskMap.map (·.id) := hkeys.subset (hkeysEq ▸ List.mem_cons_self ..)
      obtain ⟨task, hmem, htask⟩ := List.mem_map.mp hid
      have htake : task ∈ takeTasks taskMap [id] :=
        (mem_takeTasks h.nodup).mpr ⟨hmem, htask ▸ List.mem_singleton.mpr rfl⟩
      refine ⟨List.nodup_singleton id, fun i hi => List.mem_singleton.mp hi ▸ hid,
        List.ne_nil_of_mem htake, takeTasks_perm h.nodup (List.nodup_singleton id), fun a ha b hb hab => ?_⟩
      have ha := List.mem_singleton.mp ((mem_takeTasks h.nodup).mp ha).2
      have hb := List.mem_singleton.mp ((mem_takeTasks h.nodup).mp hb).2
      exact absurd (ha.trans hb.symm) hab
  next hbatch =>
    refine ⟨hfreeNodup, hfreeSub, fun he => hbatch (List.isEmpty_iff.mpr he),
      takeTasks_perm h.nodup hfreeNodup, fun a ha b hb _ hdep => ?_⟩
    obtain ⟨-, ha⟩ := (mem_takeTasks h.nodup).mp ha
    obtain ⟨hb, -⟩ := (mem_takeTasks h.nodup).mp hb
    obtain ⟨e, he, hid⟩ := List.mem_map.mp ha
    obtain ⟨he, hdegree⟩ := List.mem_filter.mp he
    have hbound := h.bound e (harrange.mem_iff.mp he)
    rw [eq_of_beq hdegree, Nat.le_zero, dependents, List.countP_eq_zero] at hbound
    refine hbound b.id (List.mem_map_of_mem hb) ?_
    rw [List.contains_iff_mem, hid]
    exact hdep

/-- A batch and the tasks that are left. -/
theorem Layer.split {taskMap batch : List ExecutionTask} (h : Layer graph taskMap batch toRemove) :
    (batch ++ taskMap.filter fun task => !toRemove.contains task.id).Perm taskMap :=
  (h.perm.append_right _).trans
    (List.filter_append_perm (fun task => toRemove.contains task.id) taskMap)

/-- The degrees after a pass, for fewer tasks. -/
theorem Layer.next {graph : DependencyGraph} {inDegree : List (Nat × Nat)}
    {taskMap batch : List ExecutionTask} {toRemove : List Nat}
    (hlayer : Layer graph taskMap batch toRemove)
    (h : Degrees graph inDegree (taskMap.map (·.id))) (hdeps : ∀ i, (graph.deps i).Nodup) :
    Degrees graph (toRemove.foldl (removeId graph) inDegree)
      ((taskMap.filter fun task => !toRemove.contains task.id).map (·.id)) ∧
    (taskMap.filter fun task => !toRemove.contains task.id).length < taskMap.length := by
  have hlength := hlayer.split.length_eq
  rw [List.length_append] at hlength
  have hpos := List.length_pos_iff.mpr hlayer.nonempty
  have hrest := h.removeIds hdeps hlayer.nodup hlayer.subset
  rw [List.filter_map] at hrest
  exact ⟨hrest, by omega⟩

/-- Every pass takes out a layer, and at the end no task is left. -/
theorem sortLoop_spec (order : IterOrder (Nat × Nat)) (hdeps : ∀ i, (graph.deps i).Nodup)
    (fuel : Nat) :
    ∀ (inDegree : List (Nat × Nat)) (taskMap : List ExecutionTask),
      Degrees graph inDegree (taskMap.map (·.id)) → taskMap.length ≤ fuel →
      (sortLoop order graph fuel inDegree taskMap).flatten.Perm taskMap ∧
      ∀ batch ∈ sortLoop order graph fuel inDegree taskMap, batch ≠ [] ∧
        ∀ a ∈ batch, ∀ b ∈ batch, a.id ≠ b.id → a.id ∉ graph.deps b.id := by
  induction fuel with
  | zero =>
    intro inDegree taskMap _ hfuel
    rw [List.length_eq_zero_iff.mp (Nat.le_zero.mp hfuel)]
    exact ⟨.nil, List.forall_mem_nil _⟩
  | succ fuel ih =>
    intro inDegree taskMap h hfuel
    unfold sortLoop
    split
    next hempty =>
      have hkeys := h.keys
      rw [List.isEmpty_iff.mp hempty] at hkeys
      rw [List.map_eq_nil_iff.mp hkeys.symm]
      exact ⟨.nil, List.forall_mem_nil _⟩
    next hne =>
      -- A pass takes out a layer that is not empty, and the rest is shorter.
      have hlayer := layer_nextBatch order h fun he => hne (List.isEmpty_iff.mpr he)
      generalize nextBatch order inDegree taskMap = next at hlayer ⊢
      obtain ⟨batch, toRemove⟩ := next
      dsimp only at hlayer ⊢
      obtain ⟨hrest, hshorter⟩ := hlayer.next h hdeps
      obtain ⟨hflatten, hbatches⟩ := ih _ _ hrest (by omega)
      have hbatch : batch.isEmpty = false := by
        cases batch with
        | nil => exact absurd rfl hlayer.nonempty
        | cons _ _ => rfl
      rw [if_neg (by rw [hbatch]; exact Bool.false_ne_true)]
      exact ⟨(hflatten.append_left batch).trans hlayer.split,
        List.forall_mem_cons.mpr ⟨⟨hlayer.nonempty, hlayer.free⟩, hbatches⟩⟩

/-- Every task is in one batch, and no task of a batch depends on another. -/
theorem topologicalSort_spec (graphOrder : IterOrder (Nat × List Nat))
    (degreeOrder : IterOrder (Nat × Nat)) (hids : tasks.map (·.id) = List.range tasks.length) :
    (topologicalSort graphOrder degreeOrder tasks (buildDependencyGraph tasks)).flatten.Perm
      tasks ∧
    ∀ batch ∈ topologicalSort graphOrder degreeOrder tasks (buildDependencyGraph tasks),
      batch ≠ [] ∧ ∀ a ∈ batch, ∀ b ∈ batch, a.id ≠ b.id →
        a.id ∉ (buildDependencyGraph tasks).deps b.id := by
  have h := degrees_initial graphOrder hids
  rw [← hids] at h
  exact sortLoop_spec degreeOrder (nodup_deps_buildDependencyGraph tasks) _ _ _ h (Nat.le_refl _)

/-! ## Conflicts -/

/-- The set test, read as a statement. -/
theorem isDisjoint_iff {s t : List Address} : isDisjoint s t = true ↔ ∀ a ∈ s, a ∉ t := by
  unfold isDisjoint
  rw [List.all_eq_true]
  refine forall_congr' fun a => imp_congr_right fun _ => ?_
  rw [Bool.not_eq_true', ← Bool.not_eq_true, List.contains_iff_mem]

theorem isDisjoint_comm (s t : List Address) : isDisjoint s t = isDisjoint t s := by
  rw [Bool.eq_iff_iff, isDisjoint_iff, isDisjoint_iff]
  exact ⟨fun h a ht hs => h a hs ht, fun h a hs ht => h a ht hs⟩

theorem hasConflict_comm (task₁ task₂ : ExecutionTask) :
    hasConflict task₁ task₂ = hasConflict task₂ task₁ := by
  unfold hasConflict
  rw [isDisjoint_comm task₁.writeSet, isDisjoint_comm task₁.readSet,
    isDisjoint_comm task₁.writeSet task₂.readSet, Bool.or_right_comm]

theorem getElem?_id (hids : tasks.map (·.id) = List.range tasks.length) (h : task ∈ tasks) :
    tasks[task.id]? = some task := by
  obtain ⟨i, hi, rfl⟩ := List.mem_iff_getElem.mp h
  have hid : (tasks.map (·.id))[i]? = (List.range tasks.length)[i]? := by rw [hids]
  rw [List.getElem?_map, List.getElem?_eq_getElem hi, List.getElem?_range hi] at hid
  rw [show tasks[i].id = i from Option.some.inj hid]
  exact List.getElem?_eq_getElem hi

/-- No two tasks of a batch conflict. -/
theorem topologicalSort_conflictFree (graphOrder : IterOrder (Nat × List Nat))
    (degreeOrder : IterOrder (Nat × Nat)) (hids : tasks.map (·.id) = List.range tasks.length) :
    ∀ batch ∈ topologicalSort graphOrder degreeOrder tasks (buildDependencyGraph tasks),
      batch.Pairwise fun a b => hasConflict a b = false := by
  obtain ⟨hperm, hbatches⟩ := topologicalSort_spec graphOrder degreeOrder hids
  intro batch hbatch
  obtain ⟨-, hfree⟩ := hbatches batch hbatch
  have hmem : ∀ a ∈ batch, a ∈ tasks := fun a ha =>
    hperm.subset (List.mem_flatten_of_mem hbatch ha)
  have htasks : tasks.Nodup := by
    have hnodup : (tasks.map (·.id)).Nodup := hids ▸ List.nodup_range
    exact hnodup.of_map
  have hnodup : batch.Nodup :=
    (List.nodup_flatten.mp (hperm.nodup_iff.mpr htasks)).1 batch hbatch
  -- Of two tasks the later one would depend on the earlier one.
  have hlt : ∀ a ∈ batch, ∀ b ∈ batch, a.id < b.id → hasConflict a b = false := by
    intro a ha b hb hab
    have hdeps := hfree a ha b hb (Nat.ne_of_lt hab)
    have hb' := getElem?_id hids (hmem b hb)
    have ha' := getElem?_id hids (hmem a ha)
    rw [deps_buildDependencyGraph (List.getElem?_eq_some_iff.mp hb').1, List.mem_filter,
      List.mem_range, not_and] at hdeps
    have hconflict := hdeps hab
    unfold conflictAt at hconflict
    rw [ha', hb'] at hconflict
    exact Bool.eq_false_iff.mpr hconflict
  refine hnodup.pairwise_of_forall_ne fun a ha b hb hab => ?_
  have hne : a.id ≠ b.id := by
    intro he
    have ha' := getElem?_id hids (hmem a ha)
    rw [he, getElem?_id hids (hmem b hb)] at ha'
    exact hab (Option.some.inj ha').symm
  cases Nat.lt_or_gt_of_ne hne with
  | inl h => exact hlt a ha b hb h
  | inr h => rw [hasConflict_comm, hlt b hb a ha h]

/-! ## The tasks of a list of transactions -/

/-- A task as `analyze_transactions` makes it: it writes its sender and its recipient. -/
structure ExecutionTask.Analyzed (env : Env) (task : ExecutionTask) : Prop where
  nodup : task.writeSet.Nodup
  sender : task.transaction.sender ∈ task.writeSet
  recipient : ∀ address, task.transaction.recipient = some address → address ∈ task.writeSet
  touches : ∀ address ∈ task.writeSet, task.transaction.Touches env address

theorem analyzed_analyzeTransaction (env : Env) (accounts : Accounts) (id : Nat)
    (tx : Transaction) : (analyzeTransaction accounts id tx).Analyzed env := by
  have hsender : ∀ a ∈ [tx.sender], tx.Touches env a := fun a ha =>
    Or.inl (List.mem_singleton.mp ha)
  unfold analyzeTransaction
  dsimp only
  split
  next address hto =>
    have hinsert : ∀ a ∈ [tx.sender].insert address, tx.Touches env a := by
      intro a ha
      cases List.mem_insert_iff.mp ha with
      | inl he => exact he ▸ Transaction.touches_recipient hto
      | inr hs => exact hsender a hs
    have hrecipient : ∀ a, tx.recipient = some a → a ∈ [tx.sender].insert address := by
      intro a ha
      rw [Option.some.inj (ha.symm.trans hto)]
      exact List.mem_insert_self
    split
    next =>
      exact ⟨(List.nodup_singleton _).insert,
        List.mem_insert_of_mem (List.mem_singleton.mpr rfl), hrecipient, hinsert⟩
    next =>
      exact ⟨(List.nodup_singleton _).insert,
        List.mem_insert_of_mem (List.mem_singleton.mpr rfl), hrecipient, hinsert⟩
  next hto =>
    refine ⟨List.nodup_singleton _, List.mem_singleton.mpr rfl, fun a ha => ?_, hsender⟩
    rw [hto] at ha
    cases ha

theorem analyzeTransaction_id (accounts : Accounts) (id : Nat) (tx : Transaction) :
    (analyzeTransaction accounts id tx).id = id ∧
      (analyzeTransaction accounts id tx).transaction = tx := by
  unfold analyzeTransaction
  dsimp only
  split
  next => split <;> exact ⟨rfl, rfl⟩
  next => exact ⟨rfl, rfl⟩

section Analyze

variable (accounts : Accounts) (transactions : List Transaction)

theorem analyzeTransactions_ids :
    (analyzeTransactions accounts transactions).map (·.id)
      = List.range (analyzeTransactions accounts transactions).length := by
  unfold analyzeTransactions
  rw [List.map_map, List.length_map, List.length_zipIdx]
  have hsnd : transactions.zipIdx.map Prod.snd = List.range transactions.length := by
    rw [List.zipIdx_map_snd, List.range_eq_range']
  rw [← hsnd]
  exact List.map_congr_left fun x _ => (analyzeTransaction_id accounts x.2 x.1).1

theorem analyzeTransactions_transactions :
    (analyzeTransactions accounts transactions).map (·.transaction) = transactions := by
  unfold analyzeTransactions
  rw [List.map_map]
  refine Eq.trans ?_ (List.zipIdx_map_fst 0 transactions)
  exact List.map_congr_left fun x _ => (analyzeTransaction_id accounts x.2 x.1).2

theorem analyzed_analyzeTransactions (env : Env) :
    ∀ task ∈ analyzeTransactions accounts transactions, task.Analyzed env := by
  intro task hmem
  obtain ⟨x, -, rfl⟩ := List.mem_map.mp hmem
  exact analyzed_analyzeTransaction env accounts x.2 x.1

end Analyze

end InterBit.StateMachine
