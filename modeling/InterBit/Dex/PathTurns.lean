import InterBit.Dex.PathSoundness

/-!
# The searches come to an end

A route has no more tokens than the pools, so there are not more paths to follow than turns. The
search by length always returns (`bfsPaths_isSome`); the search by cost returns unless a turn
panics (`dijkstra_run`). The search by depth goes as deep as it can (`dfsPaths_eq_deeper`).
-/

namespace InterBit.Dex.PathFinder

open InterBit.Lib

variable {pools : List PoolInfo} {start finish : H256} {hops : Nat} {path : List H256}
  {maxHops : U64}

/-- All tokens of the pools. -/
def tokensOf (pools : List PoolInfo) : List H256 :=
  pools.flatMap fun pool => [pool.tokenA, pool.tokenB]

theorem length_tokensOf (pools : List PoolInfo) : (tokensOf pools).length = 2 * pools.length := by
  induction pools with
  | nil => rfl
  | cons pool pools ih =>
    rw [tokensOf, List.flatMap_cons, List.length_append, ← tokensOf, ih, List.length_cons]
    simp only [List.length_cons, List.length_nil]
    omega

theorem Joined.mem {token token' : H256} (h : Joined pools token token') :
    token ∈ tokensOf pools ∧ token' ∈ tokensOf pools := by
  obtain ⟨pool, hpool, ⟨rfl, rfl⟩ | ⟨rfl, rfl⟩⟩ := h
  · exact ⟨List.mem_flatMap.mpr ⟨pool, hpool, by simp⟩, List.mem_flatMap.mpr ⟨pool, hpool, by simp⟩⟩
  · exact ⟨List.mem_flatMap.mpr ⟨pool, hpool, by simp⟩, List.mem_flatMap.mpr ⟨pool, hpool, by simp⟩⟩

theorem mem_tokensOf_of_isChain {l : List H256} (h : (start :: l).IsChain (Joined pools)) :
    l ⊆ tokensOf pools := by
  induction l generalizing start with
  | nil => exact List.nil_subset _
  | cons token l ih =>
    obtain ⟨hjoined, hrest⟩ := List.isChain_cons_cons.mp h
    exact List.cons_subset.mpr ⟨hjoined.mem.2, ih hrest⟩

/-- A route has the start and tokens of the pools. -/
theorem IsRoute.subset (h : IsRoute pools start finish hops path) :
    path ⊆ start :: tokensOf pools := by
  obtain ⟨l, rfl⟩ := List.head?_eq_some_iff.mp h.starts
  exact List.cons_subset_cons start (mem_tokensOf_of_isChain h.joined)

theorem IsRoute.length_le (h : IsRoute pools start finish hops path) :
    path.length ≤ 2 * pools.length + 1 := by
  have hle := (List.subperm_of_subset h.distinct h.subset).length_le
  rwa [List.length_cons, length_tokensOf] at hle

/-- What a path counts. -/
def pathWorth (pools : List PoolInfo) (path : List H256) : Nat :=
  worth (2 * pools.length) (2 * pools.length + 2) path

/-- The ways to go on from a route count less than the route. -/
theorem IsRoute.sum_lt {current : H256} (h : IsRoute pools start current hops path)
    {nexts : List H256} (hlength : nexts.length ≤ (buildGraph pools current).length) :
    (nexts.map fun token => pathWorth pools (path ++ [token])).sum < pathWorth pools path := by
  have hlt := h.length_le
  have hdegree := length_buildGraph_le pools current
  have hnext : ∀ next ∈ nexts.map fun token => path ++ [token], next.length = path.length + 1 := by
    intro next hnext
    obtain ⟨token, _, rfl⟩ := List.mem_map.mp hnext
    rw [List.length_append, List.length_singleton]
  have hsum : ((nexts.map fun token => path ++ [token]).map (pathWorth pools)).sum
      < pathWorth pools path :=
    sum_worth_lt (by omega) (by rw [List.length_map]; omega) hnext
  rwa [List.map_map] at hsum

theorem pathWorth_start (pools : List PoolInfo) (start : H256) :
    pathWorth pools [start] < turns pools :=
  Nat.lt_succ_self _

/-! ### By cost -/

variable {heaps : NodeHeap} {env : Env}

/-- What the paths count that are still to be followed. -/
def remaining (pools : List PoolInfo) (search : Search heaps) : Nat :=
  ((heaps.nodes search.heap).map fun node => pathWorth pools node.path).sum

theorem remaining_rest {search : Search heaps} {node : Node} {rest : heaps.Heap}
    (hpop : heaps.pop search.heap = some (node, rest)) (paths : List (List H256)) :
    remaining pools search
      = pathWorth pools node.path + remaining pools { search with heap := rest, paths } := by
  rw [remaining, ((heaps.nodes_pop hpop).1.map _).sum_nat, List.map_cons, List.sum_cons]
  rfl

theorem remaining_relax {search search' : Search heaps} {cost : U128} {edge : Edge}
    (h : relax env finish cost path search edge = some search') :
    remaining pools search' ≤
      remaining pools search + pathWorth pools (path ++ [edge.toToken]) := by
  cases relaxed h with
  | visited => exact Nat.le_add_right ..
  | dearer => exact Nat.le_add_right ..
  | pushed =>
    rw [remaining, ((heaps.nodes_push _ _).map _).sum_nat, List.map_cons, List.sum_cons,
      Nat.add_comm]
    rfl

theorem remaining_foldlM {cost : U128} {l : List Edge} :
    ∀ {search search' : Search heaps}, l.foldlM (relax env finish cost path) search = some search' →
      remaining pools search' ≤ remaining pools search +
        ((l.map Edge.toToken).map fun token => pathWorth pools (path ++ [token])).sum := by
  induction l with
  | nil =>
    intro search search' h
    cases h
    exact Nat.le_add_right ..
  | cons edge l ih =>
    intro search search' h
    obtain ⟨search₁, hrelax, h⟩ := Option.bind_eq_some_iff.mp h
    have hfirst := @remaining_relax pools finish path heaps env search search₁ cost edge hrelax
    have hrest := ih h
    rw [List.map_cons, List.map_cons, List.sum_cons]
    omega

/-- Every turn leaves less to be followed. -/
theorem AllRoutes.remaining_lt {search search' : Search heaps}
    (h : AllRoutes pools start finish hops search)
    (hturn : dijkstraTurn env (buildGraph pools) finish maxHops search = some (.going search')) :
    remaining pools search' < remaining pools search := by
  have hpos : ∀ path, 0 < pathWorth pools path := fun path => worth_pos _ _ path
  cases taken hturn with
  | @arrived node rest hpop =>
    rw [remaining_rest hpop (search.paths ++ [node.path])]
    exact Nat.lt_add_of_pos_left (hpos _)
  | blocked hpop =>
    rw [remaining_rest hpop search.paths]
    exact Nat.lt_add_of_pos_left (hpos _)
  | stale hpop =>
    rw [remaining_rest hpop search.paths]
    exact Nat.lt_add_of_pos_left (hpos _)
  | @expanded node rest _ hpop _ _ _ hfold =>
    have hle := @remaining_foldlM pools finish node.path heaps env node.cost _ _ _ hfold
    have hlt := (h.nodes node (NodeHeap.mem_of_pop hpop)).sum_lt
      (show ((buildGraph pools node.token).map Edge.toToken).length ≤ _ by rw [List.length_map])
    have hrest := @remaining_rest pools heaps search node rest hpop search.paths
    omega

/-- What `dijkstra` returns when the loop is over. -/
def outcome : List (List H256) → Except RoutingError (List (List H256))
  | [] => .error .noRouteFound
  | path :: paths => .ok (path :: paths)

/-- `dijkstra` comes to a turn that panics or is the last one, in a state as all turns leave it. -/
theorem dijkstra_run {I : Search heaps → Prop} (hinitial : I (Search.initial heaps start))
    (hstep : ∀ search search', AllRoutes pools start finish maxHops.toNat search → I search →
      dijkstraTurn env (buildGraph pools) finish maxHops search = some (.going search') →
        I search') :
    (∃ search, AllRoutes pools start finish maxHops.toNat search ∧ I search ∧
      dijkstraTurn env (buildGraph pools) finish maxHops search = none ∧
      dijkstra heaps env pools start finish maxHops = none) ∨
    ∃ search paths, AllRoutes pools start finish maxHops.toNat search ∧ I search ∧
      dijkstraTurn env (buildGraph pools) finish maxHops search = some (.done paths) ∧
      dijkstra heaps env pools start finish maxHops = some (outcome paths) := by
  have hsize : remaining pools (Search.initial heaps start) < turns pools := by
    show ((heaps.nodes (heaps.push heaps.empty ⟨start, 0, [start]⟩)).map _).sum < _
    rw [((heaps.nodes_push _ _).map _).sum_nat, heaps.nodes_empty]
    exact pathWorth_start pools start
  rcases repeatTurns_cases (I := fun search => AllRoutes pools start finish maxHops.toNat search ∧
      I search) (fun search search' hs hturn => ⟨⟨hs.1.turn hturn, hstep _ _ hs.1 hs.2 hturn⟩,
        hs.1.remaining_lt hturn⟩) (turns pools)
      ⟨allRoutes_initial pools start finish maxHops.toNat, hinitial⟩ hsize with
    ⟨search, hs, hturn, hrun⟩ | ⟨search, paths, hs, hturn, hrun⟩
  · refine Or.inl ⟨search, hs.1, hs.2, hturn, ?_⟩
    rw [dijkstra, hrun]
    rfl
  · refine Or.inr ⟨search, paths, hs.1, hs.2, hturn, ?_⟩
    rw [dijkstra, hrun]
    cases paths with
    | nil => rfl
    | cons => rfl

/-! ### By length -/

/-- What the paths count that are still in the queue. -/
def queued (pools : List PoolInfo) (search : List (H256 × List H256) × List (List H256)) : Nat :=
  (search.1.map fun found => pathWorth pools found.2).sum

theorem queued_cons (found : H256 × List H256) (queue : List (H256 × List H256))
    (paths paths' : List (List H256)) :
    queued pools (found :: queue, paths) = pathWorth pools found.2 + queued pools (queue, paths') :=
  List.sum_cons

/-- Every turn leaves less in the queue. -/
theorem QueuedRoutes.queued_lt {search search' : List (H256 × List H256) × List (List H256)}
    (h : QueuedRoutes pools start finish hops search)
    (hturn : bfsTurn (buildGraph pools) finish maxHops search = some (.going search')) :
    queued pools search' < queued pools search := by
  cases dequeued hturn with
  | @arrived path queue paths =>
    rw [queued_cons (finish, path) queue paths (paths ++ [path])]
    exact Nat.lt_add_of_pos_left (worth_pos _ _ path)
  | @blocked current path queue paths =>
    rw [queued_cons (current, path) queue paths paths]
    exact Nat.lt_add_of_pos_left (worth_pos _ _ path)
  | @expanded current path queue paths =>
    have hdegree : (((buildGraph pools current).filter (·.toToken ∉ path)).map Edge.toToken).length
        ≤ (buildGraph pools current).length := by
      rw [List.length_map]
      exact List.length_filter_le ..
    have hlt := (h.queue (current, path) List.mem_cons_self).sum_lt hdegree
    rw [List.map_map] at hlt
    rw [queued_cons (current, path) queue paths paths, queued, List.map_append, List.sum_append,
      List.map_map]
    exact (Nat.add_lt_add_left hlt _).trans_eq (Nat.add_comm ..)

/-- The search by length returns. -/
theorem bfsPaths_isSome (pools : List PoolInfo) (start finish : H256) (maxHops : U64) :
    (bfsPaths pools start finish maxHops).isSome := by
  have hsize : queued pools ([(start, [start])], []) < turns pools := pathWorth_start pools start
  rcases repeatTurns_cases (I := QueuedRoutes pools start finish maxHops.toNat)
    (fun search search' hs hturn => ⟨hs.turn hturn, hs.queued_lt hturn⟩) (turns pools)
    (queuedRoutes_start pools start finish maxHops.toNat) hsize with
    ⟨search, _, hturn, _⟩ | ⟨search, paths, _, _, hrun⟩
  · obtain ⟨turn, hsome, _⟩ := exists_dequeued (buildGraph pools) finish maxHops search
    cases hturn.symm.trans hsome
  · rw [bfsPaths, hrun]
    rfl

/-! ### By depth -/

/-- No path gets longer than one token more than the hops, so more depth changes nothing. -/
theorem dfsHelper_deeper {graph : H256 → List Edge} {maxPaths : Nat} :
    ∀ {depth : Nat} {current : H256} {path : List H256} {found : Finset H256 × List (List H256)},
      maxHops.toNat + 1 ≤ depth + path.length →
      dfsHelper graph finish maxHops maxPaths (depth + 2) current path found
        = dfsHelper graph finish maxHops maxPaths (depth + 1) current path found := by
  intro depth
  induction depth with
  | zero =>
    intro current path found hlong
    obtain ⟨visited, allPaths⟩ := found
    have hlong : maxHops.toNat < path.length := by omega
    rw [dfsHelper, dfsHelper, if_pos hlong, if_pos hlong]
  | succ depth ih =>
    intro current path found hlong
    obtain ⟨visited, allPaths⟩ := found
    have hnext : ∀ token found,
        dfsHelper graph finish maxHops maxPaths (depth + 2) token (path ++ [token]) found
          = dfsHelper graph finish maxHops maxPaths (depth + 1) token (path ++ [token]) found := by
      intro token found
      refine ih ?_
      rw [List.length_append, List.length_singleton]
      omega
    rw [dfsHelper, dfsHelper]
    simp only [hnext]

/-- The search by depth goes as deep as it can. -/
theorem dfsPaths_eq_deeper (pools : List PoolInfo) (start finish : H256) (maxHops : U64)
    (maxPaths extra : Nat) :
    dfsPaths pools start finish maxHops maxPaths = (dfsHelper (buildGraph pools) finish maxHops
      maxPaths (maxHops.toNat + 1 + extra) start [start] (∅, [])).2 := by
  induction extra with
  | zero => rfl
  | succ extra ih =>
    rw [ih]
    have hlong : maxHops.toNat + 1 ≤ maxHops.toNat + extra + [start].length := by
      show maxHops.toNat + 1 ≤ maxHops.toNat + extra + 1
      omega
    have hdepth : maxHops.toNat + 1 + extra = maxHops.toNat + extra + 1 := by omega
    have hdepth' : maxHops.toNat + 1 + (extra + 1) = maxHops.toNat + extra + 2 := by omega
    rw [hdepth, hdepth', dfsHelper_deeper hlong]

end InterBit.Dex.PathFinder
