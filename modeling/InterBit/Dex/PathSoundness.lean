import InterBit.Dex.PathFinder
import Mathlib.Data.List.Chain

/-!
# The paths that are found

What each of the three searches works on is a path of joined tokens without repetitions, and it is
not made longer than the hops allow (`IsRoute.next`). So whatever is returned is a route, whatever
the weights and the ties are. No path is returned twice, since the same path has the same hash.
-/

namespace InterBit.Dex.PathFinder

open InterBit.Lib

/-- A path of joined tokens without repetitions, with so many hops at most. -/
structure IsRoute (pools : List PoolInfo) (start finish : H256) (hops : Nat) (path : List H256) :
    Prop where
  starts : path.head? = some start
  ends : path.getLast? = some finish
  distinct : path.Nodup
  short : path.length ≤ hops + 1
  joined : path.IsChain (Joined pools)

variable {pools : List PoolInfo} {start finish current : H256} {hops : Nat} {path : List H256}

theorem joined_of_mem {edge : Edge} (h : edge ∈ buildGraph pools current) :
    Joined pools current edge.toToken := by
  obtain ⟨pool, hpool, hmem⟩ := mem_buildGraph.mp h
  exact ⟨pool, hpool, (mem_edgesAt.mp hmem).1⟩

theorem isRoute_start (pools : List PoolInfo) (start : H256) (hops : Nat) :
    IsRoute pools start start hops [start] where
  starts := rfl
  ends := rfl
  distinct := List.nodup_singleton start
  short := Nat.le_add_left ..
  joined := List.isChain_singleton start

/-- An edge to a new token makes a route longer by one hop. -/
theorem IsRoute.next (h : IsRoute pools start current hops path) {edge : Edge}
    (hedge : edge ∈ buildGraph pools current) (hnew : edge.toToken ∉ path)
    (hshort : path.length ≤ hops) :
    IsRoute pools start edge.toToken hops (path ++ [edge.toToken]) where
  starts := by rw [List.head?_append, h.starts, Option.some_or]
  ends := List.getLast?_concat
  distinct := List.concat_eq_append ▸ h.distinct.concat hnew
  short := by
    rw [List.length_append, List.length_singleton]
    omega
  joined := by
    refine List.isChain_append.mpr
      ⟨h.joined, List.isChain_singleton _, fun token htoken next hnext => ?_⟩
    cases h.ends.symm.trans htoken
    cases hnext
    exact joined_of_mem hedge

/-! ### By cost -/

variable {heaps : NodeHeap} {env : Env} {maxHops : U64}

/-- All that a search holds are routes. -/
structure AllRoutes (pools : List PoolInfo) (start finish : H256) (hops : Nat)
    (search : Search heaps) : Prop where
  nodes : ∀ node ∈ heaps.nodes search.heap, IsRoute pools start node.token hops node.path
  paths : ∀ path ∈ search.paths, IsRoute pools start finish hops path

theorem AllRoutes.relax {search search' : Search heaps} {cost : U128} {edge : Edge}
    (h : AllRoutes pools start finish hops search)
    (hpath : IsRoute pools start current hops path) (hshort : path.length ≤ hops)
    (hedge : edge ∈ buildGraph pools current)
    (hrelax : relax env finish cost path search edge = some search') :
    AllRoutes pools start finish hops search' := by
  cases relaxed hrelax with
  | visited => exact h
  | dearer => exact h
  | pushed hnew =>
    refine ⟨fun node hnode => ?_, h.paths⟩
    rcases NodeHeap.mem_push.mp hnode with rfl | hnode
    · exact hpath.next hedge hnew hshort
    · exact h.nodes node hnode

/-- A path ends at the goal only. -/
theorem arrives_finish {node : Node} {arrived : Bool}
    (h : arrives env finish maxHops node = some arrived) (hne : node.token ≠ finish) :
    arrived = false := by
  rw [arrives, if_neg hne] at h
  exact (Option.some.inj h).symm

/-- What is left in the heap are routes. -/
theorem AllRoutes.rest {search : Search heaps} {node : Node} {rest : heaps.Heap}
    (h : AllRoutes pools start finish hops search)
    (hpop : heaps.pop search.heap = some (node, rest)) :
    AllRoutes pools start finish hops { search with heap := rest } :=
  ⟨fun other hother => h.nodes other (NodeHeap.mem_of_mem_rest hpop hother), h.paths⟩

/-- What arrives is a route. -/
theorem AllRoutes.arrived {search : Search heaps} {node : Node} {rest : heaps.Heap}
    (h : AllRoutes pools start finish hops search)
    (hpop : heaps.pop search.heap = some (node, rest))
    (harrives : arrives env finish maxHops node = some true) :
    ∀ path ∈ search.paths ++ [node.path], IsRoute pools start finish hops path := by
  intro path hpath
  rcases List.mem_append.mp hpath with hpath | hpath
  · exact h.paths path hpath
  · have htoken : node.token = finish := by
      by_contra hne
      cases arrives_finish harrives hne
    rw [List.mem_singleton.mp hpath, ← htoken]
    exact h.nodes node (NodeHeap.mem_of_pop hpop)

/-- A turn keeps routes only. -/
theorem AllRoutes.turn {search search' : Search heaps}
    (h : AllRoutes pools start finish maxHops.toNat search)
    (hturn : dijkstraTurn env (buildGraph pools) finish maxHops search = some (.going search')) :
    AllRoutes pools start finish maxHops.toNat search' := by
  cases taken hturn with
  | arrived hpop harrives => exact ⟨(h.rest hpop).nodes, h.arrived hpop harrives⟩
  | blocked hpop => exact h.rest hpop
  | stale hpop => exact h.rest hpop
  | expanded hpop _ hshort _ hfold =>
    have hnode := h.nodes _ (NodeHeap.mem_of_pop hpop)
    exact foldlM_invariant (I := AllRoutes pools start finish maxHops.toNat)
      (fun s s' edge hedge hs hrelax => hs.relax hnode hshort hedge hrelax) (h.rest hpop) hfold

theorem allRoutes_initial (pools : List PoolInfo) (start finish : H256) (hops : Nat) :
    AllRoutes pools start finish hops (Search.initial heaps start) := by
  refine ⟨fun node hnode => ?_, fun path hpath => nomatch hpath⟩
  rcases NodeHeap.mem_push.mp hnode with rfl | hnode
  · exact isRoute_start pools start hops
  · rw [heaps.nodes_empty] at hnode
    cases hnode

variable {paths : List (List H256)} {visited : Finset H256}

/-- The search by costs finds routes. -/
theorem dijkstra_sound (h : dijkstra heaps env pools start finish maxHops = some (.ok paths)) :
    ∀ path ∈ paths, IsRoute pools start finish maxHops.toNat path := by
  obtain ⟨found, hfound, h⟩ := Option.bind_eq_some_iff.mp h
  obtain ⟨search, hsearch, hturn⟩ := repeatTurns_spec (fun _ _ hs hturn => hs.turn hturn) _
    (allRoutes_initial pools start finish maxHops.toNat) hfound
  have hroutes : ∀ path ∈ found, IsRoute pools start finish maxHops.toNat path := by
    cases taken hturn with
    | finished => exact hsearch.paths
    | last hpop harrives => exact hsearch.arrived hpop harrives
  cases found with
  | nil => cases h
  | cons =>
    cases h
    exact hroutes

/-! ### By length -/

/-- All that the search by length holds are routes. -/
structure QueuedRoutes (pools : List PoolInfo) (start finish : H256) (hops : Nat)
    (search : List (H256 × List H256) × List (List H256)) : Prop where
  queue : ∀ found ∈ search.1, IsRoute pools start found.1 hops found.2
  paths : ∀ path ∈ search.2, IsRoute pools start finish hops path

/-- What a turn of the search by length leaves. -/
def turnHolds (pools : List PoolInfo) (start finish : H256) (hops : Nat) :
    Turn (List (H256 × List H256) × List (List H256)) (List (List H256)) → Prop
  | .going search => QueuedRoutes pools start finish hops search
  | .done paths => ∀ path ∈ paths, IsRoute pools start finish hops path

/-- What arrives from the queue is a route. -/
theorem QueuedRoutes.arrived {queue : List (H256 × List H256)} {paths : List (List H256)}
    (h : QueuedRoutes pools start finish hops ((finish, path) :: queue, paths)) :
    ∀ p ∈ paths ++ [path], IsRoute pools start finish hops p := by
  intro p hp
  rcases List.mem_append.mp hp with hp | hp
  · exact h.paths p hp
  · rw [List.mem_singleton.mp hp]
    exact h.queue (finish, path) List.mem_cons_self

/-- What is left in the queue are routes. -/
theorem QueuedRoutes.rest {found : H256 × List H256} {queue : List (H256 × List H256)}
    (h : QueuedRoutes pools start finish hops (found :: queue, paths)) :
    ∀ found' ∈ queue, IsRoute pools start found'.1 hops found'.2 :=
  fun found' hfound => h.queue found' (List.mem_cons_of_mem _ hfound)

/-- A turn of the search by lengths keeps routes only. -/
theorem QueuedRoutes.turn {search : List (H256 × List H256) × List (List H256)}
    {turn : Turn (List (H256 × List H256) × List (List H256)) (List (List H256))}
    (h : QueuedRoutes pools start finish maxHops.toNat search)
    (hturn : bfsTurn (buildGraph pools) finish maxHops search = some turn) :
    turnHolds pools start finish maxHops.toNat turn := by
  cases dequeued hturn with
  | finished => exact h.paths
  | last => exact h.arrived
  | arrived => exact ⟨h.rest, h.arrived⟩
  | blocked => exact ⟨h.rest, h.paths⟩
  | @expanded current path queue paths hshort =>
    refine ⟨fun found hfound => ?_, h.paths⟩
    rcases List.mem_append.mp hfound with hfound | hfound
    · exact h.rest found hfound
    · obtain ⟨edge, hedge, rfl⟩ := List.mem_map.mp hfound
      obtain ⟨hedge, hnew⟩ := List.mem_filter.mp hedge
      exact (h.queue _ List.mem_cons_self).next hedge (of_decide_eq_true hnew) hshort

theorem queuedRoutes_start (pools : List PoolInfo) (start finish : H256) (hops : Nat) :
    QueuedRoutes pools start finish hops ([(start, [start])], []) := by
  refine ⟨fun found hfound => ?_, fun path hpath => nomatch hpath⟩
  rw [List.mem_singleton.mp hfound]
  exact isRoute_start pools start hops

/-- The search by lengths finds routes. -/
theorem bfsPaths_sound (h : bfsPaths pools start finish maxHops = some paths) :
    ∀ path ∈ paths, IsRoute pools start finish maxHops.toNat path := by
  obtain ⟨search, hsearch, hturn⟩ := repeatTurns_spec
    (I := QueuedRoutes pools start finish maxHops.toNat) (fun _ _ hs hturn => hs.turn hturn) _
    (queuedRoutes_start pools start finish maxHops.toNat) h
  exact hsearch.turn hturn

/-! ### By depth -/

/-- What has been visited is the path but its end. -/
def Ancestors (visited : Finset H256) (path : List H256) (current : H256) : Prop :=
  ∀ token, token ∈ visited ↔ token ∈ path ∧ token ≠ current

theorem Ancestors.not_mem (h : Ancestors visited path current) :
    current ∉ visited := fun hmem => ((h current).mp hmem).2 rfl

/-- With its end, it is the path. -/
theorem Ancestors.mem_insert (h : Ancestors visited path current)
    (hpath : IsRoute pools start current hops path) (token : H256) :
    token ∈ insert current visited ↔ token ∈ path := by
  rw [Finset.mem_insert, h token]
  constructor
  · intro htoken
    rcases htoken with rfl | htoken
    · exact List.mem_of_getLast? hpath.ends
    · exact htoken.1
  · exact fun htoken => or_iff_not_imp_left.mpr fun hne => ⟨htoken, hne⟩

/-- Then the path may go on. -/
theorem ancestors_next {next : H256} (h : ∀ token, token ∈ visited ↔ token ∈ path)
    (hnew : next ∉ path) :
    Ancestors visited (path ++ [next]) next := by
  intro token
  rw [h, List.mem_append, List.mem_singleton, or_and_right]
  constructor
  · exact fun htoken => Or.inl ⟨htoken, fun heq => hnew (heq ▸ htoken)⟩
  · intro htoken
    rcases htoken with htoken | ⟨heq, hne⟩
    · exact htoken.1
    · exact absurd heq hne

/-- The helper leaves what has been visited as it was, and finds routes. -/
theorem dfsHelper_sound (depth maxPaths : Nat) :
    ∀ {current : H256} {path : List H256} {found : Finset H256 × List (List H256)},
      IsRoute pools start current maxHops.toNat path → Ancestors found.1 path current →
      (∀ p ∈ found.2, IsRoute pools start finish maxHops.toNat p) →
      let found' := dfsHelper (buildGraph pools) finish maxHops maxPaths depth current path found
      found'.1 = found.1 ∧ ∀ p ∈ found'.2, IsRoute pools start finish maxHops.toNat p := by
  induction depth with
  | zero => exact fun _ _ hpaths => ⟨rfl, hpaths⟩
  | succ depth ih =>
    intro current path found hpath hvisited hpaths
    obtain ⟨visited, allPaths⟩ := found
    rw [dfsHelper]
    split
    next => exact ⟨rfl, hpaths⟩
    next =>
      split
      next hfinish =>
        refine ⟨rfl, fun p hp => ?_⟩
        rcases List.mem_append.mp hp with hp | hp
        · exact hpaths p hp
        · rw [List.mem_singleton.mp hp, ← hfinish]
          exact hpath
      next =>
        split
        next => exact ⟨rfl, hpaths⟩
        next hshort =>
          -- Between two neighbours, what has been visited is the path.
          have hloop := List.foldlRecOn (motive := fun found => found.1 = insert current visited ∧
              ∀ p ∈ found.2, IsRoute pools start finish maxHops.toNat p) (buildGraph pools current)
            (fun found edge => if edge.toToken ∈ found.1 then found
              else dfsHelper (buildGraph pools) finish maxHops maxPaths depth edge.toToken
                (path ++ [edge.toToken]) found)
            (b := (insert current visited, allPaths)) ⟨rfl, hpaths⟩ ?_
          · dsimp only
            rw [hloop.1, Finset.erase_insert hvisited.not_mem]
            exact ⟨rfl, hloop.2⟩
          · intro found hfound edge hedge
            have hinsert : ∀ token, token ∈ found.1 ↔ token ∈ path := fun token =>
              hfound.1 ▸ hvisited.mem_insert hpath token
            split
            next => exact hfound
            next hnew =>
              rw [hinsert] at hnew
              have hnext := hpath.next hedge hnew (Nat.le_of_not_lt hshort)
              obtain ⟨hsame, hroutes⟩ := ih hnext (ancestors_next hinsert hnew) hfound.2
              exact ⟨hsame.trans hfound.1, hroutes⟩

/-- The search in depth finds routes. -/
theorem dfsPaths_sound (maxPaths : Nat) :
    ∀ path ∈ dfsPaths pools start finish maxHops maxPaths,
      IsRoute pools start finish maxHops.toNat path := by
  have hnone : Ancestors ∅ [start] start := fun token =>
    iff_of_false (Finset.notMem_empty token) fun h => h.2 (List.mem_singleton.mp h.1)
  exact (dfsHelper_sound _ maxPaths (isRoute_start pools start maxHops.toNat) hnone
    fun path hpath => by cases hpath).2

/-! ### All paths -/

/-- To take out duplicates adds no path. -/
theorem uniquePaths_mem {env : KeccakEnv} :
    ∀ {unique : Finset H256}, ∀ path ∈ uniquePaths env paths unique,
      path ∈ paths ∧ hashPath env path ∉ unique := by
  induction paths with
  | nil => exact fun path hpath => nomatch hpath
  | cons first paths ih =>
    intro unique path hpath
    rw [uniquePaths] at hpath
    split at hpath
    next =>
      obtain ⟨hmem, hnew⟩ := ih path hpath
      exact ⟨List.mem_cons_of_mem _ hmem, hnew⟩
    next hfirst =>
      rcases List.mem_cons.mp hpath with rfl | hpath
      · exact ⟨List.mem_cons_self, hfirst⟩
      · obtain ⟨hmem, hnew⟩ := ih path hpath
        exact ⟨List.mem_cons_of_mem _ hmem, fun h => hnew (Finset.mem_insert_of_mem h)⟩

/-- No path is left twice. -/
theorem uniquePaths_nodup {env : KeccakEnv} :
    ∀ unique : Finset H256, (uniquePaths env paths unique).Nodup := by
  induction paths with
  | nil => exact fun _ => List.nodup_nil
  | cons first paths ih =>
    intro unique
    rw [uniquePaths]
    split
    next => exact ih unique
    next =>
      refine List.nodup_cons.mpr ⟨fun hmem => ?_, ih _⟩
      exact (uniquePaths_mem first hmem).2 (Finset.mem_insert_self _ _)

/-- What `find_all_paths` returns are routes of `max_hops` hops at most, sorted by their lengths,
and none of them is returned twice. -/
theorem find_all_paths_sound {env : KeccakEnv} {tokenIn tokenOut : H256} {paths : List (List H256)}
    (h : findAllPaths heaps env tokenIn tokenOut pools maxHops = some (.ok paths)) :
    (∀ path ∈ paths, IsRoute pools tokenIn tokenOut maxHops.toNat path) ∧ paths.Nodup ∧
      paths.Pairwise fun path path' => path.length ≤ path'.length := by
  obtain ⟨result, hcost, h⟩ := Option.bind_eq_some_iff.mp h
  cases result with
  | error => cases h
  | ok cheapest =>
    obtain ⟨shortest, hlength, h⟩ := Option.bind_eq_some_iff.mp h
    -- All three searches find routes, and the rest only throws some of them away.
    have hsound : ∀ path ∈ cheapest ++ shortest ++ dfsPaths pools tokenIn tokenOut maxHops 5,
        IsRoute pools tokenIn tokenOut maxHops.toNat path := by
      intro path hpath
      rcases List.mem_append.mp hpath with hpath | hpath
      · rcases List.mem_append.mp hpath with hpath | hpath
        · exact dijkstra_sound hcost path hpath
        · exact bfsPaths_sound hlength path hpath
      · exact dfsPaths_sound 5 path hpath
    have h := Option.some.inj h
    rw [deduplicatePaths] at h
    split at h
    next => cases h
    next first rest heq =>
      cases h
      refine ⟨fun path hpath => ?_, ?_, ?_⟩
      · rw [List.mem_insertionSort, ← heq] at hpath
        exact hsound path (uniquePaths_mem path hpath).1
      · rw [(List.perm_insertionSort ..).nodup_iff, ← heq]
        exact uniquePaths_nodup ∅
      -- The sort is by the length.
      · have htotal : Std.Total fun path path' : List H256 => path.length ≤ path'.length :=
          ⟨fun _ _ => Nat.le_total ..⟩
        have htrans : IsTrans (List H256) fun path path' => path.length ≤ path'.length :=
          ⟨fun _ _ _ => Nat.le_trans⟩
        exact List.pairwise_insertionSort _ _

/-- A pool that joins two tokens. -/
def samplePool (tokenA tokenB : UInt8) (liquidity : U256) : PoolInfo where
  address := sampleAddress 1
  protocol := .orderBook
  tokenA := sampleAddress tokenA
  tokenB := sampleAddress tokenB
  feeTier := 0
  liquidity

/-- The path along a chain of two pools is a route. -/
theorem find_all_paths_sound_sample :
    IsRoute [samplePool 1 2 1000000, samplePool 2 3 5000000] (sampleAddress 1) (sampleAddress 3) 3
      [sampleAddress 1, sampleAddress 2, sampleAddress 3] := by
  have hrun : findAllPaths (.rankedHeap fun _ => 0) (sampleKeccakEnv true) (sampleAddress 1)
      (sampleAddress 3) [samplePool 1 2 1000000, samplePool 2 3 5000000] 3
        = some (.ok [[sampleAddress 1, sampleAddress 2, sampleAddress 3]]) := by decide +kernel
  exact (find_all_paths_sound hrun).1 _ List.mem_cons_self

end InterBit.Dex.PathFinder
