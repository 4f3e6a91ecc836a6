import InterBit.Lib.Ballots
import InterBit.Lib.Turns
import InterBit.Core.Keccak
import InterBit.Dex.Routing
import Mathlib.Data.List.MinMax
import Mathlib.Data.Prod.Lex

/-!
# The path finder

`dex/smart_routing/pathfinder.rs`: three searches over the tokens that pools join, by cost, by
length and by depth. The graph is a map to lists of edges; a token without an entry has none.

A `BinaryHeap` gives its greatest element, and says nothing about which one of several
(`NodeHeap`). The loops have turns enough for all paths without repetitions, and `none` is a panic.
-/

namespace InterBit

/-- `a + b` on `u128`; `none` is a panic. -/
def Build.add128 (build : Build) (a b : U128) : Option U128 :=
  if build.overflowChecks ∧ 2 ^ 128 ≤ a.toNat + b.toNat then none else some (a + b)

namespace Dex

open InterBit.Lib

/-- `struct Edge`. -/
structure Edge where
  toToken : H256
  weight : U128
  deriving DecidableEq

/-- `struct Node`. -/
structure Node where
  token : H256
  cost : U128
  path : List H256
  deriving DecidableEq

/-- `Node::cmp`: the other way round, so that the heap gives the cheapest node. -/
def Node.cmp (self other : Node) : Ordering := compare other.cost.toNat self.cost.toNat

theorem Node.cmp_ne_gt {self other : Node} :
    self.cmp other ≠ .gt ↔ other.cost.toNat ≤ self.cost.toNat := by
  rw [Node.cmp, ne_eq, Nat.compare_eq_gt, Nat.not_lt]

/-- `BinaryHeap<Node>`, with the nodes that are in it in some order. -/
structure NodeHeap where
  Heap : Type
  empty : Heap
  push : Heap → Node → Heap
  pop : Heap → Option (Node × Heap)
  nodes : Heap → List Node
  nodes_empty : nodes empty = []
  nodes_push : ∀ heap node, (nodes (push heap node)).Perm (node :: nodes heap)
  nodes_pop : ∀ {heap node rest}, pop heap = some (node, rest) →
    (nodes heap).Perm (node :: nodes rest) ∧ ∀ other ∈ nodes heap, other.cmp node ≠ .gt
  pop_none : ∀ {heap}, pop heap = none → nodes heap = []

namespace NodeHeap

/-- What `rankedHeap` puts first: cheap nodes, and of those the ones of low rank. -/
def rankedKey (rank : Node → Nat) (node : Node) : Nat ×ₗ Nat := toLex (node.cost.toNat, rank node)

/-- A heap that gives the node of the lowest rank, if several are the cheapest. -/
def rankedHeap (rank : Node → Nat) : NodeHeap where
  Heap := List Node
  empty := []
  push heap node := node :: heap
  pop heap := (heap.argmin (rankedKey rank)).map fun node => (node, heap.erase node)
  nodes heap := heap
  nodes_empty := rfl
  nodes_push _ _ := .refl _
  nodes_pop := by
    intro heap node rest h
    obtain ⟨node', hmin, heq⟩ := Option.map_eq_some_iff.mp h
    cases heq
    refine ⟨List.perm_cons_erase (List.argmin_mem hmin), fun other hother => ?_⟩
    have hle := List.le_of_mem_argmin hother hmin
    rw [Node.cmp_ne_gt]
    rcases Prod.Lex.toLex_le_toLex.mp hle with hlt | ⟨heq, _⟩
    · exact hlt.le
    · exact heq.le
  pop_none := by
    intro heap h
    exact List.argmin_eq_none.mp (Option.map_eq_none_iff.mp h)

/-- Among equally cheap nodes the rank decides. -/
theorem rank_le_of_pop {rank : Node → Nat} {heap rest : List Node} {node other : Node}
    (h : (rankedHeap rank).pop heap = some (node, rest)) (hother : other ∈ heap)
    (hcost : other.cost.toNat ≤ node.cost.toNat) : rank node ≤ rank other := by
  obtain ⟨node', hmin, heq⟩ := Option.map_eq_some_iff.mp h
  cases heq
  rcases Prod.Lex.toLex_le_toLex.mp (List.le_of_mem_argmin hother hmin) with hlt | ⟨_, hle⟩
  · exact absurd hcost (Nat.not_le_of_lt hlt)
  · exact hle

variable {heaps : NodeHeap} {heap rest : heaps.Heap} {node other : Node}

theorem mem_of_pop (h : heaps.pop heap = some (node, rest)) : node ∈ heaps.nodes heap :=
  (heaps.nodes_pop h).1.mem_iff.mpr List.mem_cons_self

theorem mem_of_mem_rest (h : heaps.pop heap = some (node, rest))
    (hother : other ∈ heaps.nodes rest) : other ∈ heaps.nodes heap :=
  (heaps.nodes_pop h).1.mem_iff.mpr (List.mem_cons_of_mem _ hother)

/-- A push adds one node. -/
theorem mem_push : other ∈ heaps.nodes (heaps.push heap node) ↔
    other = node ∨ other ∈ heaps.nodes heap := by
  rw [(heaps.nodes_push heap node).mem_iff, List.mem_cons]

/-- The heap gives a node of least cost. -/
theorem cost_le_of_pop (h : heaps.pop heap = some (node, rest))
    (hother : other ∈ heaps.nodes heap) :
    node.cost.toNat ≤ other.cost.toNat :=
  Node.cmp_ne_gt.mp ((heaps.nodes_pop h).2 other hother)

end NodeHeap

/-- `struct PathFinder`. -/
structure PathFinder where
  maxHops : U64

namespace PathFinder

/-! ### The graph -/

/-- The multiplier of `calculate_edge_weight`. -/
def feeMultiplier : Protocol → Nat
  | .orderBook => 100
  | .ammV2 => 150
  | .ammV3 => 120
  | .stableSwap => 80
  | .concentratedLiquidity => 110
  | .rfqSystem => 90

/-- A saturated `u128`. -/
def saturated (n : Nat) : Nat := min n (2 ^ 128 - 1)

/-- `calculate_edge_weight`. -/
def calculateEdgeWeight (pool : PoolInfo) : U128 :=
  let liquidityScore := if 0 < pool.liquidity.toNat then 10 ^ 18 / pool.liquidity.toNat
    else 2 ^ 128 - 1
  let baseWeight := saturated (liquidityScore + pool.feeTier.toNat)
  BitVec.ofNat 128 (saturated (baseWeight * feeMultiplier pool.protocol) / 100)

/-- The entries of a pool. -/
def addPool (graph : AList fun _ : H256 => List Edge) (pool : PoolInfo) :
    AList fun _ : H256 => List Edge :=
  let weight := calculateEdgeWeight pool
  pushVote (pushVote graph pool.tokenA ⟨pool.tokenB, weight⟩) pool.tokenB ⟨pool.tokenA, weight⟩

/-- `build_graph`. -/
def buildGraph (pools : List PoolInfo) (token : H256) : List Edge :=
  (bucket (pools.foldl addPool ∅) token).insertionSort fun edge edge' =>
    edge.weight.toNat ≤ edge'.weight.toNat

/-- As many turns as there can be paths. -/
def turns (pools : List PoolInfo) : Nat :=
  (2 * pools.length + 1) ^ (2 * pools.length + 1) + 1

/-! ### By cost -/

/-- The variables of `dijkstra`. -/
structure Search (heaps : NodeHeap) where
  distances : AList fun _ : H256 => U128
  heap : heaps.Heap
  paths : List (List H256)

variable {heaps : NodeHeap}

/-- The body of the inner loop of `dijkstra`: an edge from the token of a node. -/
def relax (env : Env) (finish : H256) (cost : U128) (path : List H256) (search : Search heaps)
    (edge : Edge) : Option (Search heaps) := do
  let nextCost ← env.add128 cost edge.weight
  if edge.toToken ∈ path then return search
  else if (search.distances.lookup edge.toToken).any
      fun d => d ≤ nextCost ∧ edge.toToken ≠ finish then
    return search
  else return { search with
    distances := search.distances.insert edge.toToken nextCost
    heap := heaps.push search.heap ⟨edge.toToken, nextCost, path ++ [edge.toToken]⟩ }

/-- Whether a node is at the end of a path that is short enough. -/
def arrives (env : Env) (finish : H256) (maxHops : U64) (node : Node) : Option Bool :=
  if node.token = finish then do
    let limit ← env.add64 maxHops 1
    return node.path.length ≤ limit.toNat
  else return false

/-- The body of the loop of `dijkstra`. -/
def dijkstraTurn (env : Env) (graph : H256 → List Edge) (finish : H256) (maxHops : U64)
    (search : Search heaps) : Option (Turn (Search heaps) (List (List H256))) :=
  match heaps.pop search.heap with
  | none => return .done search.paths
  | some (node, heap) => do
    if ← arrives env finish maxHops node then
      let paths := search.paths ++ [node.path]
      if 3 ≤ paths.length then return .done paths
      else return .going { search with heap, paths }
    else if maxHops.toNat < node.path.length then return .going { search with heap }
    else if (search.distances.lookup node.token).any fun d => d < node.cost then
      return .going { search with heap }
    else
      let search ← (graph node.token).foldlM (relax env finish node.cost node.path)
        { search with heap }
      return .going search

/-- The variables of `dijkstra` at the start. -/
def Search.initial (heaps : NodeHeap) (start : H256) : Search heaps where
  distances := (∅ : AList _).insert start 0
  heap := heaps.push heaps.empty ⟨start, 0, [start]⟩
  paths := []

/-- `dijkstra`. -/
def dijkstra (heaps : NodeHeap) (env : Env) (pools : List PoolInfo) (start finish : H256)
    (maxHops : U64) : Option (Except RoutingError (List (List H256))) := do
  match ← repeatTurns (dijkstraTurn env (buildGraph pools) finish maxHops) (turns pools)
    (Search.initial heaps start) with
  | [] => return .error .noRouteFound
  | path :: paths => return .ok (path :: paths)

/-- `find_shortest_path`. -/
def findShortestPath (heaps : NodeHeap) (env : Env) (finder : PathFinder) (tokenIn tokenOut : H256)
    (pools : List PoolInfo) : Option (Except RoutingError (List H256)) := do
  match ← dijkstra heaps env pools tokenIn tokenOut finder.maxHops with
  | .error error => return .error error
  | .ok [] => return .error .noRouteFound
  | .ok (path :: _) => return .ok path

/-! ### By length -/

/-- The body of the loop of `bfs_paths`: the queue and the paths. -/
def bfsTurn (graph : H256 → List Edge) (finish : H256) (maxHops : U64)
    (search : List (H256 × List H256) × List (List H256)) :
    Option (Turn (List (H256 × List H256) × List (List H256)) (List (List H256))) :=
  match search with
  | ([], paths) => some (.done paths)
  | ((current, path) :: queue, paths) =>
    if current = finish then
      let paths := paths ++ [path]
      if 3 ≤ paths.length then some (.done paths) else some (.going (queue, paths))
    else if maxHops.toNat < path.length then some (.going (queue, paths))
    else
      let next := (graph current).filter (·.toToken ∉ path)
      some (.going (queue ++ next.map fun edge => (edge.toToken, path ++ [edge.toToken]), paths))

/-- `bfs_paths`. -/
def bfsPaths (pools : List PoolInfo) (start finish : H256) (maxHops : U64) :
    Option (List (List H256)) :=
  repeatTurns (bfsTurn (buildGraph pools) finish maxHops) (turns pools) ([(start, [start])], [])

/-! ### By depth -/

/-- `dfs_helper`: what has been visited, and the paths. -/
def dfsHelper (graph : H256 → List Edge) (finish : H256) (maxHops : U64) (maxPaths : Nat) :
    Nat → H256 → List H256 → Finset H256 × List (List H256) → Finset H256 × List (List H256)
  | 0, _, _, found => found
  | depth + 1, current, path, (visited, allPaths) =>
    if maxPaths ≤ allPaths.length then (visited, allPaths)
    else if current = finish then (visited, allPaths ++ [path])
    else if maxHops.toNat < path.length then (visited, allPaths)
    else
      let found := (graph current).foldl (fun found edge =>
          if edge.toToken ∈ found.1 then found
          else dfsHelper graph finish maxHops maxPaths depth edge.toToken
            (path ++ [edge.toToken]) found)
        (insert current visited, allPaths)
      (found.1.erase current, found.2)

/-- `dfs_paths`. No path is longer than the depth of the recursion. -/
def dfsPaths (pools : List PoolInfo) (start finish : H256) (maxHops : U64) (maxPaths : Nat) :
    List (List H256) :=
  (dfsHelper (buildGraph pools) finish maxHops maxPaths (maxHops.toNat + 1) start [start]
    (∅, [])).2

/-! ### All paths -/

/-- `hash_path`. -/
def hashPath (env : KeccakEnv) (path : List H256) : H256 :=
  env.keccak256 (path.flatMap Vector.toList)

/-- The loop of `deduplicate_paths`. -/
def uniquePaths (env : KeccakEnv) : List (List H256) → Finset H256 → List (List H256)
  | [], _ => []
  | path :: paths, unique =>
    if hashPath env path ∈ unique then uniquePaths env paths unique
    else path :: uniquePaths env paths (insert (hashPath env path) unique)

/-- `deduplicate_paths`. -/
def deduplicatePaths (env : KeccakEnv) (paths : List (List H256)) :
    Except RoutingError (List (List H256)) :=
  match uniquePaths env paths ∅ with
  | [] => .error .noRouteFound
  | path :: paths => .ok ((path :: paths).insertionSort fun p q => p.length ≤ q.length)

/-- `find_all_paths`. -/
def findAllPaths (heaps : NodeHeap) (env : KeccakEnv) (tokenIn tokenOut : H256)
    (pools : List PoolInfo) (maxHops : U64) :
    Option (Except RoutingError (List (List H256))) := do
  match ← dijkstra heaps env.toEnv pools tokenIn tokenOut maxHops with
  | .error error => return .error error
  | .ok cheapest =>
    let shortest ← bfsPaths pools tokenIn tokenOut maxHops
    let deep := dfsPaths pools tokenIn tokenOut maxHops 5
    return deduplicatePaths env (cheapest ++ shortest ++ deep)

/-! ### What the graph and the turns are -/

/-- A pool joins two tokens. -/
def Joined (pools : List PoolInfo) (token token' : H256) : Prop :=
  ∃ pool ∈ pools, pool.tokenA = token ∧ pool.tokenB = token' ∨
    pool.tokenB = token ∧ pool.tokenA = token'

/-- A pool joins two tokens at a weight. -/
def JoinedAt (pools : List PoolInfo) (token token' : H256) (weight : Nat) : Prop :=
  ∃ pool ∈ pools, (pool.tokenA = token ∧ pool.tokenB = token' ∨
    pool.tokenB = token ∧ pool.tokenA = token') ∧ (calculateEdgeWeight pool).toNat = weight

theorem bucket_pushVote_eq {V : Type} (graph : AList fun _ : H256 => List V) (key token : H256)
    (v : V) : bucket (pushVote graph key v) token
      = bucket graph token ++ if key = token then [v] else [] := by
  split
  next h =>
    subst h
    exact bucket_pushVote ..
  next h =>
    rw [List.append_nil]
    exact bucket_pushVote_of_ne _ _ fun heq => h heq.symm

/-- The edges of a pool at a token. -/
def edgesAt (token : H256) (pool : PoolInfo) : List Edge :=
  (if pool.tokenA = token then [⟨pool.tokenB, calculateEdgeWeight pool⟩] else []) ++
    if pool.tokenB = token then [⟨pool.tokenA, calculateEdgeWeight pool⟩] else []

theorem bucket_foldl_addPool (pools : List PoolInfo) (token : H256) :
    ∀ graph, bucket (pools.foldl addPool graph) token
      = bucket graph token ++ pools.flatMap (edgesAt token) := by
  induction pools with
  | nil => exact fun graph => (List.append_nil _).symm
  | cons pool pools ih =>
    intro graph
    rw [List.foldl_cons, ih, addPool, bucket_pushVote_eq, bucket_pushVote_eq, List.flatMap_cons,
      edgesAt]
    simp only [List.append_assoc]

theorem buildGraph_perm (pools : List PoolInfo) (token : H256) :
    (buildGraph pools token).Perm (pools.flatMap (edgesAt token)) := by
  refine (List.perm_insertionSort ..).trans ?_
  rw [bucket_foldl_addPool]
  exact .refl _

theorem mem_buildGraph {pools : List PoolInfo} {token : H256} {edge : Edge} :
    edge ∈ buildGraph pools token ↔ ∃ pool ∈ pools, edge ∈ edgesAt token pool := by
  rw [(buildGraph_perm pools token).mem_iff, List.mem_flatMap]

/-- A pool joins its two tokens in both directions. -/
theorem mem_edgesAt {token : H256} {pool : PoolInfo} {edge : Edge} :
    edge ∈ edgesAt token pool ↔
      (pool.tokenA = token ∧ pool.tokenB = edge.toToken ∨
        pool.tokenB = token ∧ pool.tokenA = edge.toToken) ∧
      calculateEdgeWeight pool = edge.weight := by
  obtain ⟨toToken, weight⟩ := edge
  rw [edgesAt, List.mem_append, List.mem_ite_nil_right, List.mem_ite_nil_right,
    List.mem_singleton, List.mem_singleton, Edge.mk.injEq, Edge.mk.injEq, or_and_right]
  constructor
  · rintro (⟨ha, rfl, rfl⟩ | ⟨hb, rfl, rfl⟩)
    · exact Or.inl ⟨⟨ha, rfl⟩, rfl⟩
    · exact Or.inr ⟨⟨hb, rfl⟩, rfl⟩
  · rintro (⟨⟨ha, rfl⟩, rfl⟩ | ⟨⟨hb, rfl⟩, rfl⟩)
    · exact Or.inl ⟨ha, rfl, rfl⟩
    · exact Or.inr ⟨hb, rfl, rfl⟩

/-- The edges of a token are the pools that join it to another one. -/
theorem joinedAt_iff {pools : List PoolInfo} {token token' : H256} {weight : Nat} :
    JoinedAt pools token token' weight ↔
      ∃ edge ∈ buildGraph pools token, edge.toToken = token' ∧ edge.weight.toNat = weight := by
  constructor
  · intro ⟨pool, hpool, hends, hweight⟩
    exact ⟨⟨token', calculateEdgeWeight pool⟩,
      mem_buildGraph.mpr ⟨pool, hpool, mem_edgesAt.mpr ⟨hends, rfl⟩⟩, rfl, hweight⟩
  · intro ⟨edge, hedge, htoken, hweight⟩
    obtain ⟨pool, hpool, hmem⟩ := mem_buildGraph.mp hedge
    obtain ⟨hends, heq⟩ := mem_edgesAt.mp hmem
    exact ⟨pool, hpool, htoken ▸ hends, heq ▸ hweight⟩

/-- A pool makes at most two edges for a token. -/
theorem length_buildGraph_le (pools : List PoolInfo) (token : H256) :
    (buildGraph pools token).length ≤ 2 * pools.length := by
  rw [(buildGraph_perm pools token).length_eq]
  induction pools with
  | nil => exact Nat.zero_le _
  | cons pool pools ih =>
    have hat : (edgesAt token pool).length ≤ 2 := by
      unfold edgesAt
      split <;> split <;> simp
    rw [List.flatMap_cons, List.length_append, List.length_cons]
    omega

/-- What an edge does to a search. -/
inductive Relaxed (env : Env) (finish : H256) (cost : U128) (path : List H256)
    (search : Search heaps) (edge : Edge) : Search heaps → Prop
  | visited : edge.toToken ∈ path → Relaxed env finish cost path search edge search
  | dearer {nextCost d : U128} : edge.toToken ∉ path →
      env.add128 cost edge.weight = some nextCost →
      search.distances.lookup edge.toToken = some d → d.toNat ≤ nextCost.toNat →
      edge.toToken ≠ finish → Relaxed env finish cost path search edge search
  | pushed {nextCost : U128} : edge.toToken ∉ path →
      env.add128 cost edge.weight = some nextCost →
      (∀ d, search.distances.lookup edge.toToken = some d → edge.toToken ≠ finish →
        nextCost.toNat < d.toNat) →
      Relaxed env finish cost path search edge { search with
        distances := search.distances.insert edge.toToken nextCost
        heap := heaps.push search.heap ⟨edge.toToken, nextCost, path ++ [edge.toToken]⟩ }

variable {env : Env} {finish : H256}

/-- What relaxing an edge does. -/
theorem relaxed {cost : U128} {path : List H256} {search search' : Search heaps} {edge : Edge}
    (h : relax env finish cost path search edge = some search') :
    Relaxed env finish cost path search edge search' := by
  obtain ⟨nextCost, hnext, h⟩ := Option.bind_eq_some_iff.mp h
  split at h
  next hmem =>
    cases h
    exact .visited hmem
  next hmem =>
    split at h
    next hdearer =>
      cases h
      cases hlookup : search.distances.lookup edge.toToken with
      | none =>
        rw [hlookup] at hdearer
        cases hdearer
      | some d =>
        rw [hlookup, Option.any_some, decide_eq_true_iff] at hdearer
        exact .dearer hmem hnext hlookup (BitVec.le_def.mp hdearer.1) hdearer.2
    next hcheaper =>
      cases h
      refine .pushed hmem hnext fun d hd hne => ?_
      rw [hd, Option.any_some, decide_eq_true_iff] at hcheaper
      exact Nat.lt_of_not_le fun hle => hcheaper ⟨BitVec.le_def.mpr hle, hne⟩

/-- What a turn does to a search. -/
inductive Taken (env : Env) (graph : H256 → List Edge) (finish : H256) (maxHops : U64)
    (search : Search heaps) : Turn (Search heaps) (List (List H256)) → Prop
  | finished : heaps.pop search.heap = none →
      Taken env graph finish maxHops search (.done search.paths)
  | last {node : Node} {rest : heaps.Heap} : heaps.pop search.heap = some (node, rest) →
      arrives env finish maxHops node = some true → 3 ≤ (search.paths ++ [node.path]).length →
      Taken env graph finish maxHops search (.done (search.paths ++ [node.path]))
  | arrived {node : Node} {rest : heaps.Heap} : heaps.pop search.heap = some (node, rest) →
      arrives env finish maxHops node = some true →
      Taken env graph finish maxHops search
        (.going { search with heap := rest, paths := search.paths ++ [node.path] })
  | blocked {node : Node} {rest : heaps.Heap} : heaps.pop search.heap = some (node, rest) →
      arrives env finish maxHops node = some false → maxHops.toNat < node.path.length →
      Taken env graph finish maxHops search (.going { search with heap := rest })
  | stale {node : Node} {rest : heaps.Heap} {d : U128} :
      heaps.pop search.heap = some (node, rest) →
      arrives env finish maxHops node = some false → node.path.length ≤ maxHops.toNat →
      search.distances.lookup node.token = some d → d.toNat < node.cost.toNat →
      Taken env graph finish maxHops search (.going { search with heap := rest })
  | expanded {node : Node} {rest : heaps.Heap} {search' : Search heaps} :
      heaps.pop search.heap = some (node, rest) →
      arrives env finish maxHops node = some false → node.path.length ≤ maxHops.toNat →
      (∀ d, search.distances.lookup node.token = some d → node.cost.toNat ≤ d.toNat) →
      (graph node.token).foldlM (relax env finish node.cost node.path) { search with heap := rest }
        = some search' →
      Taken env graph finish maxHops search (.going search')

variable {graph : H256 → List Edge} {maxHops : U64}

/-- What a turn of the search by costs does. -/
theorem taken {search : Search heaps} {turn : Turn (Search heaps) (List (List H256))}
    (h : dijkstraTurn env graph finish maxHops search = some turn) :
    Taken env graph finish maxHops search turn := by
  unfold dijkstraTurn at h
  split at h
  next hpop =>
    cases h
    exact .finished hpop
  next node rest hpop =>
    obtain ⟨arrived, harrives, h⟩ := Option.bind_eq_some_iff.mp h
    cases arrived with
    | true =>
      rw [if_pos rfl] at h
      dsimp only at h
      split at h
      -- the third path ends the search
      next hthree =>
        cases h
        exact .last hpop harrives hthree
      next =>
        cases h
        exact .arrived hpop harrives
    | false =>
      rw [if_neg Bool.false_ne_true] at h
      split at h
      next hlong =>
        cases h
        exact .blocked hpop harrives hlong
      next hshort =>
        have hshort := Nat.le_of_not_lt hshort
        split at h
        -- a node that has been undercut since it was pushed
        next hstale =>
          cases h
          cases hlookup : search.distances.lookup node.token with
          | none =>
            rw [hlookup] at hstale
            cases hstale
          | some d =>
            rw [hlookup, Option.any_some, decide_eq_true_iff] at hstale
            exact .stale hpop harrives hshort hlookup (BitVec.lt_def.mp hstale)
        next hcurrent =>
          obtain ⟨search', hfold, h⟩ := Option.bind_eq_some_iff.mp h
          cases h
          refine .expanded hpop harrives hshort (fun d hd => ?_) hfold
          rw [hd, Option.any_some, decide_eq_true_iff] at hcurrent
          exact Nat.le_of_not_lt fun hlt => hcurrent (BitVec.lt_def.mpr hlt)

/-- What a turn does to a search by length. -/
inductive Dequeued (graph : H256 → List Edge) (finish : H256) (maxHops : U64) :
    List (H256 × List H256) × List (List H256) →
      Turn (List (H256 × List H256) × List (List H256)) (List (List H256)) → Prop
  | finished {paths : List (List H256)} : Dequeued graph finish maxHops ([], paths) (.done paths)
  | last {path : List H256} {queue : List (H256 × List H256)} {paths : List (List H256)} :
      3 ≤ (paths ++ [path]).length →
      Dequeued graph finish maxHops ((finish, path) :: queue, paths) (.done (paths ++ [path]))
  | arrived {path : List H256} {queue : List (H256 × List H256)} {paths : List (List H256)} :
      Dequeued graph finish maxHops ((finish, path) :: queue, paths)
        (.going (queue, paths ++ [path]))
  | blocked {current : H256} {path : List H256} {queue : List (H256 × List H256)}
      {paths : List (List H256)} : maxHops.toNat < path.length →
      Dequeued graph finish maxHops ((current, path) :: queue, paths) (.going (queue, paths))
  | expanded {current : H256} {path : List H256} {queue : List (H256 × List H256)}
      {paths : List (List H256)} : path.length ≤ maxHops.toNat →
      Dequeued graph finish maxHops ((current, path) :: queue, paths)
        (.going (queue ++ ((graph current).filter (·.toToken ∉ path)).map fun edge =>
          (edge.toToken, path ++ [edge.toToken]), paths))

/-- A turn of the search by length does not panic. -/
theorem exists_dequeued (graph : H256 → List Edge) (finish : H256) (maxHops : U64)
    (search : List (H256 × List H256) × List (List H256)) :
    ∃ turn, bfsTurn graph finish maxHops search = some turn ∧
      Dequeued graph finish maxHops search turn := by
  obtain ⟨queue, paths⟩ := search
  cases queue with
  | nil => exact ⟨_, rfl, .finished⟩
  | cons found queue =>
    obtain ⟨current, path⟩ := found
    rw [bfsTurn]
    split
    next hfinish =>
      subst hfinish
      dsimp only
      split
      next hthree => exact ⟨_, rfl, .last hthree⟩
      next => exact ⟨_, rfl, .arrived⟩
    next =>
      split
      next hlong => exact ⟨_, rfl, .blocked hlong⟩
      next hshort => exact ⟨_, rfl, .expanded (Nat.le_of_not_lt hshort)⟩

/-- What a turn of the search by lengths does. -/
theorem dequeued {search : List (H256 × List H256) × List (List H256)}
    {turn : Turn (List (H256 × List H256) × List (List H256)) (List (List H256))}
    (h : bfsTurn graph finish maxHops search = some turn) :
    Dequeued graph finish maxHops search turn := by
  obtain ⟨turn', heq, hturn⟩ := exists_dequeued graph finish maxHops search
  cases h.symm.trans heq
  exact hturn

end PathFinder

end Dex

end InterBit
