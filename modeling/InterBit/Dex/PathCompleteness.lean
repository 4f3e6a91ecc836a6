import InterBit.Dex.ShortestPath

/-!
# Routes that are not found

`find_all_paths` gives up if the search by cost finds no path (`findAllPaths_error`), whatever the
other two would find. That search keeps one path to each token, a cheapest one, and if this path is
too long to go on, a shorter one that is dearer is forgotten. What it can keep are the complete
settling orders, and a route is found exactly if the end is offered something in all of them
(`Reaches`): each of them is what a heap does that gives the cheapest nodes in its order
(`keptByHeap_ranked`).
-/

namespace InterBit.Dex.PathFinder

open InterBit.Lib

/-- In whatever order the cheapest tokens are settled until none is left, one of them shares a pool
with the token at the end, and is less than so many hops away. -/
def Reaches (pools : List PoolInfo) (start goal : H256) (hops : Nat) : Prop :=
  ∀ order, Settles (edges pools) hops start goal order →
    Complete (edges pools) hops start goal order →
    start = goal ∨ ∃ s ∈ order, s.path.length ≤ hops ∧ Joined pools s.vertex goal

variable {heaps : NodeHeap} {pools : List PoolInfo} {tokenIn tokenOut start goal : H256}
  {hops : Nat} {maxHops : U64} {order : List (Offer H256)}

/-- The token at the end is offered a path by the settled tokens that it shares a pool with. -/
theorem offered_iff (hsettles : Settles (edges pools) hops start goal order) :
    (∃ o ∈ offers (edges pools) hops start order, o.vertex = goal) ↔
      start = goal ∨ ∃ s ∈ order, s.path.length ≤ hops ∧ Joined pools s.vertex goal := by
  constructor
  · intro ⟨o, ho, hgoal⟩
    rcases mem_offers.mp ho with rfl | ⟨s, hs, ho⟩
    · exact Or.inl hgoal
    · obtain ⟨hshort, edge, hedge, _, rfl⟩ := mem_offersOf.mp ho
      obtain ⟨pool, hpool, hends, _⟩ := mem_edges.mp hedge
      exact Or.inr ⟨s, hs, hshort, pool, hpool, hgoal ▸ hends⟩
  · rintro (rfl | ⟨s, hs, hshort, pool, hpool, hends⟩)
    · exact ⟨_, mem_offers.mpr (Or.inl rfl), rfl⟩
    · have hordered := hsettles.ordered
      have hnew : goal ∉ s.path := by
        intro hmem
        rcases hordered.along s (hordered.offered s hs) goal hmem with heq | ⟨s', hs', heq, _⟩
        · exact hordered.notGoal s hs heq.symm
        · exact hordered.notGoal s' hs' heq
      have hedge : (goal, (calculateEdgeWeight pool).toNat) ∈ edges pools s.vertex :=
        mem_edges.mpr ⟨pool, hpool, hends, rfl⟩
      have hoffer := mem_offersOf.mpr ⟨hshort, _, hedge, hnew, rfl⟩
      exact ⟨_, mem_offers.mpr (Or.inr ⟨s, hs, hoffer⟩), rfl⟩

/-- With as many hops as there are tokens, whatever is connected is reached. -/
theorem reaches_of_connected (hn : (tokensOf pools).dedup.length ≤ hops + 1)
    (h : Connected pools start goal) : Reaches pools start goal hops := by
  intro order hsettles hcomplete
  refine (offered_iff hsettles).mp ?_
  by_contra hmissed
  exact not_connected hn hsettles hcomplete (fun o ho hgoal => hmissed ⟨o, ho, hgoal⟩) h

/-! ### The heap that settles in an order -/

/-- The place of a node's token in an order. -/
def rankIn (order : List (Offer H256)) (node : Node) : Nat :=
  (order.map Offer.vertex).idxOf node.token

/-- What has not been settled yet has a place that is not before the next one. -/
theorem eq_of_rankIn_le {settled rest : List (Offer H256)} {next : Offer H256} {node other : Node}
    (hnode : ¬ Settled settled node.token) (hnext : ¬ Settled settled next.vertex)
    (hother : other.token = next.vertex)
    (hle : rankIn (settled ++ next :: rest) node ≤ rankIn (settled ++ next :: rest) other) :
    node.token = next.vertex := by
  have hplace : ∀ {node : Node}, ¬ Settled settled node.token →
      rankIn (settled ++ next :: rest) node = (settled.map Offer.vertex).length +
        ((next :: rest).map Offer.vertex).idxOf node.token := by
    intro node hno
    rw [rankIn, List.map_append, List.idxOf_append_of_notMem fun hmem => hno (List.mem_map.mp hmem)]
  rw [hplace hnode, hplace (hother ▸ hnext), hother, List.map_cons, List.idxOf_cons_self] at hle
  by_contra hne
  rw [List.idxOf_cons_ne _ fun heq => hne heq.symm] at hle
  omega

/-- A heap that prefers the tokens of an order settles them in that order. -/
theorem keptByHeap_ranked
    (hsettles : Settles (edges pools) hops start goal order)
    (hcomplete : Complete (edges pools) hops start goal order) :
    KeptByHeap (.rankedHeap (rankIn order)) pools start goal hops (· <+: order) := by
  intro settled search node rest _ htracks hprefix hpop hnode
  obtain ⟨later, rfl⟩ := hprefix
  have hmem := mem_of_cheapest hnode.isCheapest
  cases later with
  | nil =>
    rw [List.append_nil] at hcomplete
    rcases hcomplete node.offer hmem with hgoal | hsettled
    · exact absurd hgoal hnode.notGoal
    · exact absurd hsettled hnode.fresh
  | cons next later =>
    have hnext := hsettles.next_of_append
    obtain ⟨other, hother, hoffer⟩ :=
      htracks.kept next.vertex hnext.notGoal hnext.fresh next hnext.isCheapest
    have hcost : other.cost.toNat ≤ node.cost.toNat := by
      have hle : next.cost ≤ node.offer.cost :=
        hnext.first node.offer hmem hnode.fresh hnode.notGoal
      rwa [← hoffer] at hle
    have hrank := NodeHeap.rank_le_of_pop hpop hother hcost
    have htoken : node.token = next.vertex :=
      eq_of_rankIn_le hnode.fresh hnext.fresh (congrArg Offer.vertex hoffer) hrank
    have hsame : node.offer = next := by
      have hcheapest := hnode.isCheapest
      rw [show node.offer.vertex = next.vertex from htoken, hnext.isCheapest] at hcheapest
      exact (Option.some.inj hcheapest).symm
    rw [hsame]
    exact ⟨later, List.append_assoc settled [next] later⟩

/-! ### What is found -/

/-- What a prefix of an order offers, the order offers. -/
theorem offers_subset {settled : List (Offer H256)} (h : settled <+: order) :
    offers (edges pools) hops start settled ⊆ offers (edges pools) hops start order := by
  intro o ho
  rcases mem_offers.mp ho with rfl | ⟨s, hs, ho⟩
  · exact mem_offers.mpr (Or.inl rfl)
  · exact mem_offers.mpr (Or.inr ⟨s, h.subset hs, ho⟩)

variable {env : Env}

/-- If nothing is offered to the end in some order, some heap finds no path. -/
theorem exists_heaps_error
    (hsettles : Settles (edges pools) maxHops.toNat start goal order)
    (hcomplete : Complete (edges pools) maxHops.toNat start goal order)
    (hmissed : ∀ o ∈ offers (edges pools) maxHops.toNat start order, o.vertex ≠ goal)
    (hfit : WeightsFit env pools start maxHops.toNat) (harriving : Arriving env goal maxHops) :
    ∃ heaps, dijkstra heaps env pools start goal maxHops = some (.error .noRouteFound) := by
  refine ⟨.rankedHeap (rankIn order), ?_⟩
  have hsearched := dijkstra_searched (keptByHeap_ranked hsettles hcomplete)
    (List.nil_prefix : [] <+: order) hfit harriving
  generalize dijkstra (.rankedHeap (rankIn order)) env pools start goal maxHops = result
    at hsearched ⊢
  cases hsearched with
  | panicked hprefix _ hmem hgoal _ =>
    exact absurd hgoal (hmissed _ (offers_subset hprefix hmem))
  | missed => rfl
  | found hprefix harrived =>
    exact absurd rfl (hmissed _ (offers_subset hprefix harrived.offered))

/-- If all orders offer something to the end, no heap misses it. -/
theorem Reaches.dijkstra_ne_error (h : Reaches pools start goal maxHops.toNat)
    (hfit : WeightsFit env pools start maxHops.toNat) (harriving : Arriving env goal maxHops) :
    dijkstra heaps env pools start goal maxHops ≠ some (.error .noRouteFound) := by
  intro herror
  have hsearched :=
    dijkstra_searched (keptByHeap_true heaps pools start goal _) trivial hfit harriving
  rw [herror] at hsearched
  cases hsearched with
  | missed _ hsettles hcomplete hmissed =>
    obtain ⟨o, ho, hgoal⟩ := (offered_iff hsettles).mpr (h _ hsettles hcomplete)
    exact hmissed o ho hgoal

/-! ### All paths -/

variable {env : KeccakEnv}

theorem uniquePaths_ne_nil {path : List H256} {paths : List (List H256)} :
    uniquePaths env (path :: paths) ∅ ≠ [] := by
  rw [uniquePaths, if_neg (Finset.notMem_empty _)]
  exact List.cons_ne_nil _ _

/-- There is an error if the search by cost returns one, and only then. -/
theorem findAllPaths_error {error : RoutingError} :
    findAllPaths heaps env tokenIn tokenOut pools maxHops = some (.error error) ↔
      dijkstra heaps env.toEnv pools tokenIn tokenOut maxHops = some (.error error) := by
  constructor
  · intro h
    obtain ⟨result, hcost, h⟩ := Option.bind_eq_some_iff.mp h
    cases result with
    | error =>
      cases h
      exact hcost
    | ok cheapest =>
      obtain ⟨found, _, houtcome⟩ := Option.bind_eq_some_iff.mp hcost
      obtain ⟨shortest, _, h⟩ := Option.bind_eq_some_iff.mp h
      have h := Option.some.inj h
      cases found with
      | nil => cases houtcome
      | cons path paths =>
        cases houtcome
        rw [deduplicatePaths] at h
        split at h
        next hnone => exact absurd hnone uniquePaths_ne_nil
        next => cases h
  · intro h
    rw [findAllPaths, h]
    rfl

/-- If no number overflows, `find_all_paths` returns. -/
theorem findAllPaths_isSome (hfit : WeightsFit env.toEnv pools tokenIn maxHops.toNat)
    (hlimit : LimitFits maxHops) :
    (findAllPaths heaps env tokenIn tokenOut pools maxHops).isSome := by
  have hsearched := dijkstra_searched (keptByHeap_true heaps pools tokenIn tokenOut _) trivial hfit
    (arriving (Or.inr hlimit) tokenOut)
  obtain ⟨shortest, hshortest⟩ :=
    Option.isSome_iff_exists.mp (bfsPaths_isSome pools tokenIn tokenOut maxHops)
  obtain ⟨result, hresult⟩ := Option.isSome_iff_exists.mp (hsearched.isSome hlimit)
  rw [findAllPaths, hresult]
  cases result with
  | error => rfl
  | ok => exact hshortest ▸ rfl

/-- `find_all_paths` returns an error only if there is no route, whichever of the cheapest nodes
the heap gives, exactly if there is no route, or `max_hops + 1` does not wrap around and the token
at the end is reached. -/
theorem error_only_without_route_iff
    (hfit : WeightsFit env.toEnv pools tokenIn maxHops.toNat) :
    (∀ heaps, findAllPaths heaps env tokenIn tokenOut pools maxHops = some (.error .noRouteFound) →
        ¬ ∃ path, IsRoute pools tokenIn tokenOut maxHops.toNat path) ↔
      ((∃ path, IsRoute pools tokenIn tokenOut maxHops.toNat path) →
        (env.overflowChecks = true ∨ LimitFits maxHops) ∧
          Reaches pools tokenIn tokenOut maxHops.toNat) := by
  constructor
  · intro h hroute
    have hnever : ∀ heaps,
        dijkstra heaps env.toEnv pools tokenIn tokenOut maxHops ≠ some (.error .noRouteFound) :=
      fun heaps herror => h heaps (findAllPaths_error.mpr herror) hroute
    have hlimit : env.overflowChecks = true ∨ LimitFits maxHops := by
      by_contra hno
      obtain ⟨hchecks, hlarge⟩ := not_or.mp hno
      exact hnever (.rankedHeap fun _ => 0)
        (dijkstra_of_wrapped (Bool.eq_false_iff.mpr hchecks) hlarge)
    refine ⟨hlimit, fun order hsettles hcomplete => (offered_iff hsettles).mp ?_⟩
    by_contra hmissed
    obtain ⟨heaps, herror⟩ := exists_heaps_error hsettles hcomplete
      (fun o ho hgoal => hmissed ⟨o, ho, hgoal⟩) hfit (arriving hlimit tokenOut)
    exact hnever heaps herror
  · intro h heaps herror hroute
    obtain ⟨hlimit, hreaches⟩ := h hroute
    exact hreaches.dijkstra_ne_error hfit (arriving hlimit tokenOut) (findAllPaths_error.mp herror)

/-- From the first token to the second one, the way over the third one is cheaper; the fourth one is
behind the second one. -/
def sampleDetour : List PoolInfo :=
  [samplePool 1 3 (10 ^ 18), samplePool 3 2 (10 ^ 18), samplePool 1 2 (10 ^ 17),
    samplePool 2 4 (10 ^ 18)]

theorem sampleDetour_fits (env : Env) (maxHops : U64) (h : maxHops ≤ 4) :
    WeightsFit env sampleDetour (sampleAddress 1) maxHops.toNat := by
  have hbound : ∀ pool ∈ sampleDetour, (calculateEdgeWeight pool).toNat ≤ 10 := by decide +kernel
  have hle : maxHops.toNat ≤ 4 := h
  exact weightsFit_of_le hbound (by omega)

theorem sampleDetour_route : IsRoute sampleDetour (sampleAddress 1) (sampleAddress 4) 2
    [sampleAddress 1, sampleAddress 2, sampleAddress 4] where
  starts := rfl
  ends := rfl
  distinct := by decide +kernel
  short := le_rfl
  joined := by
    refine .cons_cons ⟨samplePool 1 2 (10 ^ 17), ?_, Or.inl ⟨rfl, rfl⟩⟩
      (.cons_cons ⟨samplePool 2 4 (10 ^ 18), ?_, Or.inl ⟨rfl, rfl⟩⟩ (.singleton _))
    · simp [sampleDetour]
    · simp [sampleDetour]

/-- With three hops, the route is found whatever the heap does. -/
theorem error_only_without_route_sample :
    Connected sampleDetour (sampleAddress 1) (sampleAddress 4) ∧
      ∀ heaps, findAllPaths heaps (sampleKeccakEnv true) (sampleAddress 1) (sampleAddress 4)
          sampleDetour 3 = some (.error .noRouteFound) →
        ¬ ∃ path, IsRoute sampleDetour (sampleAddress 1) (sampleAddress 4) 3 path := by
  have hconnected : Connected sampleDetour (sampleAddress 1) (sampleAddress 4) :=
    ⟨_, _, .hop (.hop .start
        ⟨samplePool 1 2 (10 ^ 17), by simp [sampleDetour], Or.inl ⟨rfl, rfl⟩, rfl⟩)
      ⟨samplePool 2 4 (10 ^ 18), by simp [sampleDetour], Or.inl ⟨rfl, rfl⟩, rfl⟩⟩
  have hreaches : Reaches sampleDetour (sampleAddress 1) (sampleAddress 4) 3 :=
    reaches_of_connected (by decide +kernel) hconnected
  have hfit := sampleDetour_fits (sampleKeccakEnv true).toEnv 3 (by decide)
  exact ⟨hconnected, (error_only_without_route_iff hfit).mpr fun _ => ⟨Or.inl rfl, hreaches⟩⟩

/-- With two hops, the route is not found: the second token has been settled over the third one, and
from there it is one hop too many. -/
theorem route_not_found :
    WeightsFit (sampleKeccakEnv true).toEnv sampleDetour (sampleAddress 1) 2 ∧
      findAllPaths (.rankedHeap fun _ => 0) (sampleKeccakEnv true) (sampleAddress 1)
        (sampleAddress 4) sampleDetour 2 = some (.error .noRouteFound) ∧
      IsRoute sampleDetour (sampleAddress 1) (sampleAddress 4) 2
        [sampleAddress 1, sampleAddress 2, sampleAddress 4] := by
  refine ⟨sampleDetour_fits _ 2 (by decide), ?_, sampleDetour_route⟩
  decide +kernel

end InterBit.Dex.PathFinder
