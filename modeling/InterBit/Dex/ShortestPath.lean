import InterBit.Dex.SearchRuns

/-!
# The shortest path

With as many hops as there are tokens, no path without repetitions is too long, so a settled token
has offered all of its neighbours something (`unhindered`). Then the path that arrives first weighs
no more than any other, and if none arrives there is none.

There is one number of hops with which nothing arrives: with the largest `usize`, `max_hops + 1`
overflows.
-/

namespace InterBit.Dex.PathFinder

open InterBit.Lib

/-- A path along pools, with the sum of the weights of the pools. -/
inductive Along (pools : List PoolInfo) (tokenIn : H256) : List H256 → H256 → Nat → Prop
  | start : Along pools tokenIn [tokenIn] tokenIn 0
  | hop {path : List H256} {token next : H256} {cost weight : Nat} :
      Along pools tokenIn path token cost → JoinedAt pools token next weight →
      Along pools tokenIn (path ++ [next]) next (cost + weight)

/-- Two tokens are connected. -/
def Connected (pools : List PoolInfo) (tokenIn tokenOut : H256) : Prop :=
  ∃ path cost, Along pools tokenIn path tokenOut cost

/-- A result is a path that weighs no more than any path, whatever pools one takes for the hops,
or there is none and the result says so. -/
def FindsShortest (pools : List PoolInfo) (tokenIn tokenOut : H256)
    (result : Option (Except RoutingError (List H256))) : Prop :=
  (∃ path cost, result = some (.ok path) ∧ Along pools tokenIn path tokenOut cost ∧
    ∀ path' cost', Along pools tokenIn path' tokenOut cost' → cost ≤ cost') ∨
  result = some (.error .noRouteFound) ∧ ¬ Connected pools tokenIn tokenOut

variable {heaps : NodeHeap} {env : Env} {pools : List PoolInfo} {tokenIn tokenOut : H256}
  {hops : Nat} {settled : List (Offer H256)}

theorem along_iff_leads {path : List H256} {token : H256} {cost : Nat} :
    Along pools tokenIn path token cost ↔ Leads (edges pools) tokenIn path token cost := by
  constructor
  · intro h
    induction h with
    | start => exact .start
    | hop _ hjoined ih => exact .step ih (mem_edges.mpr hjoined)
  · intro h
    induction h with
    | start => exact .start
    | step _ hedge ih => exact .hop ih (mem_edges.mp hedge)

/-- The tokens of a walk that goes on are tokens of the pools. -/
theorem leads_subset {path : List H256} {token : H256} {cost : Nat}
    (h : Leads (edges pools) tokenIn path token cost) :
    ∀ edge ∈ edges pools token, edge.1 ∈ tokensOf pools ∧ path ⊆ tokensOf pools := by
  have hjoined : ∀ {token edge}, edge ∈ edges pools token →
      token ∈ tokensOf pools ∧ edge.1 ∈ tokensOf pools := by
    intro token edge hedge
    obtain ⟨pool, hpool, hends, _⟩ := mem_edges.mp hedge
    exact Joined.mem ⟨pool, hpool, hends⟩
  induction h with
  | start =>
    intro edge hedge
    exact ⟨(hjoined hedge).2, List.cons_subset.mpr ⟨(hjoined hedge).1, List.nil_subset _⟩⟩
  | step _ hstep ih =>
    intro edge hedge
    refine ⟨(hjoined hedge).2, List.append_subset.mpr ⟨(ih _ hstep).2, ?_⟩⟩
    exact List.cons_subset.mpr ⟨(hjoined hedge).1, List.nil_subset _⟩

/-- With as many hops as there are tokens, a path that is too long has been at all tokens. -/
theorem unhindered (hn : (tokensOf pools).dedup.length ≤ hops + 1)
    (hsettles : Settles (edges pools) hops tokenIn tokenOut settled) :
    Unhindered (edges pools) hops settled := by
  intro s hs edge hedge
  refine or_iff_not_imp_left.mpr fun hlong => ?_
  obtain ⟨hwalk, hnodup, _⟩ := hsettles.offer s (hsettles.ordered.offered s hs)
  obtain ⟨hmem, hsubset⟩ := leads_subset hwalk edge hedge
  have hsubperm : s.path.Subperm (tokensOf pools).dedup :=
    List.subperm_of_subset hnodup fun token htoken => List.mem_dedup.mpr (hsubset htoken)
  have hperm := hsubperm.perm_of_length_le (by omega)
  exact hperm.mem_iff.mpr (List.mem_dedup.mpr hmem)

/-- The first path that arrives is a shortest one. -/
theorem Arrived.shortest {path : List H256} {cost : Nat}
    (h : Arrived pools tokenIn tokenOut hops settled path cost)
    (hn : (tokensOf pools).dedup.length ≤ hops + 1) :
    Along pools tokenIn path tokenOut cost ∧
      ∀ path' cost', Along pools tokenIn path' tokenOut cost' → cost ≤ cost' := by
  refine ⟨along_iff_leads.mpr (h.settles.offer _ h.offered).1, fun path' cost' hwalk => ?_⟩
  have hordered := h.settles.ordered
  rcases le_of_leads hordered (unhindered hn h.settles) h.settledBefore h.first
    (along_iff_leads.mp hwalk) with ⟨s, hs, hgoal, _⟩ | ⟨_, hle⟩
  · exact absurd hgoal (hordered.notGoal s hs)
  · exact hle

/-- If nothing is left to be settled and nothing is offered to the end, there is no path. -/
theorem not_connected (hn : (tokensOf pools).dedup.length ≤ hops + 1)
    (hsettles : Settles (edges pools) hops tokenIn tokenOut settled)
    (hcomplete : Complete (edges pools) hops tokenIn tokenOut settled)
    (hmissed : ∀ o ∈ offers (edges pools) hops tokenIn settled, o.vertex ≠ tokenOut) :
    ¬ Connected pools tokenIn tokenOut := by
  intro ⟨path, cost, hwalk⟩
  have hordered := hsettles.ordered
  have hall : ∀ o ∈ offers (edges pools) hops tokenIn settled, Settled settled o.vertex :=
    fun o ho => (hcomplete o ho).resolve_left (hmissed o ho)
  obtain ⟨s, hs, hgoal⟩ :=
    settled_of_leads (unhindered hn hsettles) hall hordered (along_iff_leads.mp hwalk)
  exact hordered.notGoal s hs hgoal

/-- If the limit fits, the search finds a shortest path. -/
theorem findsShortest_of_fits {finder : PathFinder}
    (hn : (tokensOf pools).dedup.length ≤ finder.maxHops.toNat + 1)
    (hfit : WeightsFit env pools tokenIn finder.maxHops.toNat)
    (hlimit : LimitFits finder.maxHops) :
    FindsShortest pools tokenIn tokenOut
      (findShortestPath heaps env finder tokenIn tokenOut pools) := by
  have hsearched := dijkstra_searched (keptByHeap_true heaps pools tokenIn tokenOut _) trivial hfit
    (arriving (Or.inr hlimit) tokenOut)
  rw [findShortestPath]
  cases hresult : dijkstra heaps env pools tokenIn tokenOut finder.maxHops with
  | none =>
    rw [hresult] at hsearched
    cases hsearched.isSome hlimit
  | some returned =>
    rw [hresult] at hsearched
    cases hsearched with
    | missed _ hsettles hcomplete hmissed =>
      exact Or.inr ⟨rfl, not_connected hn hsettles hcomplete hmissed⟩
    | found _ harrived => exact Or.inl ⟨_, _, rfl, harrived.shortest hn⟩

/-- If the limit does not fit and there is no path, the search says so. -/
theorem findShortestPath_of_not_connected {finder : PathFinder}
    (hfit : WeightsFit env pools tokenIn finder.maxHops.toNat)
    (hlimit : ¬ LimitFits finder.maxHops) (hno : ¬ Connected pools tokenIn tokenOut) :
    findShortestPath heaps env finder tokenIn tokenOut pools = some (.error .noRouteFound) := by
  have herror : dijkstra heaps env pools tokenIn tokenOut finder.maxHops
      = some (.error .noRouteFound) := by
    refine (dijkstra_of_limit env hlimit).resolve_left fun hnone => ?_
    have hchecks : env.overflowChecks = true := by
      by_contra hchecks
      have hsome := @dijkstra_isSome heaps env pools tokenIn tokenOut finder.maxHops
        (Bool.eq_false_iff.mpr hchecks)
      rw [hnone] at hsome
      cases hsome
    have hsearched := dijkstra_searched (keptByHeap_true heaps pools tokenIn tokenOut _) trivial
      hfit (arriving (Or.inl hchecks) tokenOut)
    rw [hnone] at hsearched
    cases hsearched with
    | @panicked settled node _ hsettles hmem hgoal _ =>
      have hwalk : Leads (edges pools) tokenIn node.path node.token node.cost.toNat :=
        (hsettles.offer _ hmem).1
      rw [hgoal] at hwalk
      exact hno ⟨node.path, _, along_iff_leads.mpr hwalk⟩
  rw [findShortestPath, herror]
  rfl

/-- With as many hops as there are tokens, `find_shortest_path` finds a shortest path exactly if
`max_hops + 1` is not too large, or there is no path. -/
theorem find_shortest_path_iff {finder : PathFinder}
    (hn : (tokensOf pools).dedup.length ≤ finder.maxHops.toNat + 1)
    (hfit : WeightsFit env pools tokenIn finder.maxHops.toNat) :
    FindsShortest pools tokenIn tokenOut
        (findShortestPath heaps env finder tokenIn tokenOut pools) ↔
      (Connected pools tokenIn tokenOut → LimitFits finder.maxHops) := by
  by_cases hlimit : LimitFits finder.maxHops
  · exact iff_of_true (findsShortest_of_fits hn hfit hlimit) fun _ => hlimit
  rw [imp_iff_not hlimit]
  constructor
  · rintro (⟨path, cost, hresult, _⟩ | ⟨_, hno⟩)
    · rw [findShortestPath] at hresult
      rcases dijkstra_of_limit env hlimit with hnone | herror
      · rw [hnone] at hresult
        cases hresult
      · rw [herror] at hresult
        cases hresult
    · exact hno
  · exact fun hno => Or.inr ⟨findShortestPath_of_not_connected hfit hlimit hno, hno⟩

/-- The way over a second token is the cheapest one. -/
theorem find_shortest_path_sample :
    FindsShortest [samplePool 1 2 1000000, samplePool 2 3 5000000, samplePool 1 3 1000]
      (sampleAddress 1) (sampleAddress 3)
      (findShortestPath (.rankedHeap fun _ => 0) (sampleKeccakEnv true).toEnv ⟨3⟩
        (sampleAddress 1) (sampleAddress 3)
        [samplePool 1 2 1000000, samplePool 2 3 5000000, samplePool 1 3 1000]) := by
  have hfit : WeightsFit (sampleKeccakEnv true).toEnv
      [samplePool 1 2 1000000, samplePool 2 3 5000000, samplePool 1 3 1000]
      (sampleAddress 1) 3 := by
    have hbound : ∀ pool ∈ [samplePool 1 2 1000000, samplePool 2 3 5000000, samplePool 1 3 1000],
        (calculateEdgeWeight pool).toNat ≤ 10 ^ 15 := by decide +kernel
    exact weightsFit_of_le hbound (by decide)
  exact (find_shortest_path_iff (by decide +kernel) hfit).mpr fun _ => by decide

/-- With the largest number of hops, the one pool that joins two tokens is not found. -/
theorem shortest_path_missed :
    (tokensOf [samplePool 1 2 1000000]).dedup.length ≤ (BitVec.allOnes 64).toNat + 1 ∧
      WeightsFit (sampleKeccakEnv false).toEnv [samplePool 1 2 1000000] (sampleAddress 1)
        (BitVec.allOnes 64).toNat ∧
      ¬ FindsShortest [samplePool 1 2 1000000] (sampleAddress 1) (sampleAddress 2)
        (findShortestPath (.rankedHeap fun _ => 0) (sampleKeccakEnv false).toEnv
          ⟨BitVec.allOnes 64⟩ (sampleAddress 1) (sampleAddress 2) [samplePool 1 2 1000000]) := by
  have hrun : findShortestPath (.rankedHeap fun _ => 0) (sampleKeccakEnv false).toEnv
      ⟨BitVec.allOnes 64⟩ (sampleAddress 1) (sampleAddress 2) [samplePool 1 2 1000000]
        = some (.error .noRouteFound) := by decide +kernel
  have hbound : ∀ pool ∈ [samplePool 1 2 1000000], (calculateEdgeWeight pool).toNat ≤ 10 ^ 12 := by
    decide +kernel
  refine ⟨by decide +kernel, weightsFit_of_le hbound (by decide), fun h => ?_⟩
  rw [hrun] at h
  have hjoined : JoinedAt [samplePool 1 2 1000000] (sampleAddress 1) (sampleAddress 2)
      1000000000000 :=
    ⟨samplePool 1 2 1000000, List.mem_cons_self, Or.inl ⟨rfl, rfl⟩, by decide +kernel⟩
  rcases h with ⟨path, cost, hresult, _⟩ | ⟨_, hno⟩
  · cases hresult
  · exact hno ⟨_, _, .hop .start hjoined⟩

end InterBit.Dex.PathFinder
