import InterBit.Dex.CheapestPath

/-!
# What the search by cost comes to

A run of `dijkstra` follows a settling order to its end (`Follows`). If no weight overflows, it
returns an error exactly when the order is complete and nothing in it has been offered to the end;
else the first path has arrived, and is no dearer than what is offered then (`Arrived`). Any
property of the order that the heap keeps holds of it (`dijkstra_searched`).

`max_hops + 1` may overflow, too. With overflow checks that is a panic when a path arrives, without
them nothing ever arrives (`dijkstra_of_wrapped`).
-/

namespace InterBit.Dex.PathFinder

open InterBit.Lib

variable {heaps : NodeHeap} {env : Env} {pools : List PoolInfo} {start goal : H256} {hops : Nat}
  {maxHops : U64} {settled : List (Offer H256)} {search search' : Search heaps} {node : Node}
  {rest : heaps.Heap}

/-- What is known of a settling order when the first path arrives. -/
structure Arrived (pools : List PoolInfo) (start goal : H256) (hops : Nat)
    (settled : List (Offer H256)) (path : List H256) (cost : Nat) : Prop where
  settles : Settles (edges pools) hops start goal settled
  offered : ⟨path, goal, cost⟩ ∈ offers (edges pools) hops start settled
  settledBefore : ∀ s ∈ settled, s.cost ≤ cost
  first : ∀ o ∈ offers (edges pools) hops start settled, ¬ Settled settled o.vertex → cost ≤ o.cost

/-- The first node at the end is no dearer than what has been offered. -/
theorem Tracks.arrived (h : Tracks goal settled (offers (edges pools) hops start settled) search)
    (hsettles : Settles (edges pools) hops start goal settled) (hnone : search.paths = [])
    (hpop : heaps.pop search.heap = some (node, rest)) (hgoal : node.token = goal) :
    Arrived pools start goal hops settled node.path node.cost.toNat where
  settles := hsettles
  offered := by
    rw [← hgoal]
    exact h.nodes node (NodeHeap.mem_of_pop hpop)
  settledBefore := h.late node (NodeHeap.mem_of_pop hpop)
  first o ho hno := by
    by_cases hvertex : o.vertex = goal
    · obtain ⟨other, hother, rfl⟩ := h.waiting hnone o ho hvertex
      exact NodeHeap.cost_le_of_pop hpop hother
    · obtain ⟨best, hbest, hle⟩ := exists_cheapest ho
      obtain ⟨other, hother, rfl⟩ := h.kept o.vertex hvertex hno best hbest
      exact (NodeHeap.cost_le_of_pop hpop hother).trans hle

theorem tracks_initial (pools : List PoolInfo) (start goal : H256) (hops : Nat) :
    Tracks goal [] (offers (edges pools) hops start []) (Search.initial heaps start) := by
  have hnodes : (heaps.nodes (Search.initial heaps start).heap).Perm [⟨start, 0, [start]⟩] := by
    refine (heaps.nodes_push ..).trans ?_
    rw [heaps.nodes_empty]
  have hmem : ∀ {node}, node ∈ heaps.nodes (Search.initial heaps start).heap ↔
      node = ⟨start, 0, [start]⟩ := by
    intro node
    rw [hnodes.mem_iff, List.mem_singleton]
  -- the only offer is the empty path to the start
  have hcheapest : ∀ token, cheapest (offers (edges pools) hops start []) token
      = if start = token then some ⟨[start], start, 0⟩ else none := by
    intro token
    rw [offers, List.flatMap_nil]
    refine (cheapest_concat [] _ token).trans ?_
    exact if_congr (and_iff_left rfl) rfl rfl
  constructor
  case distances =>
    intro token _
    rw [hcheapest, Search.initial]
    split
    next heq =>
      rw [← heq, AList.lookup_insert]
      rfl
    next hne =>
      rw [AList.lookup_insert_ne fun heq => hne heq.symm, AList.lookup_empty]
      rfl
  case nodes =>
    intro node hnode
    rw [hmem.mp hnode]
    exact List.mem_singleton_self _
  case kept =>
    intro token _ _ o ho
    rw [hcheapest] at ho
    split at ho
    next =>
      exact ⟨_, hmem.mpr rfl, Option.some.inj ho⟩
    next => cases ho
  case waiting =>
    intro _ o ho _
    exact ⟨_, hmem.mpr rfl, (List.mem_singleton.mp ho).symm⟩
  case late => exact fun _ _ => List.forall_mem_nil _
  case stale => exact fun _ _ => List.forall_mem_nil _
  case best => exact List.forall_mem_nil _
  case distinct => exact (hnodes.pairwise_iff Apart.symm).mpr (List.pairwise_singleton ..)

/-- A turn panics at a node at the end, or at an edge. -/
theorem dijkstraTurn_eq_none {graph : H256 → List Edge}
    (h : dijkstraTurn env graph goal maxHops search = none) :
    ∃ node rest, heaps.pop search.heap = some (node, rest) ∧
      (arrives env goal maxHops node = none ∨ node.path.length ≤ maxHops.toNat ∧
        (graph node.token).foldlM (relax env goal node.cost node.path)
          { search with heap := rest } = none) := by
  unfold dijkstraTurn at h
  split at h
  next => cases h
  next node rest hpop =>
    refine ⟨node, rest, hpop, ?_⟩
    cases harrives : arrives env goal maxHops node with
    | none => exact Or.inl rfl
    | some arrived =>
      rw [harrives] at h
      dsimp only [Option.bind_eq_bind, Option.bind_some] at h
      split at h
      · split at h
        · cases h
        · cases h
      · split at h
        · cases h
        next hshort =>
          refine Or.inr ⟨Nat.le_of_not_lt hshort, ?_⟩
          split at h
          · cases h
          · cases hfold : (graph node.token).foldlM (relax env goal node.cost node.path)
              { search with heap := rest } with
            | none => rfl
            | some search' =>
              rw [hfold] at h
              cases h

/-- A search follows a settling order with a property, and knows how its first path arrived. -/
structure Follows (pools : List PoolInfo) (start goal : H256) (hops : Nat)
    (J : List (Offer H256) → Prop) (search : Search heaps) (settled : List (Offer H256)) :
    Prop where
  settles : Settles (edges pools) hops start goal settled
  tracks : Tracks goal settled (offers (edges pools) hops start settled) search
  property : J settled
  arrived : ∀ path ∈ search.paths.head?,
    ∃ before cost, J before ∧ Arrived pools start goal hops before path cost

variable {J : List (Offer H256) → Prop}

/-- The first path stays the first one. -/
theorem Follows.arrive (h : Follows pools start goal hops J search settled)
    (hpop : heaps.pop search.heap = some (node, rest)) (hgoal : node.token = goal) :
    ∀ path ∈ (search.paths ++ [node.path]).head?,
      ∃ before cost, J before ∧ Arrived pools start goal hops before path cost := by
  intro path hpath
  cases hpaths : search.paths with
  | nil =>
    rw [hpaths] at hpath
    cases hpath
    exact ⟨settled, _, h.property, h.tracks.arrived h.settles hpaths hpop hgoal⟩
  | cons first paths =>
    rw [hpaths] at hpath
    refine h.arrived path ?_
    rw [hpaths]
    exact hpath

/-- What the heap gives next keeps the property of the order. -/
def KeptByHeap (heaps : NodeHeap) (pools : List PoolInfo) (start goal : H256) (hops : Nat)
    (J : List (Offer H256) → Prop) : Prop :=
  ∀ (settled : List (Offer H256)) (search : Search heaps) (node : Node) (rest : heaps.Heap),
    Settles (edges pools) hops start goal settled →
    Tracks goal settled (offers (edges pools) hops start settled) search → J settled →
    heaps.pop search.heap = some (node, rest) →
    Next (edges pools) hops start goal settled node.offer → J (settled ++ [node.offer])

/-- No property of the order is asked for. -/
theorem keptByHeap_true (heaps : NodeHeap) (pools : List PoolInfo) (start goal : H256)
    (hops : Nat) : KeptByHeap heaps pools start goal hops fun _ => True :=
  fun _ _ _ _ _ _ _ _ _ => trivial

theorem Follows.turn (h : Follows pools start goal maxHops.toNat J search settled)
    (hkept : KeptByHeap heaps pools start goal maxHops.toNat J)
    (hfit : WeightsFit env pools start maxHops.toNat) (harriving : Arriving env goal maxHops)
    (hturn : dijkstraTurn env (buildGraph pools) goal maxHops search = some (.going search')) :
    ∃ settled', Follows pools start goal maxHops.toNat J search' settled' := by
  obtain ⟨settled', hadvanced⟩ := h.tracks.turn h.settles hfit harriving hturn
  refine ⟨settled', hadvanced.settles, hadvanced.tracks, ?_, ?_⟩
  · rcases hadvanced.settled with rfl | ⟨node, rest, hpop, hnext, rfl⟩
    · exact h.property
    · exact hkept settled search node rest h.settles h.tracks h.property hpop hnext
  · rcases hadvanced.paths with hsame | ⟨node, rest, hpop, hgoal, hmore⟩
    · rw [hsame]
      exact h.arrived
    · rw [hmore]
      exact h.arrive hpop hgoal

/-- What `dijkstra` comes to: `max_hops + 1` panics when a path arrives, or nothing has been
offered to the end in an order that is complete, or a path has arrived. -/
inductive Searched (env : Env) (pools : List PoolInfo) (start goal : H256) (maxHops : U64)
    (J : List (Offer H256) → Prop) : Option (Except RoutingError (List (List H256))) → Prop
  | panicked {settled : List (Offer H256)} {node : Node} : J settled →
      Settles (edges pools) maxHops.toNat start goal settled →
      node.offer ∈ offers (edges pools) maxHops.toNat start settled → node.token = goal →
      arrives env goal maxHops node = none → Searched env pools start goal maxHops J none
  | missed {settled : List (Offer H256)} : J settled →
      Settles (edges pools) maxHops.toNat start goal settled →
      Complete (edges pools) maxHops.toNat start goal settled →
      (∀ o ∈ offers (edges pools) maxHops.toNat start settled, o.vertex ≠ goal) →
      Searched env pools start goal maxHops J (some (.error .noRouteFound))
  | found {settled : List (Offer H256)} {path : List H256} {paths : List (List H256)}
      {cost : Nat} : J settled → Arrived pools start goal maxHops.toNat settled path cost →
      Searched env pools start goal maxHops J (some (.ok (path :: paths)))

theorem searched_of_arrived {paths : List (List H256)} (hne : paths ≠ [])
    (h : ∀ path ∈ paths.head?,
      ∃ before cost, J before ∧ Arrived pools start goal maxHops.toNat before path cost) :
    Searched env pools start goal maxHops J (some (outcome paths)) := by
  cases paths with
  | nil => exact absurd rfl hne
  | cons path paths =>
    obtain ⟨before, cost, hbefore, harrived⟩ := h path rfl
    exact .found hbefore harrived

/-- A turn does not panic at an edge. -/
theorem Follows.panicked (h : Follows pools start goal maxHops.toNat J search settled)
    (hfit : WeightsFit env pools start maxHops.toNat)
    (hturn : dijkstraTurn env (buildGraph pools) goal maxHops search = none) :
    Searched env pools start goal maxHops J none := by
  obtain ⟨node, rest, hpop, hnone | ⟨hshort, hfold⟩⟩ := dijkstraTurn_eq_none hturn
  · have hgoal : node.token = goal := by
      by_contra hne
      rw [arrives, if_neg hne] at hnone
      cases hnone
    have hmem := h.tracks.nodes node (NodeHeap.mem_of_pop hpop)
    exact .panicked h.property h.settles hmem hgoal hnone
  · have hmem := h.tracks.nodes node (NodeHeap.mem_of_pop hpop)
    have hdefined : ∀ edge ∈ buildGraph pools node.token,
        (env.add128 node.cost edge.weight).isSome := fun edge hedge =>
      (hfit.edge h.settles hmem hshort hedge).defined
    have hsome := @foldlM_relax_isSome heaps env goal node.cost node.path _ hdefined
      { search with heap := rest }
    rw [hfold] at hsome
    cases hsome

/-- If the heap is empty, nothing is left to be settled. -/
theorem Follows.finished (h : Follows pools start goal maxHops.toNat J search settled)
    (hpop : heaps.pop search.heap = none) :
    Searched env pools start goal maxHops J (some (outcome search.paths)) := by
  have hempty := heaps.pop_none hpop
  by_cases hpaths : search.paths = []
  · have hmissed : ∀ o ∈ offers (edges pools) maxHops.toNat start settled, o.vertex ≠ goal := by
      intro o ho hgoal
      obtain ⟨node, hnode, _⟩ := h.tracks.waiting hpaths o ho hgoal
      rw [hempty] at hnode
      cases hnode
    rw [hpaths]
    refine .missed h.property h.settles (fun o ho => Or.inr ?_) hmissed
    by_contra hno
    obtain ⟨best, hbest, _⟩ := exists_cheapest ho
    obtain ⟨node, hnode, _⟩ := h.tracks.kept o.vertex (hmissed o ho) hno best hbest
    rw [hempty] at hnode
    cases hnode
  · exact searched_of_arrived hpaths h.arrived

theorem dijkstra_searched (hkept : KeptByHeap heaps pools start goal maxHops.toNat J)
    (hnil : J []) (hfit : WeightsFit env pools start maxHops.toNat)
    (harriving : Arriving env goal maxHops) :
    Searched env pools start goal maxHops J (dijkstra heaps env pools start goal maxHops) := by
  rcases dijkstra_run (I := fun search : Search heaps =>
      ∃ settled, Follows pools start goal maxHops.toNat J search settled)
    ⟨[], .nil, tracks_initial pools start goal maxHops.toNat, hnil, fun path hpath => nomatch hpath⟩
    (fun search search' _ ⟨settled, h⟩ hturn => h.turn hkept hfit harriving hturn) with
    ⟨search, _, ⟨settled, h⟩, hturn, hrun⟩ | ⟨search, paths, _, ⟨settled, h⟩, hturn, hrun⟩
  · rw [hrun]
    exact h.panicked hfit hturn
  · rw [hrun]
    cases taken hturn with
    | finished hpop => exact h.finished hpop
    | last hpop harrives =>
      refine searched_of_arrived (List.append_ne_nil_of_right_ne_nil _ (List.cons_ne_nil _ _))
        (h.arrive hpop ?_)
      by_contra hne
      cases arrives_finish harrives hne

/-! ### The limit -/

/-- `max_hops + 1` is not too large. -/
def LimitFits (maxHops : U64) : Prop := maxHops.toNat + 1 < 2 ^ 64

instance (maxHops : U64) : Decidable (LimitFits maxHops) := inferInstanceAs (Decidable (_ < _))

theorem add64_one_of_fits (env : Env) (h : LimitFits maxHops) :
    ∃ limit, env.add64 maxHops 1 = some limit ∧ limit.toNat = maxHops.toNat + 1 := by
  have hlt : maxHops.toNat + (1 : U64).toNat < 2 ^ 64 := h
  refine ⟨maxHops + 1, if_neg fun hno => Nat.not_le_of_lt hlt hno.2, ?_⟩
  rw [BitVec.toNat_add, Nat.mod_eq_of_lt hlt]
  rfl

theorem arrives_of_fits (env : Env) (h : LimitFits maxHops) (hgoal : node.token = goal)
    (hlength : node.path.length ≤ maxHops.toNat + 1) :
    arrives env goal maxHops node = some true := by
  obtain ⟨limit, hlimit, hval⟩ := add64_one_of_fits env h
  rw [arrives, if_pos hgoal, hlimit]
  exact congrArg some (decide_eq_true (hval ▸ hlength))

/-- If the limit is too large, nothing arrives: it wraps around to zero, or that panics. -/
theorem arrives_ne_true (env : Env) (h : ¬ LimitFits maxHops) (hne : node.path ≠ []) :
    arrives env goal maxHops node ≠ some true := by
  have hmax : maxHops.toNat + (1 : U64).toNat = 2 ^ 64 := by
    have hlt := maxHops.isLt
    show maxHops.toNat + 1 = 2 ^ 64
    rw [LimitFits] at h
    omega
  have hzero : maxHops + 1 = 0 := BitVec.eq_of_toNat_eq (by rw [BitVec.toNat_add, hmax]; rfl)
  rw [arrives, Build.add64, hmax, hzero]
  split
  · split
    · exact fun heq => by cases heq
    · intro heq
      have hle := of_decide_eq_true (Option.some.inj heq)
      exact hne (List.eq_nil_of_length_eq_zero (Nat.le_zero.mp hle))
  · exact fun heq => Bool.noConfusion (Option.some.inj heq)

/-- If the limit fits, the search returns. -/
theorem Searched.isSome {result : Option (Except RoutingError (List (List H256)))}
    (h : Searched env pools start goal maxHops J result) (hlimit : LimitFits maxHops) :
    result.isSome := by
  cases h with
  | panicked _ hsettles hmem hgoal hnone =>
    rw [arrives_of_fits env hlimit hgoal (hsettles.offer _ hmem).2.2] at hnone
    cases hnone
  | missed => rfl
  | found => rfl

theorem arriving (h : env.overflowChecks = true ∨ LimitFits maxHops) (goal : H256) :
    Arriving env goal maxHops := by
  intro node hgoal hlength
  by_cases hfits : LimitFits maxHops
  · rw [arrives_of_fits env hfits hgoal hlength]
    exact fun heq => Bool.noConfusion (Option.some.inj heq)
  · have hchecks := h.resolve_right hfits
    have hle : 2 ^ 64 ≤ maxHops.toNat + (1 : U64).toNat := Nat.le_of_not_lt hfits
    rw [arrives, if_pos hgoal, Build.add64, if_pos ⟨hchecks, hle⟩]
    exact fun heq => by cases heq

/-- If the limit is too large, no path is found. -/
theorem dijkstra_of_limit (env : Env) (h : ¬ LimitFits maxHops) :
    dijkstra heaps env pools start goal maxHops = none ∨
      dijkstra heaps env pools start goal maxHops = some (.error .noRouteFound) := by
  have hnever : ∀ {search : Search heaps} {node : Node} {rest : heaps.Heap},
      AllRoutes pools start goal maxHops.toNat search →
      heaps.pop search.heap = some (node, rest) → arrives env goal maxHops node ≠ some true := by
    intro search node rest hroutes hpop
    refine arrives_ne_true env h fun hnil => ?_
    have hstarts := (hroutes.nodes node (NodeHeap.mem_of_pop hpop)).starts
    rw [hnil] at hstarts
    cases hstarts
  have hstep : ∀ search search' : Search heaps, AllRoutes pools start goal maxHops.toNat search →
      search.paths = [] →
      dijkstraTurn env (buildGraph pools) goal maxHops search = some (.going search') →
      search'.paths = [] := by
    intro search search' hroutes hpaths hturn
    cases taken hturn with
    | arrived hpop harrives => exact absurd harrives (hnever hroutes hpop)
    | blocked => exact hpaths
    | stale => exact hpaths
    | expanded _ _ _ _ hfold =>
      have hsame := paths_of_foldlM hfold
      exact hsame.trans hpaths
  rcases dijkstra_run (I := fun search : Search heaps => search.paths = []) rfl hstep with
    ⟨_, _, _, _, hrun⟩ | ⟨search, paths, hroutes, hpaths, hturn, hrun⟩
  · exact Or.inl hrun
  · rw [hrun]
    cases taken hturn with
    | finished => exact Or.inr (by rw [hpaths, outcome])
    | last hpop harrives => exact absurd harrives (hnever hroutes hpop)

/-- Nothing panics without overflow checks. -/
theorem dijkstra_isSome (hchecks : env.overflowChecks = false) :
    (dijkstra heaps env pools start goal maxHops).isSome := by
  rcases dijkstra_run (I := fun _ : Search heaps => True) trivial (fun _ _ _ _ _ => trivial) with
    ⟨search, _, _, hturn, _⟩ | ⟨_, _, _, _, _, hrun⟩
  · obtain ⟨node, rest, _, hnone | ⟨_, hfold⟩⟩ := dijkstraTurn_eq_none hturn
    · unfold arrives at hnone
      split at hnone
      · rw [Build.add64, hchecks, if_neg fun hno => Bool.false_ne_true hno.1] at hnone
        cases hnone
      · cases hnone
    · have hdefined : ∀ edge ∈ buildGraph pools node.token,
          (env.add128 node.cost edge.weight).isSome := by
        intro edge _
        rw [Build.add128, hchecks, if_neg fun hno => Bool.false_ne_true hno.1]
        rfl
      have hsome := @foldlM_relax_isSome heaps env goal node.cost node.path _ hdefined
        { search with heap := rest }
      rw [hfold] at hsome
      cases hsome
  · rw [hrun]
    rfl

/-- Without overflow checks, the limit wraps around to zero, and there is an error. -/
theorem dijkstra_of_wrapped (hchecks : env.overflowChecks = false) (h : ¬ LimitFits maxHops) :
    dijkstra heaps env pools start goal maxHops = some (.error .noRouteFound) := by
  refine (dijkstra_of_limit env h).resolve_left fun hnone => ?_
  have hsome := @dijkstra_isSome heaps env pools start goal maxHops hchecks
  rw [hnone] at hsome
  cases hsome

end InterBit.Dex.PathFinder
