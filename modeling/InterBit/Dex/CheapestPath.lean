import InterBit.Lib.CheapestFirst
import InterBit.Dex.PathTurns

/-!
# The search by cost

`dijkstra` is a search that settles the cheapest tokens first. The nodes of the heap are offers of
settled tokens, and the distance of a token is the cost of its cheapest offer (`Tracks`); a node
that is dearer is stale. A node that is not settles its token, and its edges are the next offers.
The token at the end is never settled, and all of its offers are in the heap until the first one
arrives.

`Tracks.turn` is the step of this: what a turn does is to settle a token, or nothing.
-/

namespace InterBit.Dex

open InterBit.Lib

/-- What a node offers. -/
def Node.offer (node : Node) : Offer H256 := ⟨node.path, node.token, node.cost.toNat⟩

namespace PathFinder

/-- The neighbours of a token, with the weights. -/
def edges (pools : List PoolInfo) (token : H256) : List (H256 × Nat) :=
  (buildGraph pools token).map fun edge => (edge.toToken, edge.weight.toNat)

/-- No path without repetitions gets too heavy by the next hop. With overflow checks, also the way
back must not. -/
def WeightsFit (env : Env) (pools : List PoolInfo) (start : H256) (hops : Nat) : Prop :=
  ∀ path token cost, Leads (edges pools) start path token cost → path.Nodup → path.length ≤ hops →
    ∀ edge ∈ edges pools token, edge.1 ∉ path ∨ env.overflowChecks = true → cost + edge.2 < 2 ^ 128

variable {heaps : NodeHeap} {env : Env} {pools : List PoolInfo} {start goal : H256} {hops : Nat}
  {maxHops : U64}

theorem mem_edges {token next : H256} {weight : Nat} :
    (next, weight) ∈ edges pools token ↔ JoinedAt pools token next weight := by
  rw [joinedAt_iff, edges, List.mem_map]
  refine exists_congr fun edge => and_congr_right fun _ => ?_
  rw [Prod.mk.injEq]

variable {token : H256} {path : List H256} {cost : U128}

theorem weight_le_of_mem_edges {bound : Nat}
    (hbound : ∀ pool ∈ pools, (calculateEdgeWeight pool).toNat ≤ bound) {edge : H256 × Nat}
    (hedge : edge ∈ edges pools token) : edge.2 ≤ bound := by
  obtain ⟨pool, hpool, _, hweight⟩ := mem_edges.mp hedge
  exact hweight ▸ hbound pool hpool

/-- A walk weighs no more than the bound for each hop. -/
theorem cost_le_of_leads {bound : Nat}
    (hbound : ∀ pool ∈ pools, (calculateEdgeWeight pool).toNat ≤ bound) {cost : Nat}
    (hwalk : Leads (edges pools) start path token cost) :
    cost + bound ≤ path.length * bound := by
  induction hwalk with
  | start => simp
  | step _ hstep ih =>
    have hle := weight_le_of_mem_edges hbound hstep
    rw [List.length_append, List.length_singleton, Nat.succ_mul]
    omega

/-- If the bound fits for all hops together, the paths do not get too heavy. -/
theorem weightsFit_of_le {bound : Nat}
    (hbound : ∀ pool ∈ pools, (calculateEdgeWeight pool).toNat ≤ bound)
    (hfit : hops * bound < 2 ^ 128) : WeightsFit env pools start hops := by
  intro path token cost hwalk _ hshort edge hedge _
  calc cost + edge.2 ≤ cost + bound := Nat.add_le_add_left (weight_le_of_mem_edges hbound hedge) _
    _ ≤ path.length * bound := cost_le_of_leads hbound hwalk
    _ ≤ hops * bound := Nat.mul_le_mul_right bound hshort
    _ < 2 ^ 128 := hfit

/-- Two nodes of a token have different costs, unless it is the one at the end. -/
def Apart (goal : H256) (node node' : Node) : Prop :=
  node.token = node'.token → node.token = goal ∨ node.cost ≠ node'.cost

theorem Apart.symm {node node' : Node} (h : Apart goal node node') : Apart goal node' node := by
  intro heq
  rw [heq]
  exact (h heq.symm).imp id fun hne hno => hne hno.symm

/-- A search has settled these tokens, and has made these offers. -/
structure Tracks (goal : H256) (settled os : List (Offer H256)) (search : Search heaps) :
    Prop where
  distances : ∀ token ≠ goal,
    (search.distances.lookup token).map BitVec.toNat = (cheapest os token).map Offer.cost
  nodes : ∀ node ∈ heaps.nodes search.heap, node.offer ∈ os
  kept : ∀ token ≠ goal, ¬ Settled settled token → ∀ o, cheapest os token = some o →
    ∃ node ∈ heaps.nodes search.heap, node.offer = o
  waiting : search.paths = [] → ∀ o ∈ os, o.vertex = goal →
    ∃ node ∈ heaps.nodes search.heap, node.offer = o
  late : ∀ node ∈ heaps.nodes search.heap, ∀ s ∈ settled, s.cost ≤ node.cost.toNat
  stale : ∀ node ∈ heaps.nodes search.heap, ∀ s ∈ settled, s.vertex = node.token →
    s.cost < node.cost.toNat
  best : ∀ s ∈ settled, cheapest os s.vertex = some s
  distinct : (heaps.nodes search.heap).Pairwise (Apart goal)

variable {settled os : List (Offer H256)} {search search' : Search heaps}

theorem Tracks.lookup (h : Tracks goal settled os search) (hne : token ≠ goal) {d : U128}
    (hd : search.distances.lookup token = some d) :
    ∃ o, cheapest os token = some o ∧ o.cost = d.toNat := by
  have heq := h.distances token hne
  rw [hd, Option.map_some] at heq
  exact Option.map_eq_some_iff.mp heq.symm

theorem Tracks.lookup_of_cheapest (h : Tracks goal settled os search) (hne : token ≠ goal)
    {o : Offer H256} (ho : cheapest os token = some o) :
    ∃ d, search.distances.lookup token = some d ∧ d.toNat = o.cost := by
  have heq := h.distances token hne
  rw [ho, Option.map_some] at heq
  exact Option.map_eq_some_iff.mp heq

/-! ### Edges -/

/-- The offers of some edges. -/
def offersAlong (path : List H256) (cost : Nat) (l : List Edge) : List (Offer H256) :=
  ((l.map fun edge => (edge.toToken, edge.weight.toNat)).filter (·.1 ∉ path)).map fun edge =>
    ⟨path ++ [edge.1], edge.1, cost + edge.2⟩

theorem offersOf_eq {node : Node} (hshort : node.path.length ≤ hops) :
    offersOf (edges pools) hops node.offer
      = offersAlong node.path node.cost.toNat (buildGraph pools node.token) := by
  rw [offersOf, if_pos (by exact hshort)]
  exact congrArg (List.map _) (List.filter_congr fun edge _ => decide_eq_decide.mpr Iff.rfl)

theorem offersAlong_cons_of_mem {edge : Edge} (h : edge.toToken ∈ path) (cost : Nat)
    (l : List Edge) :
    offersAlong path cost (edge :: l) = offersAlong path cost l := by
  rw [offersAlong, List.map_cons, List.filter_cons_of_neg]
  · rfl
  · exact fun hno => of_decide_eq_true hno h

/-- Any other edge is one. -/
theorem offersAlong_cons_of_not_mem {edge : Edge} (h : edge.toToken ∉ path) (cost : Nat)
    (l : List Edge) :
    offersAlong path cost (edge :: l)
      = ⟨path ++ [edge.toToken], edge.toToken, cost + edge.weight.toNat⟩ ::
        offersAlong path cost l := by
  rw [offersAlong, List.map_cons, List.filter_cons_of_pos]
  · rfl
  · exact decide_eq_true h

/-- An edge leads to an offer at this cost, or back. -/
structure EdgeFits (env : Env) (cost : U128) (path : List H256) (edge : Edge) : Prop where
  defined : (env.add128 cost edge.weight).isSome
  exact : edge.toToken ∉ path → ∀ next, env.add128 cost edge.weight = some next →
    next.toNat = cost.toNat + edge.weight.toNat

/-- The offer of an edge that is not cheaper than the cheapest one is not put on the heap. -/
theorem Tracks.dearer (h : Tracks goal settled os search) {o best : Offer H256}
    (hne : o.vertex ≠ goal) (hbest : cheapest os o.vertex = some best) (hle : best.cost ≤ o.cost) :
    Tracks goal settled (os ++ [o]) search := by
  have hsame : ∀ token, cheapest (os ++ [o]) token = cheapest os token := by
    intro token
    by_cases heq : o.vertex = token
    · subst heq
      rw [cheapest_concat_of_le hbest hle, hbest]
    · exact cheapest_concat_of_ne heq
  exact { h with
    distances := fun token htoken => by rw [hsame, h.distances token htoken]
    nodes := fun node hnode => List.mem_append_left _ (h.nodes node hnode)
    kept := fun token htoken hno o' ho' => h.kept token htoken hno o' (hsame token ▸ ho')
    waiting := fun hpaths o' ho' hgoal => by
      rcases List.mem_append.mp ho' with ho' | ho'
      · exact h.waiting hpaths o' ho' hgoal
      · exact absurd (List.mem_singleton.mp ho' ▸ hgoal) hne
    best := fun s hs => by rw [hsame, h.best s hs] }

theorem cheapest_concat_node {node : Node}
    (h : ∀ best, cheapest os node.token = some best → node.cost.toNat < best.cost) :
    cheapest (os ++ [node.offer]) node.token = some node.offer :=
  cheapest_concat_of_lt (o := node.offer) h

/-- The offer of an edge that is cheaper, or is an offer to the end, is put on the heap. -/
theorem Tracks.pushed (h : Tracks goal settled os search) (node : Node)
    (hcheaper : node.token ≠ goal → ∀ best, cheapest os node.token = some best →
      node.cost.toNat < best.cost)
    (hlate : ∀ s ∈ settled, s.cost ≤ node.cost.toNat) (hgoal : ∀ s ∈ settled, s.vertex ≠ goal) :
    Tracks goal settled (os ++ [node.offer]) { search with
      distances := search.distances.insert node.token node.cost
      heap := heaps.push search.heap node } where
  distances token htoken := by
    by_cases heq : node.token = token
    · subst heq
      rw [AList.lookup_insert, cheapest_concat_node (hcheaper htoken)]
      rfl
    · rw [AList.lookup_insert_ne fun hno => heq hno.symm,
        cheapest_concat_of_ne (o := node.offer) heq, h.distances token htoken]
  nodes other hother := by
    rcases NodeHeap.mem_push.mp hother with rfl | hother
    · exact List.mem_append_right _ (List.mem_singleton_self _)
    · exact List.mem_append_left _ (h.nodes other hother)
  kept token htoken hno o ho := by
    by_cases heq : node.token = token
    · subst heq
      rw [cheapest_concat_node (hcheaper htoken)] at ho
      exact ⟨node, NodeHeap.mem_push.mpr (Or.inl rfl), Option.some.inj ho⟩
    · rw [cheapest_concat_of_ne (o := node.offer) heq] at ho
      obtain ⟨other, hother, hoffer⟩ := h.kept token htoken hno o ho
      exact ⟨other, NodeHeap.mem_push.mpr (Or.inr hother), hoffer⟩
  waiting hpaths o ho hvertex := by
    rcases List.mem_append.mp ho with ho | ho
    · obtain ⟨other, hother, hoffer⟩ := h.waiting hpaths o ho hvertex
      exact ⟨other, NodeHeap.mem_push.mpr (Or.inr hother), hoffer⟩
    · exact ⟨node, NodeHeap.mem_push.mpr (Or.inl rfl), (List.mem_singleton.mp ho).symm⟩
  late other hother s hs := by
    rcases NodeHeap.mem_push.mp hother with rfl | hother
    · exact hlate s hs
    · exact h.late other hother s hs
  stale other hother s hs hvertex := by
    rcases NodeHeap.mem_push.mp hother with rfl | hother
    · -- a settled token has no cheaper offer
      have hne : other.token ≠ goal := hvertex ▸ hgoal s hs
      exact absurd (hcheaper hne s (hvertex ▸ h.best s hs)) (Nat.not_lt_of_le (hlate s hs))
    · exact h.stale other hother s hs hvertex
  best s hs := cheapest_concat_of_le (h.best s hs) (hlate s hs)
  distinct := by
    refine ((heaps.nodes_push search.heap node).pairwise_iff Apart.symm).mpr
      (List.pairwise_cons.mpr ⟨fun other hother heq => ?_, h.distinct⟩)
    refine or_iff_not_imp_left.mpr fun hne hcost => ?_
    obtain ⟨best, hbest, hle⟩ := exists_cheapest (h.nodes other hother)
    have hlt := hcheaper hne best (heq ▸ hbest)
    rw [hcost] at hlt
    exact Nat.not_lt_of_le hle hlt

/-- An edge fits where the sum of the costs does. -/
theorem edgeFits {edge : Edge}
    (h : edge.toToken ∉ path ∨ env.overflowChecks = true →
      cost.toNat + edge.weight.toNat < 2 ^ 128) : EdgeFits env cost path edge where
  defined := by
    rw [Build.add128, if_neg fun hno => Nat.not_le_of_lt (h (Or.inr hno.1)) hno.2]
    rfl
  exact hnew next hnext := by
    have hlt := h (Or.inl hnew)
    rw [Build.add128, if_neg fun hno => Nat.not_le_of_lt hlt hno.2] at hnext
    rw [← Option.some.inj hnext, BitVec.toNat_add, Nat.mod_eq_of_lt hlt]

/-- One edge of a settled token. -/
theorem Tracks.relax (h : Tracks goal settled os search) {edge : Edge}
    (hfits : EdgeFits env cost path edge) (hlate : ∀ s ∈ settled, s.cost ≤ cost.toNat)
    (hgoal : ∀ s ∈ settled, s.vertex ≠ goal)
    (hrelax : relax env goal cost path search edge = some search') :
    Tracks goal settled (os ++ offersAlong path cost.toNat [edge]) search' := by
  cases relaxed hrelax with
  | visited hmem =>
    rw [offersAlong_cons_of_mem hmem]
    exact (List.append_nil os).symm ▸ h
  | dearer hnew hnext hlookup hle hne =>
    rw [offersAlong_cons_of_not_mem hnew]
    obtain ⟨best, hbest, hcost⟩ := h.lookup hne hlookup
    refine h.dearer hne hbest ?_
    rw [hcost, ← hfits.exact hnew _ hnext]
    exact hle
  | @pushed nextCost hnew hnext hcheaper =>
    rw [offersAlong_cons_of_not_mem hnew, ← hfits.exact hnew _ hnext]
    refine h.pushed ⟨edge.toToken, nextCost, path ++ [edge.toToken]⟩
      (fun hne best hbest => ?_) (fun s hs => ?_) hgoal
    · obtain ⟨d, hd, hcost⟩ := h.lookup_of_cheapest hne hbest
      exact hcost ▸ hcheaper d hd hne
    · show s.cost ≤ nextCost.toNat
      rw [hfits.exact hnew _ hnext]
      exact (hlate s hs).trans (Nat.le_add_right ..)

/-- All edges of a settled token. -/
theorem Tracks.relaxAll {l : List Edge} (hfits : ∀ edge ∈ l, EdgeFits env cost path edge)
    (hlate : ∀ s ∈ settled, s.cost ≤ cost.toNat) (hgoal : ∀ s ∈ settled, s.vertex ≠ goal) :
    ∀ {os : List (Offer H256)} {search : Search heaps}, Tracks goal settled os search →
      l.foldlM (PathFinder.relax env goal cost path) search = some search' →
        Tracks goal settled (os ++ offersAlong path cost.toNat l) search' := by
  induction l with
  | nil =>
    intro os search h hfold
    cases hfold
    exact (List.append_nil os).symm ▸ h
  | cons edge l ih =>
    intro os search h hfold
    obtain ⟨search₁, hrelax, hfold⟩ := Option.bind_eq_some_iff.mp hfold
    have hfirst := h.relax (hfits edge List.mem_cons_self) hlate hgoal hrelax
    have hall := ih (fun edge hedge => hfits edge (List.mem_cons_of_mem _ hedge)) hfirst hfold
    have hsplit : offersAlong path cost.toNat (edge :: l)
        = offersAlong path cost.toNat [edge] ++ offersAlong path cost.toNat l := by
      by_cases hmem : edge.toToken ∈ path
      · rw [offersAlong_cons_of_mem hmem, offersAlong_cons_of_mem hmem]
        rfl
      · rw [offersAlong_cons_of_not_mem hmem, offersAlong_cons_of_not_mem hmem]
        rfl
    rw [hsplit, ← List.append_assoc]
    exact hall

/-- The edges do not panic. -/
theorem foldlM_relax_isSome {cost : U128} {path : List H256} {l : List Edge}
    (hdefined : ∀ edge ∈ l, (env.add128 cost edge.weight).isSome) :
    ∀ search : Search heaps, (l.foldlM (relax env goal cost path) search).isSome := by
  induction l with
  | nil => exact fun _ => rfl
  | cons edge l ih =>
    intro search
    obtain ⟨next, hnext⟩ := Option.isSome_iff_exists.mp (hdefined edge List.mem_cons_self)
    have hrelax : ∃ search', relax env goal cost path search edge = some search' := by
      rw [relax, hnext]
      dsimp only [Option.bind_eq_bind, Option.bind_some]
      split
      · exact ⟨_, rfl⟩
      · split
        · exact ⟨_, rfl⟩
        · exact ⟨_, rfl⟩
    obtain ⟨search', hsearch'⟩ := hrelax
    rw [List.foldlM_cons, hsearch']
    exact ih (fun edge hedge => hdefined edge (List.mem_cons_of_mem _ hedge)) search'

/-! ### Nodes -/

variable {node : Node} {rest : heaps.Heap}

/-- What is not popped is left. -/
theorem mem_rest (hpop : heaps.pop search.heap = some (node, rest)) {other : Node}
    (hother : other ∈ heaps.nodes search.heap) (hne : other ≠ node) : other ∈ heaps.nodes rest :=
  (List.mem_cons.mp ((heaps.nodes_pop hpop).1.mem_iff.mp hother)).resolve_left hne

theorem Tracks.apart_rest (h : Tracks goal settled os search)
    (hpop : heaps.pop search.heap = some (node, rest)) :
    (∀ other ∈ heaps.nodes rest, Apart goal node other) ∧
      (heaps.nodes rest).Pairwise (Apart goal) :=
  List.pairwise_cons.mp (((heaps.nodes_pop hpop).1.pairwise_iff Apart.symm).mp h.distinct)

/-- A node that is not the cheapest offer, or is at the end, goes from the heap. -/
theorem Tracks.drop (h : Tracks goal settled os search)
    (hpop : heaps.pop search.heap = some (node, rest)) {paths : List (List H256)}
    (hpaths : paths = [] → search.paths = [] ∧ node.token ≠ goal)
    (hcurrent : node.token ≠ goal → ¬ Settled settled node.token →
      cheapest os node.token ≠ some node.offer) :
    Tracks goal settled os { search with heap := rest, paths } where
  distances := h.distances
  nodes other hother := h.nodes other (NodeHeap.mem_of_mem_rest hpop hother)
  kept token htoken hno o ho := by
    obtain ⟨other, hother, rfl⟩ := h.kept token htoken hno o ho
    refine ⟨other, mem_rest hpop hother fun heq => ?_, rfl⟩
    subst heq
    have hvertex : other.token = token := vertex_of_cheapest ho
    subst hvertex
    exact hcurrent htoken hno ho
  waiting hnone o ho hgoal := by
    obtain ⟨hnil, hne⟩ := hpaths hnone
    obtain ⟨other, hother, rfl⟩ := h.waiting hnil o ho hgoal
    exact ⟨other, mem_rest hpop hother fun heq => hne (heq ▸ hgoal), rfl⟩
  late other hother := h.late other (NodeHeap.mem_of_mem_rest hpop hother)
  stale other hother := h.stale other (NodeHeap.mem_of_mem_rest hpop hother)
  best := h.best
  distinct := (h.apart_rest hpop).2

/-- The node of the cheapest offer settles its token. -/
theorem Tracks.settle (h : Tracks goal settled os search)
    (hpop : heaps.pop search.heap = some (node, rest)) (hne : node.token ≠ goal)
    (hcheapest : cheapest os node.token = some node.offer) :
    Tracks goal (settled ++ [node.offer]) os { search with heap := rest } where
  distances := h.distances
  nodes other hother := h.nodes other (NodeHeap.mem_of_mem_rest hpop hother)
  kept token htoken hno o ho := by
    have hnew : ¬ Settled settled token := fun hs => hno (settled_concat.mpr (Or.inl hs))
    obtain ⟨other, hother, rfl⟩ := h.kept token htoken hnew o ho
    refine ⟨other, mem_rest hpop hother fun heq => ?_, rfl⟩
    subst heq
    exact hno (settled_concat.mpr (Or.inr (vertex_of_cheapest ho)))
  waiting hnone o ho hgoal := by
    obtain ⟨other, hother, rfl⟩ := h.waiting hnone o ho hgoal
    exact ⟨other, mem_rest hpop hother fun heq => hne (heq ▸ hgoal), rfl⟩
  late other hother s hs := by
    have hother := NodeHeap.mem_of_mem_rest hpop hother
    rcases List.mem_append.mp hs with hs | hs
    · exact h.late other hother s hs
    · rw [List.mem_singleton.mp hs]
      exact NodeHeap.cost_le_of_pop hpop hother
  stale other hother s hs hvertex := by
    rcases List.mem_append.mp hs with hs | hs
    · exact h.stale other (NodeHeap.mem_of_mem_rest hpop hother) s hs hvertex
    · rw [List.mem_singleton.mp hs] at hvertex ⊢
      refine Nat.lt_of_le_of_ne
        (NodeHeap.cost_le_of_pop hpop (NodeHeap.mem_of_mem_rest hpop hother)) fun hcost => ?_
      rcases (h.apart_rest hpop).1 other hother hvertex with hgoal | hdiff
      · exact hne hgoal
      · exact hdiff (BitVec.eq_of_toNat_eq hcost)
  best s hs := by
    rcases List.mem_append.mp hs with hs | hs
    · exact h.best s hs
    · rw [List.mem_singleton.mp hs]
      exact hcheapest
  distinct := (h.apart_rest hpop).2

/-- A node that is not dearer than the distance is the cheapest offer, and its token has not been
settled. -/
theorem Tracks.current (h : Tracks goal settled os search)
    (hpop : heaps.pop search.heap = some (node, rest)) (hne : node.token ≠ goal)
    (hcurrent : ∀ d, search.distances.lookup node.token = some d → node.cost.toNat ≤ d.toNat) :
    cheapest os node.token = some node.offer ∧ ¬ Settled settled node.token := by
  have hnode := NodeHeap.mem_of_pop hpop
  obtain ⟨best, hbest, hle⟩ := exists_cheapest (h.nodes node hnode)
  have hbest : cheapest os node.token = some best := hbest
  have hle : best.cost ≤ node.cost.toNat := hle
  obtain ⟨d, hd, hcost⟩ := h.lookup_of_cheapest hne hbest
  have hge := hcurrent d hd
  have hnew : ¬ Settled settled node.token := by
    intro ⟨s, hs, hsv⟩
    have hlt := h.stale node hnode s hs hsv
    have heq := h.best s hs
    rw [hsv, hbest] at heq
    rw [← Option.some.inj heq] at hlt
    omega
  refine ⟨?_, hnew⟩
  obtain ⟨other, hother, rfl⟩ := h.kept node.token hne hnew best hbest
  have hvertex : other.token = node.token := vertex_of_cheapest hbest
  have hsame : other = node := by
    by_contra hdiff
    have happart := (h.apart_rest hpop).1 other (mem_rest hpop hother hdiff) hvertex.symm
    have hcost : other.cost.toNat = d.toNat := hcost.symm
    exact happart.elim hne fun hno => hno (BitVec.eq_of_toNat_eq (by omega))
  rw [hbest, hsame]

/-- The next token that is settled is one with a cheapest offer. -/
theorem Tracks.next (h : Tracks goal settled (offers (edges pools) hops start settled) search)
    (hpop : heaps.pop search.heap = some (node, rest)) (hne : node.token ≠ goal)
    (hcheapest : cheapest (offers (edges pools) hops start settled) node.token = some node.offer)
    (hnew : ¬ Settled settled node.token) :
    Next (edges pools) hops start goal settled node.offer where
  isCheapest := hcheapest
  fresh := hnew
  notGoal := hne
  first o ho hno hgoal := by
    obtain ⟨best, hbest, hle⟩ := exists_cheapest ho
    obtain ⟨other, hother, rfl⟩ := h.kept o.vertex hgoal hno best hbest
    exact (NodeHeap.cost_le_of_pop hpop hother).trans hle

/-! ### Turns -/

/-- All weights fit that a node of the search needs. -/
theorem WeightsFit.edge (hfit : WeightsFit env pools start hops)
    (hsettles : Settles (edges pools) hops start goal settled)
    (hnode : node.offer ∈ offers (edges pools) hops start settled)
    (hshort : node.path.length ≤ hops) {edge : Edge} (hedge : edge ∈ buildGraph pools node.token) :
    EdgeFits env node.cost node.path edge := by
  obtain ⟨hwalk, hnodup, _⟩ := hsettles.offer node.offer hnode
  exact edgeFits fun h => hfit node.path node.token node.cost.toNat hwalk hnodup hshort _
    (List.mem_map_of_mem hedge) h

/-- Every node at the end arrives, or `max_hops + 1` panics. -/
def Arriving (env : Env) (goal : H256) (maxHops : U64) : Prop :=
  ∀ node : Node, node.token = goal → node.path.length ≤ maxHops.toNat + 1 →
    arrives env goal maxHops node ≠ some false

/-- The paths do not change along edges. -/
theorem paths_of_foldlM {l : List Edge}
    (h : l.foldlM (relax env goal cost path) search = some search') :
    search'.paths = search.paths := by
  refine foldlM_invariant (I := fun s : Search heaps => s.paths = search.paths)
    (fun s s' edge _ hs hrelax => ?_) rfl h
  cases relaxed hrelax with
  | visited => exact hs
  | dearer => exact hs
  | pushed => exact hs

/-- What a turn has done to the tokens that are settled, and to the paths. -/
structure Advanced (pools : List PoolInfo) (start goal : H256) (hops : Nat)
    (search : Search heaps) (settled : List (Offer H256)) (search' : Search heaps)
    (settled' : List (Offer H256)) : Prop where
  settles : Settles (edges pools) hops start goal settled'
  tracks : Tracks goal settled' (offers (edges pools) hops start settled') search'
  settled : settled' = settled ∨ ∃ node rest, heaps.pop search.heap = some (node, rest) ∧
    Next (edges pools) hops start goal settled node.offer ∧ settled' = settled ++ [node.offer]
  paths : search'.paths = search.paths ∨ ∃ node rest, heaps.pop search.heap = some (node, rest) ∧
    node.token = goal ∧ search'.paths = search.paths ++ [node.path]

theorem Tracks.turn
    (h : Tracks goal settled (offers (edges pools) maxHops.toNat start settled) search)
    (hsettles : Settles (edges pools) maxHops.toNat start goal settled)
    (hfit : WeightsFit env pools start maxHops.toNat) (harriving : Arriving env goal maxHops)
    (hturn : dijkstraTurn env (buildGraph pools) goal maxHops search = some (.going search')) :
    ∃ settled', Advanced pools start goal maxHops.toNat search settled search' settled' := by
  -- A node that does not arrive is not at the end.
  have hother : ∀ {node : Node} {rest : heaps.Heap}, heaps.pop search.heap = some (node, rest) →
      arrives env goal maxHops node = some false → node.token ≠ goal := by
    intro node rest hpop hno hgoal
    have hlength := (hsettles.offer node.offer (h.nodes node (NodeHeap.mem_of_pop hpop))).2.2
    exact harriving node hgoal hlength hno
  -- A node that is not the cheapest offer is forgotten.
  have hforget : ∀ {node : Node} {rest : heaps.Heap}, heaps.pop search.heap = some (node, rest) →
      node.token ≠ goal → (¬ Settled settled node.token → cheapest (offers (edges pools)
        maxHops.toNat start settled) node.token ≠ some node.offer) →
      Advanced pools start goal maxHops.toNat search settled { search with heap := rest } settled :=
    fun hpop hne hdearer => ⟨hsettles, h.drop hpop (fun hnone => ⟨hnone, hne⟩) fun _ => hdearer,
      Or.inl rfl, Or.inl rfl⟩
  cases taken hturn with
  | @arrived node rest hpop harrives =>
    have hgoal : node.token = goal := by
      by_contra hne
      cases arrives_finish harrives hne
    exact ⟨settled, hsettles, h.drop hpop
      (fun hnone => absurd hnone (List.append_ne_nil_of_right_ne_nil _ (List.cons_ne_nil _ _)))
      fun hne => absurd hgoal hne, Or.inl rfl, Or.inr ⟨_, _, hpop, hgoal, rfl⟩⟩
  | @blocked node rest hpop harrives hlong =>
    have hne := hother hpop harrives
    by_cases hcheapest : cheapest (offers (edges pools) maxHops.toNat start settled) node.token
        = some node.offer ∧ ¬ Settled settled node.token
    · have hnext := h.next hpop hne hcheapest.1 hcheapest.2
      refine ⟨settled ++ [node.offer], .next hsettles hnext, ?_,
        Or.inr ⟨node, rest, hpop, hnext, rfl⟩, Or.inl rfl⟩
      -- The path is too long for offers.
      have hnone : offersOf (edges pools) maxHops.toNat node.offer = [] :=
        if_neg (Nat.not_le_of_lt hlong)
      rw [offers_concat, hnone, List.append_nil]
      exact h.settle hpop hne hcheapest.1
    · exact ⟨settled, hforget hpop hne fun hnew heq => hcheapest ⟨heq, hnew⟩⟩
  | @stale node rest d hpop harrives _ hlookup hlt =>
    have hne := hother hpop harrives
    refine ⟨settled, hforget hpop hne fun _ heq => ?_⟩
    obtain ⟨d', hd', hcost⟩ := h.lookup_of_cheapest hne heq
    cases hlookup.symm.trans hd'
    exact Nat.lt_irrefl _ (hcost ▸ hlt)
  | @expanded node rest _ hpop harrives hshort hcurrent hfold =>
    have hne := hother hpop harrives
    have hmem := h.nodes node (NodeHeap.mem_of_pop hpop)
    obtain ⟨hcheapest, hnew⟩ := h.current hpop hne hcurrent
    have hnext := h.next hpop hne hcheapest hnew
    have hsettles' := Settles.next hsettles hnext
    have hpaths := paths_of_foldlM hfold
    refine ⟨settled ++ [node.offer], hsettles', ?_, Or.inr ⟨node, rest, hpop, hnext, rfl⟩,
      Or.inl hpaths⟩
    rw [offers_concat, offersOf_eq hshort]
    refine (h.settle hpop hne hcheapest).relaxAll
      (fun edge hedge => hfit.edge hsettles hmem hshort hedge) (fun s hs => ?_)
      hsettles'.ordered.notGoal hfold
    rcases List.mem_append.mp hs with hs | hs
    · exact h.late node (NodeHeap.mem_of_pop hpop) s hs
    · rw [List.mem_singleton.mp hs]
      exact le_rfl

end PathFinder

end InterBit.Dex
