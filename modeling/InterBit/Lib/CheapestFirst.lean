import Mathlib.Data.List.Induction
import Mathlib.Data.List.Nodup
import Mathlib.Order.Nat

/-!
# Searching the cheapest vertices first

A search from a vertex settles one vertex after the other. Each settled vertex offers its
neighbours a path that goes on from its own, if that is not too long already (`offers`). The next
vertex is one whose cheapest offer is the cheapest of all (`Next`), and it settles for the first of
its cheapest offers. One vertex is the goal and is never settled. `Settles` are the orders in which
this can happen, `Complete` those that cannot go on.

Nothing is offered at a lower cost than what has been settled (`Settles.cost_le`). So if no path
is too long, what is offered at least cost is no more than any walk weighs (`le_of_leads`), and if
the search cannot go on, there is no walk to what has not been settled (`settled_of_leads`).
-/

namespace InterBit.Lib

/-- A path to a vertex, and what it costs. -/
structure Offer (V : Type) where
  path : List V
  vertex : V
  cost : Nat
  deriving DecidableEq

variable {V : Type} [DecidableEq V] (edges : V → List (V × Nat)) (hops : Nat) (start goal : V)

/-- Walks from the start along edges, with what they weigh. -/
inductive Leads : List V → V → Nat → Prop
  | start : Leads [start] start 0
  | step {path : List V} {u v : V} {cost weight : Nat} : Leads path u cost →
      (v, weight) ∈ edges u → Leads (path ++ [v]) v (cost + weight)

/-- The offers of one settled vertex. -/
def offersOf (settled : Offer V) : List (Offer V) :=
  if settled.path.length ≤ hops then
    ((edges settled.vertex).filter (·.1 ∉ settled.path)).map fun edge =>
      ⟨settled.path ++ [edge.1], edge.1, settled.cost + edge.2⟩
  else []

/-- The offers of the settled vertices, in their order; the start has an offer from the start. -/
def offers (order : List (Offer V)) : List (Offer V) :=
  ⟨[start], start, 0⟩ :: order.flatMap (offersOf edges hops)

/-- The first of the cheapest offers to a vertex. -/
def cheapest (os : List (Offer V)) (v : V) : Option (Offer V) :=
  os.foldl (fun best o => if o.vertex = v ∧ best.all (o.cost < ·.cost) then some o else best) none

/-- A vertex has been settled. -/
def Settled (order : List (Offer V)) (v : V) : Prop := ∃ s ∈ order, s.vertex = v

/-- The next vertex may be this one, with this offer. -/
structure Next (order : List (Offer V)) (o : Offer V) : Prop where
  isCheapest : cheapest (offers edges hops start order) o.vertex = some o
  fresh : ¬ Settled order o.vertex
  notGoal : o.vertex ≠ goal
  first : ∀ o' ∈ offers edges hops start order, ¬ Settled order o'.vertex → o'.vertex ≠ goal →
    o.cost ≤ o'.cost

/-- The orders in which vertices can be settled. -/
inductive Settles : List (Offer V) → Prop
  | nil : Settles []
  | next {order : List (Offer V)} {o : Offer V} : Settles order →
      Next edges hops start goal order o → Settles (order ++ [o])

/-- There is nothing left to be settled. -/
def Complete (order : List (Offer V)) : Prop :=
  ∀ o ∈ offers edges hops start order, o.vertex = goal ∨ Settled order o.vertex

variable {edges hops start goal} {order : List (Offer V)} {o : Offer V} {v : V}

/-! ### The cheapest offer -/

theorem cheapest_concat (os : List (Offer V)) (o : Offer V) (v : V) :
    cheapest (os ++ [o]) v
      = if o.vertex = v ∧ (cheapest os v).all (o.cost < ·.cost) then some o else cheapest os v := by
  rw [cheapest, List.foldl_append]
  rfl

/-- The cheapest offer is an offer to the vertex, and no other one is cheaper. -/
theorem cheapest_spec (os : List (Offer V)) (v : V) :
    (∀ o, cheapest os v = some o → o ∈ os ∧ o.vertex = v) ∧
      ∀ o ∈ os, o.vertex = v → ∃ best, cheapest os v = some best ∧ best.cost ≤ o.cost := by
  induction os using List.reverseRecOn with
  | nil => exact ⟨fun _ h => (nomatch h), fun _ h => nomatch h⟩
  | append_singleton os o ih =>
    rw [cheapest_concat]
    split
    next h =>
      refine ⟨fun best hbest => ?_, fun o' ho' hv => ⟨o, rfl, ?_⟩⟩
      · cases hbest
        exact ⟨List.mem_append_right _ (List.mem_singleton_self o), h.1⟩
      · rcases List.mem_append.mp ho' with ho' | ho'
        · obtain ⟨best, hbest, hle⟩ := ih.2 o' ho' hv
          rw [hbest, Option.all_some, decide_eq_true_iff] at h
          exact (Nat.le_of_lt h.2).trans hle
        · rw [List.mem_singleton.mp ho']
    next h =>
      refine ⟨fun best hbest => ?_, fun o' ho' hv => ?_⟩
      · obtain ⟨hmem, hvertex⟩ := ih.1 best hbest
        exact ⟨List.mem_append_left _ hmem, hvertex⟩
      · rcases List.mem_append.mp ho' with ho' | ho'
        · exact ih.2 o' ho' hv
        · obtain rfl := List.mem_singleton.mp ho'
          cases hbest : cheapest os v with
          | none =>
            rw [hbest] at h
            exact absurd ⟨hv, rfl⟩ h
          | some best =>
            rw [hbest, Option.all_some, decide_eq_true_iff] at h
            exact ⟨best, rfl, Nat.le_of_not_lt fun hlt => h ⟨hv, hlt⟩⟩

variable {os : List (Offer V)}

theorem mem_of_cheapest (h : cheapest os v = some o) : o ∈ os :=
  ((cheapest_spec os v).1 o h).1

theorem vertex_of_cheapest (h : cheapest os v = some o) : o.vertex = v :=
  ((cheapest_spec os v).1 o h).2

theorem cheapest_le {best : Offer V} (h : cheapest os v = some best) (ho : o ∈ os)
    (hv : o.vertex = v) : best.cost ≤ o.cost := by
  obtain ⟨best', hbest', hle⟩ := (cheapest_spec os v).2 o ho hv
  cases h.symm.trans hbest'
  exact hle

/-- An offer that is not cheaper changes nothing. -/
theorem cheapest_concat_of_le {best : Offer V} (h : cheapest os v = some best)
    (hle : best.cost ≤ o.cost) :
    cheapest (os ++ [o]) v = some best := by
  rw [cheapest_concat, if_neg, h]
  rw [h, Option.all_some, decide_eq_true_iff]
  exact fun hlt => Nat.not_lt_of_le hle hlt.2

theorem cheapest_concat_of_ne (h : o.vertex ≠ v) : cheapest (os ++ [o]) v = cheapest os v := by
  rw [cheapest_concat, if_neg fun hlt => h hlt.1]

/-- A cheaper offer takes the place of the cheapest one. -/
theorem cheapest_concat_of_lt (h : ∀ best, cheapest os o.vertex = some best → o.cost < best.cost) :
    cheapest (os ++ [o]) o.vertex = some o := by
  rw [cheapest_concat, if_pos]
  refine ⟨rfl, ?_⟩
  cases hbest : cheapest os o.vertex with
  | none => rfl
  | some best => exact decide_eq_true (h best hbest)

theorem exists_cheapest (ho : o ∈ os) :
    ∃ best, cheapest os o.vertex = some best ∧ best.cost ≤ o.cost :=
  (cheapest_spec os o.vertex).2 o ho rfl

/-! ### Offers -/

theorem mem_offersOf {s : Offer V} : o ∈ offersOf edges hops s ↔
    s.path.length ≤ hops ∧ ∃ edge ∈ edges s.vertex, edge.1 ∉ s.path ∧
      ⟨s.path ++ [edge.1], edge.1, s.cost + edge.2⟩ = o := by
  unfold offersOf
  split
  next h =>
    rw [List.mem_map, and_iff_right h]
    refine exists_congr fun edge => ?_
    rw [List.mem_filter, decide_eq_true_iff, and_assoc]
  next h => exact iff_of_false (List.not_mem_nil) fun hno => h hno.1

theorem cost_le_of_mem_offersOf {s : Offer V} (h : o ∈ offersOf edges hops s) :
    s.cost ≤ o.cost := by
  obtain ⟨_, edge, _, _, rfl⟩ := mem_offersOf.mp h
  exact Nat.le_add_right ..

theorem offers_concat (order : List (Offer V)) (o : Offer V) :
    offers edges hops start (order ++ [o])
      = offers edges hops start order ++ offersOf edges hops o := by
  rw [offers, List.flatMap_append, List.flatMap_singleton]
  rfl

theorem mem_offers : o ∈ offers edges hops start order ↔
    o = ⟨[start], start, 0⟩ ∨ ∃ s ∈ order, o ∈ offersOf edges hops s := by
  rw [offers, List.mem_cons, List.mem_flatMap]

omit [DecidableEq V] in
theorem settled_concat : Settled (order ++ [o]) v ↔ Settled order v ∨ o.vertex = v := by
  constructor
  · intro ⟨s, hs, hv⟩
    rcases List.mem_append.mp hs with hs | hs
    · exact Or.inl ⟨s, hs, hv⟩
    · exact Or.inr (List.mem_singleton.mp hs ▸ hv)
  · rintro (⟨s, hs, hv⟩ | hv)
    · exact ⟨s, List.mem_append_left _ hs, hv⟩
    · exact ⟨o, List.mem_append_right _ (List.mem_singleton_self o), hv⟩

/-- What the orders are like in which vertices are settled. -/
structure Ordered (edges : V → List (V × Nat)) (hops : Nat) (start goal : V)
    (order : List (Offer V)) : Prop where
  offered : ∀ s ∈ order, s ∈ offers edges hops start order
  notGoal : ∀ s ∈ order, s.vertex ≠ goal
  least : ∀ s ∈ order, ∀ o ∈ offers edges hops start order, o.vertex = s.vertex → s.cost ≤ o.cost
  /-- What is offered later is not cheaper. -/
  early : ∀ s ∈ order, ∀ o ∈ offers edges hops start order, ¬ Settled order o.vertex →
    o.vertex ≠ goal → s.cost ≤ o.cost
  /-- A path goes through settled vertices. -/
  along : ∀ o ∈ offers edges hops start order, ∀ v ∈ o.path,
    v = o.vertex ∨ ∃ s ∈ order, s.vertex = v ∧ s.cost ≤ o.cost

/-- An order goes on with a cheapest open offer. -/
theorem Ordered.next (h : Ordered edges hops start goal order)
    (hnext : Next edges hops start goal order o) :
    Ordered edges hops start goal (order ++ [o]) := by
  have ho : o ∈ offers edges hops start order := mem_of_cheapest hnext.isCheapest
  have hle : ∀ s ∈ order ++ [o], s.cost ≤ o.cost := by
    intro s hs
    rcases List.mem_append.mp hs with hs | hs
    · exact h.early s hs o ho hnext.fresh hnext.notGoal
    · rw [List.mem_singleton.mp hs]
  -- what is offered from now on costs no less than what is settled
  have hlater : ∀ s ∈ order ++ [o], ∀ o' ∈ offersOf edges hops o, s.cost ≤ o'.cost :=
    fun s hs o' ho' => (hle s hs).trans (cost_le_of_mem_offersOf ho')
  have hmem : ∀ o', o' ∈ offers edges hops start (order ++ [o]) ↔
      o' ∈ offers edges hops start order ∨ o' ∈ offersOf edges hops o := by
    intro o'
    rw [offers_concat, List.mem_append]
  constructor
  case offered =>
    intro s hs
    rw [hmem]
    rcases List.mem_append.mp hs with hs | hs
    · exact Or.inl (h.offered s hs)
    · exact Or.inl (List.mem_singleton.mp hs ▸ ho)
  case notGoal =>
    intro s hs
    rcases List.mem_append.mp hs with hs | hs
    · exact h.notGoal s hs
    · exact List.mem_singleton.mp hs ▸ hnext.notGoal
  -- the cheapest offers so far stay the cheapest, since new ones come later
  case least =>
    intro s hs o' ho' hv
    rcases (hmem o').mp ho' with ho' | ho'
    · rcases List.mem_append.mp hs with hs | hs
      · exact h.least s hs o' ho' hv
      · rw [List.mem_singleton.mp hs] at hv ⊢
        exact cheapest_le hnext.isCheapest ho' hv
    · exact hlater s hs o' ho'
  case early =>
    intro s hs o' ho' hno hgoal
    rcases (hmem o').mp ho' with ho' | ho'
    · have hno' : ¬ Settled order o'.vertex :=
        fun hsettled => hno (settled_concat.mpr (Or.inl hsettled))
      exact (hle s hs).trans (hnext.first o' ho' hno' hgoal)
    · exact hlater s hs o' ho'
  -- a path goes along settled vertices: its last step was offered by one
  case along =>
    intro o' ho' v hv
    rcases (hmem o').mp ho' with ho' | ho'
    · rcases h.along o' ho' v hv with heq | ⟨s, hs, hsv⟩
      · exact Or.inl heq
      · exact Or.inr ⟨s, List.mem_append_left _ hs, hsv⟩
    · obtain ⟨_, edge, _, _, rfl⟩ := mem_offersOf.mp ho'
      rcases List.mem_append.mp hv with hv | hv
      · rcases h.along o ho v hv with rfl | ⟨s, hs, hsv, hcost⟩
        · exact Or.inr ⟨o, List.mem_append_right _ (List.mem_singleton_self o), rfl,
            Nat.le_add_right ..⟩
        · exact Or.inr ⟨s, List.mem_append_left _ hs, hsv, hcost.trans (Nat.le_add_right ..)⟩
      · exact Or.inl (List.mem_singleton.mp hv)

theorem Settles.ordered (h : Settles edges hops start goal order) :
    Ordered edges hops start goal order := by
  induction h with
  | nil =>
    refine ⟨nofun, nofun, nofun, nofun, fun o ho v hv => Or.inl ?_⟩
    obtain rfl := List.mem_singleton.mp ho
    exact List.mem_singleton.mp hv
  | next _ hnext ih => exact ih.next hnext

/-- An offer is a walk without repetitions, and it is not too long. -/
theorem Settles.offer (h : Settles edges hops start goal order) :
    ∀ o ∈ offers edges hops start order,
      Leads edges start o.path o.vertex o.cost ∧ o.path.Nodup ∧ o.path.length ≤ hops + 1 := by
  induction h with
  | nil =>
    intro o ho
    obtain rfl := List.mem_singleton.mp ho
    exact ⟨.start, List.nodup_singleton start, Nat.le_add_left ..⟩
  | @next order s _ hnext ih =>
    intro o ho
    rw [offers_concat] at ho
    rcases List.mem_append.mp ho with ho | ho
    · exact ih o ho
    · obtain ⟨hwalk, hnodup, _⟩ := ih s (mem_of_cheapest hnext.isCheapest)
      obtain ⟨hshort, edge, hedge, hnew, rfl⟩ := mem_offersOf.mp ho
      refine ⟨.step hwalk hedge, List.concat_eq_append ▸ hnodup.concat hnew, ?_⟩
      rw [List.length_append, List.length_singleton]
      omega

/-- The orders are built up one by one. -/
theorem Settles.split {rest : List (Offer V)} :
    Settles edges hops start goal (order ++ rest) → Settles edges hops start goal order := by
  induction rest using List.reverseRecOn with
  | nil => exact fun h => List.append_nil order ▸ h
  | append_singleton rest last ih =>
    intro h
    rw [← List.append_assoc] at h
    generalize hall : order ++ rest ++ [last] = all at h
    cases h with
    | nil => cases List.append_ne_nil_of_right_ne_nil _ (List.cons_ne_nil _ _) hall
    | next h _ =>
      obtain ⟨rfl, _⟩ := List.append_inj' hall rfl
      exact ih h

/-- Each offer of such an order was next in its turn. -/
theorem Settles.next_of_append {rest : List (Offer V)}
    (h : Settles edges hops start goal (order ++ o :: rest)) :
    Next edges hops start goal order o := by
  rw [← List.singleton_append, ← List.append_assoc] at h
  generalize hall : order ++ [o] = all at h
  have h := h.split
  cases h with
  | nil => cases List.append_ne_nil_of_right_ne_nil _ (List.cons_ne_nil _ _) hall
  | next _ hnext =>
    obtain ⟨rfl, heq⟩ := List.append_inj' hall rfl
    cases heq
    exact hnext

/-! ### Walks -/

/-- All neighbours of settled vertices have offers, or have been settled on the way. -/
def Unhindered (edges : V → List (V × Nat)) (hops : Nat) (order : List (Offer V)) : Prop :=
  ∀ s ∈ order, ∀ edge ∈ edges s.vertex, s.path.length ≤ hops ∨ edge.1 ∈ s.path

/-- What is settled and what is offered bounds the weights of walks from below. -/
theorem le_of_leads (h : Ordered edges hops start goal order)
    (hopen : Unhindered edges hops order) {bound : Nat} (hsettled : ∀ s ∈ order, s.cost ≤ bound)
    (hoffers : ∀ o ∈ offers edges hops start order, ¬ Settled order o.vertex → bound ≤ o.cost)
    {path : List V} {weight : Nat} (hwalk : Leads edges start path v weight) :
    (∃ s ∈ order, s.vertex = v ∧ s.cost ≤ weight) ∨ ¬ Settled order v ∧ bound ≤ weight := by
  -- What is offered is no more than the walk.
  have hoffer : ∀ o ∈ offers edges hops start order, ∀ {weight : Nat}, o.cost ≤ weight →
      (∃ s ∈ order, s.vertex = o.vertex ∧ s.cost ≤ weight) ∨
        ¬ Settled order o.vertex ∧ bound ≤ weight := by
    intro o ho weight hle
    by_cases hv : Settled order o.vertex
    · obtain ⟨s, hs, hsv⟩ := hv
      exact Or.inl ⟨s, hs, hsv, (h.least s hs o ho hsv.symm).trans hle⟩
    · exact Or.inr ⟨hv, (hoffers o ho hv).trans hle⟩
  induction hwalk with
  | start => exact hoffer ⟨[start], start, 0⟩ (mem_offers.mpr (Or.inl rfl)) le_rfl
  | @step path u v cost weight _ hedge ih =>
    rcases ih with ⟨s, hs, rfl, hle⟩ | ⟨_, hle⟩
    · by_cases hv : v ∈ s.path
      · rcases h.along s (h.offered s hs) v hv with rfl | ⟨s', hs', hsv, hcost⟩
        · exact Or.inl ⟨s, hs, rfl, hle.trans (Nat.le_add_right ..)⟩
        · exact Or.inl ⟨s', hs', hsv, (hcost.trans hle).trans (Nat.le_add_right ..)⟩
      · have hshort := (hopen s hs _ hedge).resolve_right hv
        exact hoffer ⟨s.path ++ [v], v, s.cost + weight⟩
          (mem_offers.mpr (Or.inr ⟨s, hs, mem_offersOf.mpr ⟨hshort, _, hedge, hv, rfl⟩⟩))
          (Nat.add_le_add_right hle weight)
    · by_cases hv : Settled order v
      · obtain ⟨s, hs, hsv⟩ := hv
        exact Or.inl ⟨s, hs, hsv, (hsettled s hs).trans (hle.trans (Nat.le_add_right ..))⟩
      · exact Or.inr ⟨hv, hle.trans (Nat.le_add_right ..)⟩

/-- If all offers have been settled, a walk leads to settled vertices only. -/
theorem settled_of_leads (hopen : Unhindered edges hops order)
    (hall : ∀ o ∈ offers edges hops start order, Settled order o.vertex)
    (halong : Ordered edges hops start goal order) {path : List V} {weight : Nat}
    (hwalk : Leads edges start path v weight) : Settled order v := by
  induction hwalk with
  | start => exact hall ⟨[start], start, 0⟩ (mem_offers.mpr (Or.inl rfl))
  | @step path u v cost weight _ hedge ih =>
    obtain ⟨s, hs, rfl⟩ := ih
    by_cases hv : v ∈ s.path
    · rcases halong.along s (halong.offered s hs) v hv with rfl | ⟨s', hs', hsv, _⟩
      · exact ⟨s, hs, rfl⟩
      · exact ⟨s', hs', hsv⟩
    · have hshort := (hopen s hs _ hedge).resolve_right hv
      exact hall ⟨s.path ++ [v], v, s.cost + weight⟩
        (mem_offers.mpr (Or.inr ⟨s, hs, mem_offersOf.mpr ⟨hshort, _, hedge, hv, rfl⟩⟩))

end InterBit.Lib
