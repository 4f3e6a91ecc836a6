import InterBit.Dex.OrderBook

/-!
# The locks of the order book

The book comes before the index for who matches, and after it for who cancels. `Asking` says
what a call holds when it asks for a lock, and only the second lock of a cancellation goes down in
the order of the locks. So every circle of waiting calls runs through a cancellation that holds the
index, and `circular_iff_crossed` says who else is on it.
-/

namespace InterBit.Dex.OrderBook

open InterBit.Lib

variable {D : Type} (env : DexEnv D)

/-- What a call holds when it asks for a lock. -/
inductive Asking : BookCall → List (Guard BookLock) → Guard BookLock → Prop
  | addIndex {orderId : H256} {order : Order} :
      Asking (.add orderId order) [] ⟨.orderIndex, .write⟩
  | addOrders {orderId : H256} {order : Order} :
      Asking (.add orderId order) [] ⟨.orders order.side, .write⟩
  | matchOrders {taker : Order} :
      Asking (.matching taker) [] ⟨.orders taker.side.other, .write⟩
  | matchIndex {taker : Order} :
      Asking (.matching taker) [⟨.orders taker.side.other, .write⟩] ⟨.orderIndex, .write⟩
  | matchStats {taker : Order} : Asking (.matching taker) [] ⟨.stats, .write⟩
  | matchPrice {taker : Order} :
      Asking (.matching taker) [⟨.stats, .write⟩] ⟨.lastPrice, .write⟩
  | cancelIndex {orderId : H256} : Asking (.cancel orderId) [] ⟨.orderIndex, .write⟩
  | cancelOrders {orderId : H256} {side : OrderSide} :
      Asking (.cancel orderId) [⟨.orderIndex, .write⟩] ⟨.orders side, .write⟩
  | depthBuy {levels : Nat} : Asking (.depth levels) [] ⟨.orders .buy, .read⟩
  | depthSell {levels : Nat} :
      Asking (.depth levels) [⟨.orders .buy, .read⟩] ⟨.orders .sell, .read⟩
  | depthPrice {levels : Nat} :
      Asking (.depth levels) [⟨.orders .sell, .read⟩, ⟨.orders .buy, .read⟩] ⟨.lastPrice, .read⟩

/-! ## What each call takes -/

variable {P : List (Guard BookLock) → Guard BookLock → Prop} {call : BookCall}

theorem follows_addLimitOrder {order : Order} (hindex : P [] ⟨.orderIndex, .write⟩)
    (horders : P [] ⟨.orders order.side, .write⟩) :
    (addLimitOrder order).Follows P [] [] :=
  (Routine.follows_guarded hindex (Routine.follows_modify _ _)).bind fun _ =>
    Routine.follows_guarded horders (Routine.follows_modify _ _)

theorem follows_addOrder (orderId : H256) (order : Order) :
    (addOrder orderId order).Follows (Asking (.add orderId order)) [] [] := by
  unfold addOrder
  cases hkind : order.orderType with
  | limit =>
    simp only
    exact (follows_addLimitOrder .addIndex .addOrders).bind fun _ => rfl
  | iceberg visibleAmount =>
    simp only
    refine Routine.Follows.bind ?_ fun _ => rfl
    refine (Routine.follows_orPanic _ _).bind fun _ => ?_
    exact follows_addLimitOrder .addIndex .addOrders
  | market | stopLoss | takeProfit =>
    simp only
    rfl

theorem follows_unlistFilled {held : List (Guard BookLock)} (h : P held ⟨.orderIndex, .write⟩)
    (filled : List H256) :
    (unlistFilled filled).Follows P held held := by
  induction filled with
  | nil => rfl
  | cons orderId filled ih =>
    exact (Routine.follows_guarded h (Routine.follows_modify _ _)).bind fun _ => ih

/-- The loop that records the trades asks for nothing. -/
theorem follows_recordTrades (held : List (Guard BookLock)) (trades : List Trade) :
    (recordTrades env trades).Follows P held held := by
  induction trades with
  | nil => rfl
  | cons trade trades ih =>
    refine (Routine.follows_get _ _).bind fun volume => ?_
    refine (Routine.follows_orPanic _ _).bind fun _ => (Routine.follows_modify _ _).bind fun _ => ?_
    refine (Routine.follows_get _ _).bind fun count => ?_
    exact (Routine.follows_orPanic _ _).bind fun _ => (Routine.follows_modify _ _).bind fun _ => ih

theorem follows_matchOrder (taker : Order) :
    (matchOrder env taker).Follows (Asking (.matching taker)) [] [] := by
  have hside : (matchSide taker.side.other taker).Follows (Asking (.matching taker)) [] [] := by
    refine Routine.follows_guarded .matchOrders ?_
    refine (Routine.follows_get _ _).bind fun filled => (Routine.follows_modify _ _).bind fun _ => ?_
    exact (follows_unlistFilled .matchIndex _).bind fun _ => rfl
  rw [matchOrder_eq]
  refine hside.bind fun trades => Routine.Follows.bind ?_ fun _ => rfl
  unfold updateStats
  split
  next => rfl
  next =>
    exact Routine.follows_guarded .matchStats
      (Routine.follows_guarded .matchPrice (follows_recordTrades env _ trades))

theorem follows_cancelOrder (orderId : H256) :
    (cancelOrder orderId).Follows (Asking (.cancel orderId)) [] [] := by
  refine Routine.follows_guarded .cancelIndex ((Routine.follows_get _ _).bind fun found => ?_)
  cases found with
  | none => rfl
  | some order =>
    refine (Routine.follows_modify _ _).bind fun _ => ?_
    exact (Routine.follows_guarded .cancelOrders (Routine.follows_modify _ _)).bind fun _ => rfl

theorem follows_getDepth (levels : Nat) :
    (getDepth levels).Follows (Asking (.depth levels)) [] [] := by
  refine Routine.follows_guarded .depthBuy (Routine.follows_guarded .depthSell ?_)
  refine (Routine.follows_state _).bind fun book => (Routine.follows_orPanic _ _).bind fun bids => ?_
  refine (Routine.follows_orPanic _ _).bind fun asks => ?_
  exact (Routine.follows_guarded .depthPrice (Routine.follows_get _ _)).bind fun _ => rfl

/-- Every call asks for guards as `Asking` says. -/
theorem follows_routine (call : BookCall) : (call.routine env).Follows (Asking call) [] [] := by
  cases call with
  | add orderId order => exact (follows_addOrder orderId order).bind fun _ => rfl
  | matching taker => exact (follows_matchOrder env taker).bind fun _ => rfl
  | cancel orderId => exact (follows_cancelOrder orderId).bind fun _ => rfl
  | depth levels => exact (follows_getDepth levels).bind fun _ => rfl

/-! ## The order of the locks -/

/-- The order in which the calls take the locks, but for a cancellation. -/
def rank : BookLock → Nat
  | .orders .buy => 0
  | .orders .sell => 1
  | .orderIndex => 2
  | .stats => 3
  | .lastPrice => 4

/-- No call asks for a lock that it holds. -/
theorem Asking.harmless {held : List (Guard BookLock)} {asked : Guard BookLock}
    (h : Asking call held asked) : Harmless held asked := by
  cases h with
  | addIndex | addOrders | matchOrders | matchStats | cancelIndex | depthBuy => exact harmless_nil
  | matchIndex | matchPrice | cancelOrders | depthSell =>
    exact List.forall_mem_singleton.mpr fun heq => nomatch heq
  | depthPrice =>
    intro own hown
    rcases List.mem_cons.mp hown with rfl | hown
    · exact fun heq => nomatch heq
    · rw [List.mem_singleton.mp hown]
      exact fun heq => nomatch heq

/-- Only a cancellation goes down. -/
theorem Asking.climbs {held : List (Guard BookLock)} {asked : Guard BookLock}
    (h : Asking call held asked) {guard : Guard BookLock} (hguard : guard ∈ held) :
    rank guard.lock < rank asked.lock ∨
      ∃ orderId side, call = .cancel orderId ∧ guard = ⟨.orderIndex, .write⟩ ∧
        asked = ⟨.orders side, .write⟩ := by
  cases h with
  | addIndex | addOrders | matchOrders | matchStats | cancelIndex | depthBuy => cases hguard
  | @matchIndex taker =>
    rw [List.mem_singleton.mp hguard]
    cases taker.side <;> exact Or.inl (by decide)
  | matchPrice | depthSell =>
    rw [List.mem_singleton.mp hguard]
    exact Or.inl (by decide)
  | cancelOrders => exact Or.inr ⟨_, _, rfl, List.mem_singleton.mp hguard, rfl⟩
  | depthPrice =>
    obtain rfl | hguard := List.mem_cons.mp hguard
    · exact Or.inl (by decide)
    · rw [List.mem_singleton.mp hguard]
      exact Or.inl (by decide)

/-- Who holds a side of the book and asks for more is a match, or a query of the depth. -/
theorem Asking.holds_orders {held : List (Guard BookLock)} {asked guard : Guard BookLock}
    (h : Asking call held asked) (hguard : guard ∈ held) {side : OrderSide}
    (hlock : guard.lock = .orders side) :
    (∃ taker, call = .matching taker ∧ guard = ⟨.orders side, .write⟩ ∧
        asked = ⟨.orderIndex, .write⟩) ∨
      ∃ levels, call = .depth levels ∧
        ((side = .buy ∧ guard = ⟨.orders .buy, .read⟩ ∧ asked = ⟨.orders .sell, .read⟩) ∨
          asked = ⟨.lastPrice, .read⟩) := by
  cases h with
  | addIndex | addOrders | matchOrders | matchStats | cancelIndex | depthBuy => cases hguard
  | matchIndex =>
    obtain rfl := List.mem_singleton.mp hguard
    exact Or.inl ⟨_, rfl, congrArg (Guard.mk · .write) hlock, rfl⟩
  | matchPrice | cancelOrders =>
    obtain rfl := List.mem_singleton.mp hguard
    cases hlock
  | depthSell =>
    obtain rfl := List.mem_singleton.mp hguard
    exact Or.inr ⟨_, rfl, Or.inl ⟨(BookLock.orders.inj hlock).symm, rfl, rfl⟩⟩
  | depthPrice => exact Or.inr ⟨_, rfl, Or.inr rfl⟩

/-- Who holds the last price asks for no more. -/
theorem Asking.lock_ne_lastPrice {held : List (Guard BookLock)} {asked guard : Guard BookLock}
    (h : Asking call held asked) (hguard : guard ∈ held) :
    guard.lock ≠ .lastPrice := by
  intro hlock
  cases h with
  | addIndex | addOrders | matchOrders | matchStats | cancelIndex | depthBuy => cases hguard
  | matchIndex | matchPrice | cancelOrders | depthSell =>
    obtain rfl := List.mem_singleton.mp hguard
    cases hlock
  | depthPrice =>
    obtain rfl | hguard := List.mem_cons.mp hguard
    · cases hlock
    · obtain rfl := List.mem_singleton.mp hguard
      cases hlock

/-! ## Circles -/

section Circles

variable {ι : Type} [DecidableEq ι]

/-- Calls on the book, with what is left of them. -/
abbrev Calls (ι : Type) := Config ι BookLock OrderBook BookAnswer

/-- A call holds a guard and asks for another. -/
def Stuck (c : Calls ι) (i : ι) (guard asked : Guard BookLock) : Prop :=
  guard ∈ c.held i ∧ c.asks i = some asked

/-- A cancellation that holds the index asks for a side of the book, and a match that holds this
side asks for the index, or a query of the depth is between the two. -/
inductive Crossed (calls : ι → BookCall) (c : Calls ι) : Prop
  | two {i j : ι} {orderId : H256} {taker : Order} {side : OrderSide} :
      calls i = .cancel orderId → Stuck c i ⟨.orderIndex, .write⟩ ⟨.orders side, .write⟩ →
      calls j = .matching taker → Stuck c j ⟨.orders side, .write⟩ ⟨.orderIndex, .write⟩ →
      Crossed calls c
  | three {i j k : ι} {orderId : H256} {levels : Nat} {taker : Order} :
      calls i = .cancel orderId → Stuck c i ⟨.orderIndex, .write⟩ ⟨.orders .buy, .write⟩ →
      calls j = .depth levels → Stuck c j ⟨.orders .buy, .read⟩ ⟨.orders .sell, .read⟩ →
      calls k = .matching taker → Stuck c k ⟨.orders .sell, .write⟩ ⟨.orderIndex, .write⟩ →
      Crossed calls c

variable {c : Calls ι} {calls : ι → BookCall}

theorem Stuck.waits {i j : ι} {guard asked guard' asked' : Guard BookLock}
    (h : Stuck c i guard asked) (h' : Stuck c j guard' asked') (hno : ¬ guard'.Admits asked) :
    c.Waits i j :=
  Config.Stuck.waits h h' hno

/-- Calls that cross wait for each other for ever. -/
theorem Crossed.circular (h : Crossed calls c) : Config.Circular c.Waits := by
  have hside : ∀ side mode, ¬ Guard.Admits ⟨.orders side, mode⟩ ⟨BookLock.orders side, .write⟩ :=
    fun _ _ h => nomatch (h rfl).2
  cases h with
  | @two i j _ _ side _ hcancel _ hmatch =>
    have hij := hcancel.waits hmatch (hside side _)
    exact ⟨i, (Relation.TransGen.single hij).tail (hmatch.waits hcancel (by decide))⟩
  | @three i j k _ _ _ _ hcancel _ hdepth _ hmatch =>
    have hij := hcancel.waits hdepth (hside .buy _)
    have hjk := hdepth.waits hmatch (by decide)
    exact ⟨i, ((Relation.TransGen.single hij).tail hjk).tail
      (hmatch.waits hcancel (by decide))⟩

/-- The rank of the lock that a call asks for. -/
def askedRank (c : Calls ι) (i : ι) : Nat := (c.asks i).elim 0 fun asked => rank asked.lock

/-- A query of the depth that asks for the last price is on no circle. -/
theorem lastPrice_not_on_circle (hordered : c.Ordered fun i => Asking (calls i)) {i : ι}
    (h : Relation.TransGen c.MayWait i i) {asked : Guard BookLock} (hasks : c.asks i = some asked) :
    asked.lock ≠ .lastPrice := by
  intro hlock
  obtain ⟨j, asked', guard, hj, hasks', _, hguard, hlock'⟩ := hordered.next_on_circle h
  obtain rfl := Option.some.inj (hasks.symm.trans hasks')
  obtain ⟨_, asked'', _, _, _, hnext, _⟩ := hordered.next_on_circle hj
  exact hnext.lock_ne_lastPrice hguard (hlock'.trans hlock)

/-- A circle has a cancellation in it and a matching that it has met. -/
theorem crossed_of_circular (hordered : c.Ordered fun i => Asking (calls i))
    (h : Config.Circular c.MayWait) :
    Crossed calls c := by
  obtain ⟨_, hcircle⟩ := h
  -- Somewhere on the circle the rank does not go up, and that is at a cancellation.
  obtain ⟨h, i, ⟨asked, guard, hasks, hguard, hlock⟩, _, hi, hrank⟩ :=
    Config.exists_descent (askedRank c) hcircle
  have hguard : guard ∈ c.held i := Config.mem_guardsOf.mpr hguard
  obtain ⟨j, asked', guard', hj, hasks', hasking, hguard', hlock'⟩ := hordered.next_on_circle hi
  rw [askedRank, askedRank, hasks, hasks'] at hrank
  obtain hclimb | ⟨orderId, side, hcancel, rfl, rfl⟩ := hasking.climbs hguard
  · rw [hlock] at hclimb
    exact absurd hclimb (Nat.not_lt_of_le hrank)
  -- The next one holds the side that the cancellation asks for.
  obtain ⟨k, asked'', guard'', hk, hasks'', hasking', hguard'', hlock''⟩ :=
    hordered.next_on_circle hj
  obtain ⟨taker, hmatch, rfl, rfl⟩ | ⟨levels, hdepth, ⟨rfl, rfl, rfl⟩ | rfl⟩ :=
    hasking'.holds_orders hguard' hlock'
  · -- A match asks for the index, which the cancellation holds.
    exact .two hcancel ⟨hguard, hasks'⟩ hmatch ⟨hguard', hasks''⟩
  · -- A query of the depth waits for whoever holds the other side.
    obtain ⟨_, _, _, _, hasks₃, hasking'', _, _⟩ := hordered.next_on_circle hk
    obtain ⟨taker, hmatch, rfl, rfl⟩ | ⟨_, _, ⟨h, _⟩ | rfl⟩ :=
      hasking''.holds_orders hguard'' hlock''
    · exact .three hcancel ⟨hguard, hasks'⟩ hdepth ⟨hguard', hasks''⟩ hmatch ⟨hguard'', hasks₃⟩
    · cases h
    · exact absurd rfl (lastPrice_not_on_circle hordered hk hasks₃)
  · exact absurd rfl (lastPrice_not_on_circle hordered hj hasks'')

/-- The calls from the start, on some book. -/
def begin (env : DexEnv D) (calls : ι → BookCall) (book : OrderBook) : Calls ι :=
  Config.start book fun i => (calls i).routine env

/-- The call of a step does not bring a cancellation to the index while a match has a side of the
book, nor a match to a side while a cancellation has the index. -/
def Apart (calls : ι → BookCall) (c : Calls ι) (i : ι) : Prop :=
  (∀ orderId, calls i = .cancel orderId → c.asks i = some ⟨.orderIndex, .write⟩ →
      ∀ j taker side, calls j = .matching taker → ⟨.orders side, .write⟩ ∉ c.held j) ∧
    ∀ taker side, calls i = .matching taker → c.asks i = some ⟨.orders side, .write⟩ →
      ∀ j orderId, calls j = .cancel orderId → ⟨.orderIndex, .write⟩ ∉ c.held j

/-- No cancellation has the index while a match has a side of the book. -/
def Separate (calls : ι → BookCall) (c : Calls ι) : Prop :=
  ∀ i j orderId taker side, calls i = .cancel orderId → calls j = .matching taker →
    ⟨.orderIndex, .write⟩ ∈ c.held i → ⟨.orders side, .write⟩ ∉ c.held j

/-- Calls that are kept apart stay apart. -/
theorem Separate.step {calls : ι → BookCall} {c c' : Calls ι} {k : ι} {o : Unit}
    (h : Separate calls c) (hapart : Apart calls c k) (hstep : c.step k = some (c', o)) :
    Separate calls c' := by
  intro i j orderId taker side hcancel hmatch hindex hside
  obtain hindex | ⟨rfl, hasks⟩ := Config.mem_held_of_step hstep hindex
  · obtain hside | ⟨rfl, hasks⟩ := Config.mem_held_of_step hstep hside
    · exact h i j orderId taker side hcancel hmatch hindex hside
    · -- the step is of the match
      exact hapart.2 taker side hmatch hasks i orderId hcancel hindex
  · obtain hside | ⟨rfl, _⟩ := Config.mem_held_of_step hstep hside
    · -- the step is of the cancellation
      exact hapart.1 orderId hcancel hasks j taker side hmatch hside
    · exact absurd (hcancel.symm.trans hmatch) (by simp)

/-- Then they do not cross. -/
theorem Separate.not_crossed (h : Separate calls c) : ¬ Crossed calls c := by
  intro hcrossed
  cases hcrossed with
  | two hcancel hindex hmatch hside =>
    exact h _ _ _ _ _ hcancel hmatch hindex.1 hside.1
  | three hcancel hindex _ _ hmatch hside =>
    exact h _ _ _ _ _ hcancel hmatch hindex.1 hside.1

/-- Whatever the calls and however they interleave, calls wait for each other in a circle exactly if
a cancellation and a match have crossed, also if readers queue behind writers. As long as no step
brings a cancellation and a match together, there is no circle. -/
theorem circular_iff_crossed (env : DexEnv D) (calls : ι → BookCall) (book : OrderBook) :
    (∀ is c, Run Config.step (fun _ _ => True) (begin env calls book) is c →
      (Config.Circular c.Waits ↔ Crossed calls c) ∧
        (Config.Circular c.MayWait ↔ Crossed calls c)) ∧
    ∀ is c, Run Config.step (Apart calls) (begin env calls book) is c →
      ¬ Config.Circular c.Waits ∧ ¬ Config.Circular c.MayWait := by
  refine Config.circular_iff_of_ordered
    (Config.ordered_start fun i => follows_routine env (calls i)) (fun _ => crossed_of_circular)
    (fun _ => Crossed.circular) ?_ (fun _ _ _ _ => Separate.step) fun _ _ => Separate.not_crossed
  intro _ _ _ _ _ _ _ hindex
  cases hindex

end Circles

/-- The order is in the book, the cancellation has taken it out of the index and asks for the side,
and the match has filled it and asks for the index. -/
def sampleCrossing : List (Fin 3) := [0, 0, 0, 0, 0, 0, 1, 1, 1, 2, 2, 2]

theorem cancel_and_match_cross :
    ∃ c, Run Config.step (fun _ _ => True) (begin AmmPool.sampleDexEnv sampleCalls new)
        sampleCrossing c ∧ Config.Circular c.Waits := by
  have hsome : (replay Config.step (begin AmmPool.sampleDexEnv sampleCalls new)
      sampleCrossing).isSome := by decide +kernel
  refine ⟨_, run_of_replay (Option.some_get hsome).symm, ?_⟩
  refine (@Crossed.two _ _ sampleCalls _ 1 2 _ _ .sell rfl ⟨?_, ?_⟩ rfl ⟨?_, ?_⟩).circular
  all_goals decide +revert +kernel

end InterBit.Dex.OrderBook
