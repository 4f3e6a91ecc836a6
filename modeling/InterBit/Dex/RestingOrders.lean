import InterBit.Dex.OrderBook

/-!
# What rests in the book

The orders of a side, without their levels: a new order is one more, a cancellation takes out what
has its price and its id, and matching moves the ids that it reports as filled out of the book.
Matching changes nothing of an order but its amount.
-/

namespace InterBit.Dex.OrderBook

/-- The orders of a side. -/
def resting (levels : Levels) : List Order := levels.flatMap (·.2)

/-- The ids of the orders of a side. -/
def restingIds (levels : Levels) : List H256 := (resting levels).map (·.id)

/-- Each order of a side is on its side and in the queue of its price. -/
def WellPlaced (side : OrderSide) (levels : Levels) : Prop :=
  ∀ level ∈ levels, ∀ order ∈ level.2, order.price = level.1 ∧ order.side = side

theorem resting_cons (price : U256) (queue : List Order) (levels : Levels) :
    resting ((price, queue) :: levels) = queue ++ resting levels := rfl

/-- Their ids do, too. -/
theorem restingIds_cons (price : U256) (queue : List Order) (levels : Levels) :
    restingIds ((price, queue) :: levels) = queue.map (·.id) ++ restingIds levels :=
  List.map_append

variable {levels : Levels} {side : OrderSide} {order : Order} {P : Order → Prop} {book : OrderBook}
  {orderId : H256}

theorem wellPlaced_cons {price : U256} {queue : List Order} :
    WellPlaced side ((price, queue) :: levels) ↔
      (∀ order ∈ queue, order.price = price ∧ order.side = side) ∧ WellPlaced side levels :=
  List.forall_mem_cons

/-! ## New orders -/

/-- A pushed order is one more. -/
theorem resting_pushBack (order : Order) (levels : Levels) :
    (resting (pushBack order levels)).Perm (order :: resting levels) := by
  induction levels with
  | nil => exact .refl _
  | cons level levels ih =>
    obtain ⟨price, queue⟩ := level
    unfold pushBack
    split
    next => exact .refl _
    next =>
      split
      next =>
        rw [resting_cons, resting_cons, List.append_assoc]
        exact List.perm_middle
      next =>
        rw [resting_cons, resting_cons]
        exact (ih.append_left queue).trans List.perm_middle

/-- An order is pushed to the queue of its own price. -/
theorem WellPlaced.pushBack (h : WellPlaced order.side levels) :
    WellPlaced order.side (OrderBook.pushBack order levels) := by
  have halone : ∀ price, order.price = price → ∀ o ∈ [order], o.price = price ∧ o.side = order.side := by
    intro price hprice o ho
    rw [List.mem_singleton.mp ho]
    exact ⟨hprice, rfl⟩
  induction levels with
  | nil => exact wellPlaced_cons.mpr ⟨halone _ rfl, h⟩
  | cons level levels ih =>
    obtain ⟨price, queue⟩ := level
    obtain ⟨hqueue, hlevels⟩ := wellPlaced_cons.mp h
    unfold OrderBook.pushBack
    split
    next => exact wellPlaced_cons.mpr ⟨halone _ rfl, h⟩
    next =>
      split
      next hprice =>
        refine wellPlaced_cons.mpr ⟨fun o ho => ?_, hlevels⟩
        obtain ho | ho := List.mem_append.mp ho
        · exact hqueue o ho
        · exact halone price hprice o ho
      next => exact wellPlaced_cons.mpr ⟨hqueue, ih hlevels⟩

/-! ## Cancellations -/

/-- An order that a cancellation of an id at a price takes out. -/
def Hit (price : U256) (orderId : H256) (order : Order) : Prop :=
  order.price = price ∧ order.id = orderId

instance (price : U256) (orderId : H256) (order : Order) : Decidable (Hit price orderId order) :=
  inferInstanceAs (Decidable (_ ∧ _))

theorem retain_cons (price : U256) (orderId : H256) (price' : U256) (queue : List Order)
    (levels : Levels) :
    retain price orderId ((price', queue) :: levels) =
      if price' = price then
        let queue := queue.filter fun order => order.id ≠ orderId
        if queue = [] then retain price orderId levels
        else (price, queue) :: retain price orderId levels
      else (price', queue) :: retain price orderId levels := by
  unfold retain
  rw [List.filterMap_cons]
  dsimp only
  by_cases hprice : price' = price
  · rw [if_pos hprice, if_pos hprice]
    by_cases hempty : (queue.filter fun order => order.id ≠ orderId) = []
    · rw [if_pos hempty, if_pos hempty]
    · rw [if_neg hempty, if_neg hempty]
  · rw [if_neg hprice, if_neg hprice]

/-- What is retained are the orders that are not hit. -/
theorem resting_retain (h : WellPlaced side levels) (price : U256) (orderId : H256) :
    resting (retain price orderId levels)
      = (resting levels).filter fun order => ¬ Hit price orderId order := by
  induction levels with
  | nil => rfl
  | cons level levels ih =>
    obtain ⟨price', queue⟩ := level
    obtain ⟨hqueue, hlevels⟩ := wellPlaced_cons.mp h
    rw [resting_cons, List.filter_append, ← ih hlevels, retain_cons]
    by_cases hprice : price' = price
    · have hfilter : queue.filter (fun order => ¬ Hit price orderId order)
          = queue.filter fun order => order.id ≠ orderId := by
        refine List.filter_congr fun order ho => ?_
        simp [Hit, (hqueue order ho).1, hprice]
      rw [if_pos hprice, hfilter]
      dsimp only
      split
      next hempty =>
        rw [hempty]
        rfl
      next => rfl
    · have hfilter : queue.filter (fun order => ¬ Hit price orderId order) = queue := by
        refine List.filter_eq_self.mpr fun order ho => ?_
        simp [Hit, (hqueue order ho).1, hprice]
      rw [if_neg hprice, hfilter]
      rfl

/-- To filter a queue leaves the orders where they are. -/
theorem WellPlaced.retain (h : WellPlaced side levels) (price : U256) (orderId : H256) :
    WellPlaced side (OrderBook.retain price orderId levels) := by
  intro level hlevel
  obtain ⟨level', hlevel', hsome⟩ := List.mem_filterMap.mp hlevel
  have hplaced := h level' hlevel'
  split at hsome
  next hprice =>
    dsimp only at hsome
    split at hsome
    next => cases hsome
    next =>
      obtain rfl := Option.some.inj hsome
      exact fun order ho => hprice ▸ hplaced order (List.mem_filter.mp ho).1
  next =>
    obtain rfl := Option.some.inj hsome
    exact hplaced

/-! ## Matching -/

/-- An order of the queue is either filled or left. -/
theorem fillQueue_ids (taker : Order) (price : U256) (queue : List Order) (remaining : U256) :
    queue.map (·.id) = (fillQueue taker price queue remaining).filled
      ++ (fillQueue taker price queue remaining).left.map (·.id) := by
  induction queue generalizing remaining with
  | nil => rfl
  | cons maker queue ih =>
    unfold fillQueue
    split
    next => rfl
    next =>
      dsimp only
      split
      next =>
        rw [List.map_cons, ih]
        rfl
      next => rfl

/-- An order of a side is either filled or left. -/
theorem fillLevels_ids (side : OrderSide) (taker : Order) (levels : Levels) (remaining : U256) :
    (restingIds levels).Perm ((fillLevels side taker levels remaining).filled
      ++ restingIds (fillLevels side taker levels remaining).left) := by
  induction levels generalizing remaining with
  | nil => exact .refl _
  | cons level levels ih =>
    obtain ⟨price, queue⟩ := level
    unfold fillLevels
    split
    next => exact .refl _
    next =>
      dsimp only
      have hqueue := fillQueue_ids taker price queue remaining
      have hlevels := ih (fillQueue taker price queue remaining).remaining
      generalize fillQueue taker price queue remaining = here at hqueue hlevels ⊢
      generalize fillLevels side taker levels here.remaining = next at hlevels ⊢
      have hleft : restingIds (if here.left = [] then next.left else (price, here.left) :: next.left)
          = here.left.map (·.id) ++ restingIds next.left := by
        split
        next hempty => rw [hempty, List.map_nil, List.nil_append]
        next => exact restingIds_cons ..
      rw [restingIds_cons, hqueue, hleft, List.append_assoc, List.append_assoc]
      refine List.Perm.append_left here.filled ((hlevels.append_left _).trans ?_)
      rw [← List.append_assoc, ← List.append_assoc]
      exact List.perm_append_comm.append_right _

/-- What is true of every maker, whatever its amount, is true of what is left. -/
theorem fillQueue_left (hP : ∀ order amount, P order → P { order with amount }) (taker : Order)
    (price : U256) {queue : List Order} (h : ∀ order ∈ queue, P order) (remaining : U256) :
    ∀ order ∈ (fillQueue taker price queue remaining).left, P order := by
  induction queue generalizing remaining with
  | nil => exact h
  | cons maker queue ih =>
    obtain ⟨hmaker, hqueue⟩ := List.forall_mem_cons.mp h
    unfold fillQueue
    split
    next => exact h
    next =>
      dsimp only
      split
      next => exact ih hqueue _
      next => exact List.forall_mem_cons.mpr ⟨hP maker _ hmaker, hqueue⟩

/-- An order that is filled in part keeps its place. -/
theorem WellPlaced.fillLevels (h : WellPlaced side levels) (side' : OrderSide) (taker : Order)
    (remaining : U256) :
    WellPlaced side (OrderBook.fillLevels side' taker levels remaining).left := by
  induction levels generalizing remaining with
  | nil => exact h
  | cons level levels ih =>
    obtain ⟨price, queue⟩ := level
    obtain ⟨hqueue, hlevels⟩ := wellPlaced_cons.mp h
    unfold OrderBook.fillLevels
    split
    next => exact h
    next =>
      dsimp only
      split
      next => exact ih hlevels _
      next =>
        refine wellPlaced_cons.mpr ⟨?_, ih hlevels _⟩
        exact fillQueue_left (fun _ _ => id) taker price hqueue remaining

theorem fillLevels_left (hP : ∀ order amount, P order → P { order with amount }) (side : OrderSide)
    (taker : Order) (h : ∀ order ∈ resting levels, P order) (remaining : U256) :
    ∀ order ∈ resting (fillLevels side taker levels remaining).left, P order := by
  induction levels generalizing remaining with
  | nil => exact h
  | cons level levels ih =>
    obtain ⟨price, queue⟩ := level
    rw [resting_cons] at h
    obtain ⟨hqueue, hlevels⟩ := List.forall_mem_append.mp h
    unfold fillLevels
    split
    next => exact h
    next =>
      dsimp only
      split
      next => exact ih hlevels _
      next =>
        rw [resting_cons]
        exact List.forall_mem_append.mpr
          ⟨fillQueue_left hP taker price hqueue remaining, ih hlevels _⟩

/-- Only what rests is traded. -/
theorem fillQueue_makers (taker : Order) (price : U256) (queue : List Order) (remaining : U256) :
    ∀ trade ∈ (fillQueue taker price queue remaining).trades,
      trade.makerOrderId ∈ queue.map (·.id) := by
  induction queue generalizing remaining with
  | nil => exact fun _ h => (nomatch h)
  | cons maker queue ih =>
    have hmaker : maker.id ∈ (maker :: queue).map (·.id) := List.mem_cons_self
    unfold fillQueue
    split
    next => exact fun _ h => (nomatch h)
    next =>
      dsimp only
      split
      next =>
        exact List.forall_mem_cons.mpr
          ⟨hmaker, fun trade h => List.mem_cons_of_mem _ (ih _ trade h)⟩
      next => exact List.forall_mem_cons.mpr ⟨hmaker, fun _ h => (nomatch h)⟩

/-- A trade is made with a resting order. -/
theorem fillLevels_makers (side : OrderSide) (taker : Order) (levels : Levels) (remaining : U256) :
    ∀ trade ∈ (fillLevels side taker levels remaining).trades,
      trade.makerOrderId ∈ restingIds levels := by
  induction levels generalizing remaining with
  | nil => exact fun _ h => (nomatch h)
  | cons level levels ih =>
    obtain ⟨price, queue⟩ := level
    rw [restingIds_cons]
    unfold fillLevels
    split
    next => exact fun _ h => (nomatch h)
    next =>
      refine List.forall_mem_append.mpr ⟨fun trade h => ?_, fun trade h => ?_⟩
      · exact List.mem_append_left _ (fillQueue_makers taker price queue remaining trade h)
      · exact List.mem_append_right _ (ih _ trade h)

/-! ## Both sides together -/

/-- The orders of the book. -/
def orders (book : OrderBook) : List Order := resting book.buyOrders ++ resting book.sellOrders

/-- How many orders of an id rest in the book. -/
def restingCount (book : OrderBook) (orderId : H256) : Nat :=
  (book.orders.map (·.id)).count orderId

theorem restingCount_eq_zero :
    book.restingCount orderId = 0 ↔ ∀ order ∈ book.orders, order.id ≠ orderId := by
  rw [restingCount, List.count_eq_zero, List.mem_map]
  exact ⟨fun h order hmem hid => h ⟨order, hmem, hid⟩, fun h ⟨order, hmem, hid⟩ => h order hmem hid⟩

/-- Each order is on its side and in the queue of its price. -/
def Placed (book : OrderBook) : Prop := ∀ side, WellPlaced side (book.levels side)

@[simp] theorem levels_setLevels_self (book : OrderBook) (side : OrderSide) (levels : Levels) :
    (book.setLevels side levels).levels side = levels := by
  cases side <;> rfl

/-- The other side stays. -/
theorem levels_setLevels_of_ne (book : OrderBook) {side other : OrderSide} (levels : Levels)
    (h : other ≠ side) : (book.setLevels side levels).levels other = book.levels other := by
  cases side <;> cases other <;> first | rfl | exact absurd rfl h

theorem orders_perm (book : OrderBook) (side : OrderSide) :
    book.orders.Perm (resting (book.levels side) ++ resting (book.levels side.other)) := by
  cases side with
  | buy => exact .refl _
  | sell => exact List.perm_append_comm

/-- The orders after a change of one side. -/
theorem orders_setLevels_perm (book : OrderBook) (side : OrderSide) (levels : Levels) :
    (book.setLevels side levels).orders.Perm (resting levels ++ resting (book.levels side.other)) := by
  cases side with
  | buy => exact .refl _
  | sell => exact List.perm_append_comm

theorem mem_orders : order ∈ book.orders ↔ ∃ side, order ∈ resting (book.levels side) := by
  constructor
  · intro h
    obtain h | h := List.mem_append.mp h
    · exact ⟨.buy, h⟩
    · exact ⟨.sell, h⟩
  · rintro ⟨side, h⟩
    cases side with
    | buy => exact List.mem_append_left _ h
    | sell => exact List.mem_append_right _ h

theorem restingCount_setLevels (book : OrderBook) (side : OrderSide) (levels : Levels)
    (orderId : H256) :
    (book.setLevels side levels).restingCount orderId = (restingIds levels).count orderId
      + (restingIds (book.levels side.other)).count orderId := by
  rw [restingCount, ((orders_setLevels_perm book side levels).map _).count_eq, List.map_append,
    List.count_append, restingIds, restingIds]

theorem restingCount_eq (book : OrderBook) (side : OrderSide) (orderId : H256) :
    book.restingCount orderId = (restingIds (book.levels side)).count orderId
      + (restingIds (book.levels side.other)).count orderId := by
  rw [restingCount, ((orders_perm book side).map _).count_eq, List.map_append,
    List.count_append, restingIds, restingIds]

theorem Placed.setLevels (h : book.Placed) (hlevels : WellPlaced side levels) :
    (book.setLevels side levels).Placed := by
  intro other
  by_cases heq : other = side
  · rw [heq, levels_setLevels_self]
    exact hlevels
  · rw [levels_setLevels_of_ne book levels heq]
    exact h other

theorem Placed.side_eq (h : book.Placed) (horder : order ∈ resting (book.levels side)) :
    order.side = side := by
  obtain ⟨level, hlevel, horder⟩ := List.mem_flatMap.mp horder
  exact (h side level hlevel order horder).2

/-! ### The changes of the book -/

theorem Placed.place {book : OrderBook} (h : book.Placed) (order : Order) :
    (book.place order).Placed := h.setLevels (h order.side).pushBack

theorem restingCount_place (book : OrderBook) (order : Order) (orderId : H256) :
    (book.place order).restingCount orderId
      = book.restingCount orderId + if order.id = orderId then 1 else 0 := by
  rw [place, restingCount_setLevels, restingCount_eq book order.side, restingIds,
    ((resting_pushBack order _).map _).count_eq, List.map_cons, List.count_cons]
  simp only [restingIds, beq_iff_eq]
  omega

/-- The second half of `add_order` adds one order. -/
theorem mem_orders_place {order order' : Order} (h : order' ∈ (book.place order).orders) :
    order' = order ∨ order' ∈ book.orders := by
  have h := (orders_setLevels_perm book order.side _).mem_iff.mp h
  obtain h | h := List.mem_append.mp h
  · obtain h | h := List.mem_cons.mp ((resting_pushBack order _).mem_iff.mp h)
    · exact Or.inl h
    · exact Or.inr (mem_orders.mpr ⟨_, h⟩)
  · exact Or.inr (mem_orders.mpr ⟨_, h⟩)

theorem Placed.displace {book : OrderBook} (h : book.Placed) (order : Order) (orderId : H256) :
    (book.displace order orderId).Placed := h.setLevels ((h order.side).retain _ _)

theorem mem_orders_displace (h : book.Placed) {order order' : Order}
    (hmem : order' ∈ (book.displace order orderId).orders) :
    order' ∈ book.orders := by
  have hmem := (orders_setLevels_perm book order.side _).mem_iff.mp hmem
  rw [resting_retain (h order.side)] at hmem
  obtain hmem | hmem := List.mem_append.mp hmem
  · exact mem_orders.mpr ⟨_, (List.mem_filter.mp hmem).1⟩
  · exact mem_orders.mpr ⟨_, hmem⟩

/-- A cancellation takes out every order of its id, if they are where it looks. -/
theorem displace_perm (h : book.Placed)
    (hwhere : ∀ order' ∈ book.orders, order'.id = orderId →
      order'.side = order.side ∧ order'.price = order.price) :
    (book.displace order orderId).orders.Perm
      (book.orders.filter fun order' => order'.id ≠ orderId) := by
  have hside : (resting (book.levels order.side)).filter (fun o => ¬ Hit order.price orderId o)
      = (resting (book.levels order.side)).filter fun o => o.id ≠ orderId := by
    refine List.filter_congr fun o ho => ?_
    have hprice := fun hid => (hwhere o (mem_orders.mpr ⟨_, ho⟩) hid).2
    by_cases hid : o.id = orderId
    · simp [Hit, hid, hprice hid]
    · simp [Hit, hid]
  have hother : (resting (book.levels order.side.other)).filter (fun o => o.id ≠ orderId)
      = resting (book.levels order.side.other) := by
    refine List.filter_eq_self.mpr fun o ho => decide_eq_true fun hid => ?_
    have hwrong := (h.side_eq ho).symm.trans (hwhere o (mem_orders.mpr ⟨_, ho⟩) hid).1
    cases hs : order.side <;> rw [hs] at hwrong <;> cases hwrong
  refine (orders_setLevels_perm book order.side _).trans ?_
  rw [resting_retain (h order.side), hside, ← hother, ← List.filter_append]
  exact ((orders_perm book order.side).filter _).symm

theorem restingCount_displace (h : book.Placed)
    (hwhere : ∀ order' ∈ book.orders, order'.id = orderId →
      order'.side = order.side ∧ order'.price = order.price) (id : H256) :
    (book.displace order orderId).restingCount id
      = if id = orderId then 0 else book.restingCount id := by
  have hmap : (book.orders.filter fun o => o.id ≠ orderId).map (·.id)
      = (book.orders.map (·.id)).filter fun id => id ≠ orderId := by
    rw [List.filter_map]
    rfl
  rw [restingCount, ((displace_perm h hwhere).map _).count_eq, hmap]
  split
  next hid =>
    rw [hid, List.count_eq_zero]
    exact fun hmem => absurd rfl (of_decide_eq_true (List.mem_filter.mp hmem).2)
  next hid => exact List.count_filter (decide_eq_true hid)

theorem Placed.fill {book : OrderBook} (h : book.Placed) (side : OrderSide) (taker : Order) :
    (book.setLevels side (book.fill side taker).left).Placed :=
  h.setLevels ((h side).fillLevels _ _ _)

/-- An id that is filled rests once less. -/
theorem restingCount_fill (book : OrderBook) (side : OrderSide) (taker : Order) (id : H256) :
    (book.setLevels side (book.fill side taker).left).restingCount id
      + (book.fill side taker).filled.count id = book.restingCount id := by
  have hids := (fillLevels_ids side taker (book.levels side) taker.amount).count_eq id
  rw [List.count_append] at hids
  rw [restingCount_setLevels, restingCount_eq book side, hids, fill]
  omega

/-- What is true of every order, whatever its amount, is true of what is left. -/
theorem orders_fill (hP : ∀ order amount, P order → P { order with amount })
    (h : ∀ order ∈ book.orders, P order) (side : OrderSide) (taker : Order) :
    ∀ order ∈ (book.setLevels side (book.fill side taker).left).orders, P order := by
  intro order horder
  have horder := (orders_setLevels_perm book side _).mem_iff.mp horder
  obtain horder | horder := List.mem_append.mp horder
  · exact fillLevels_left hP side taker (fun o ho => h o (mem_orders.mpr ⟨_, ho⟩)) _ order horder
  · exact h order (mem_orders.mpr ⟨_, horder⟩)

/-- A match trades only with orders that rest in the book. -/
theorem fill_makers (book : OrderBook) (side : OrderSide) (taker : Order) :
    ∀ trade ∈ (book.fill side taker).trades, 0 < book.restingCount trade.makerOrderId := by
  intro trade htrade
  have hmem := fillLevels_makers side taker (book.levels side) taker.amount trade htrade
  rw [restingCount_eq book side]
  exact Nat.add_pos_left (List.count_pos_iff.mpr hmem) _

end InterBit.Dex.OrderBook
