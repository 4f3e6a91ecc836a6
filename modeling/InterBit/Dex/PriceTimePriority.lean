import InterBit.Dex.CancelledOrders
import InterBit.Dex.OrderBookLocks
import InterBit.Lib.Allotment

/-!
# Price-time priority

What a match is meant to do, without levels and loops: the orders of a side are sorted by their
price, those that rest longer before the others, and a taker is served by the first of them whose
prices it accepts (`reference`). `fillLevels_spec` is that the two loops of `match_buy_order` and
`match_sell_order` do the same. After that `match_order` writes the statistics, and panics if the
volume or the number of the trades does not fit (`matchOrder_reference`).
-/

namespace InterBit.Dex.OrderBook

open InterBit.Lib

/-! ## The reference -/

/-- An order with the price at which it rests. -/
abbrev Offer := U256 × Order

/-- The amount of an order. -/
def Offer.size (offer : Offer) : Nat := offer.2.amount.toNat

/-- The orders of a level. -/
def atPrice (price : U256) (queue : List Order) : List Offer :=
  queue.map fun order => (price, order)

/-- The orders of a side, with their prices. -/
def offers (levels : Levels) : List Offer := levels.flatMap fun level => atPrice level.1 level.2

/-- The taker trades at this price. -/
def Acceptable (side : OrderSide) (taker : Order) (offer : Offer) : Prop :=
  ¬ (taker.orderType = .limit ∧ side.Before taker.price offer.1)

instance (side : OrderSide) (taker : Order) (offer : Offer) :
    Decidable (Acceptable side taker offer) := inferInstanceAs (Decidable (¬ _))

/-- What the orders have together that the taker trades with. -/
def liquidity (side : OrderSide) (taker : Order) (levels : Levels) : Nat :=
  supply Offer.size ((offers levels).filter (Acceptable side taker ·))

/-- A trade with an order. -/
def tradeWith (taker : Order) (share : Offer × Nat) : Trade :=
  ⟨share.1.2.id, taker.id, .ofNat 256 share.2, share.1.1⟩

/-- An order after a trade with it. -/
def reduced (share : Offer × Nat) : Offer :=
  (share.1.1, { share.1.2 with amount := .ofNat 256 (share.1.size - share.2) })

/-- The trades of a match, and what is left of the orders. -/
structure Matched where
  trades : List Trade
  left : List Offer

/-- Serve a taker that wants so much, by orders in this order. -/
def serve (side : OrderSide) (taker : Order) (demand : Nat) (queue : List Offer) : Matched :=
  let accepted := queue.takeWhile (Acceptable side taker ·)
  { trades := (given Offer.size demand accepted).map (tradeWith taker)
    left := (kept Offer.size demand accepted).map reduced
      ++ queue.dropWhile (Acceptable side taker ·) }

/-- The best price first; orders with one price stay as they are. -/
def prioritized (side : OrderSide) (queue : List Offer) : List Offer :=
  queue.insertionSort fun a b => ¬ side.Before b.1 a.1

/-- The reference. -/
def reference (side : OrderSide) (taker : Order) (queue : List Offer) : Matched :=
  serve side taker taker.amount.toNat (prioritized side queue)

/-- What a match is meant to do. -/
def expected (book : OrderBook) (taker : Order) : Matched :=
  reference taker.side.other taker (offers (book.levels taker.side.other))

/-- The prices of a side are sorted, and there is one level for each. -/
def Ranked (side : OrderSide) (levels : Levels) : Prop :=
  levels.Pairwise fun a b => side.Before a.1 b.1

instance (side : OrderSide) (levels : Levels) : Decidable (Ranked side levels) :=
  inferInstanceAs (Decidable (List.Pairwise _ _))

variable {side : OrderSide} {levels : Levels} {price : U256} {taker : Order} {queue : List Order}

theorem before_trans {a b c : U256} (h : side.Before a b) (h' : side.Before b c) :
    side.Before a c := by
  cases side with
  | buy => exact BitVec.lt_trans h' h
  | sell => exact BitVec.lt_trans h h'

theorem before_asymm {a b : U256} (h : side.Before a b) : ¬ side.Before b a := by
  cases side with
  | buy => exact BitVec.lt_asymm h
  | sell => exact BitVec.lt_asymm h

theorem offers_cons (price : U256) (queue : List Order) (levels : Levels) :
    offers ((price, queue) :: levels) = atPrice price queue ++ offers levels := rfl

/-- Who rests has the price of a level. -/
theorem mem_offers {offer : Offer} (h : offer ∈ offers levels) :
    ∃ level ∈ levels, offer.1 = level.1 ∧ offer.2 ∈ level.2 := by
  obtain ⟨level, hlevel, hoffer⟩ := List.mem_flatMap.mp h
  obtain ⟨order, horder, rfl⟩ := List.mem_map.mp hoffer
  exact ⟨level, hlevel, rfl, horder⟩

/-- The orders of sorted levels are sorted. -/
theorem Ranked.sorted (h : Ranked side levels) :
    (offers levels).Pairwise fun a b => ¬ side.Before b.1 a.1 := by
  induction levels with
  | nil => exact .nil
  | cons level levels ih =>
    obtain ⟨price, queue⟩ := level
    obtain ⟨hfirst, hrest⟩ := List.pairwise_cons.mp h
    rw [offers_cons]
    refine List.pairwise_append.mpr ⟨?_, ih hrest, fun a ha b hb => ?_⟩
    · refine List.pairwise_map.mpr (List.pairwise_of_forall fun a b hbefore => ?_)
      exact before_asymm hbefore hbefore
    · obtain ⟨order, _, rfl⟩ := List.mem_map.mp ha
      obtain ⟨level, hlevel, hprice, _⟩ := mem_offers hb
      rw [hprice]
      exact before_asymm (hfirst level hlevel)

theorem Ranked.prioritized (h : Ranked side levels) :
    prioritized side (offers levels) = offers levels := h.sorted.insertionSort_eq

/-! ## The loops -/

/-- All orders want to trade something. -/
def AllPositive (queue : List Offer) : Prop := ∀ offer ∈ queue, 0 < offer.size

theorem reduced_zero (offer : Offer) : reduced (offer, 0) = offer := by
  show (offer.1, { offer.2 with amount := .ofNat 256 offer.2.amount.toNat }) = offer
  rw [BitVec.ofNat_toNat, BitVec.setWidth_eq]

theorem toNat_ofNat_of_lt {n : Nat} (h : n < 2 ^ 256) : (BitVec.ofNat 256 n).toNat = n :=
  (BitVec.toNat_ofNat ..).trans (Nat.mod_eq_of_lt h)

theorem tradeWith_toNat (taker : Order) (price : U256) (maker : Order) (amount : U256) :
    tradeWith taker ((price, maker), amount.toNat) = ⟨maker.id, taker.id, amount, price⟩ := by
  rw [tradeWith, BitVec.ofNat_toNat, BitVec.setWidth_eq]

theorem reduced_toNat {maker : Order} {amount : U256} (h : amount.toNat < maker.amount.toNat) :
    reduced ((price, maker), amount.toNat)
      = (price, { maker with amount := maker.amount - amount }) := by
  have hamount : BitVec.ofNat 256 (maker.amount.toNat - amount.toNat) = maker.amount - amount := by
    rw [← BitVec.toNat_sub_of_le (BitVec.le_of_lt h), BitVec.ofNat_toNat, BitVec.setWidth_eq]
  exact congrArg (fun amount => (price, { maker with amount })) hamount

theorem map_reduced_zero (queue : List Offer) :
    (queue.map fun offer => (offer, 0)).map reduced = queue := by
  rw [List.map_map]
  exact List.map_id'' reduced_zero queue

/-- A taker that is served already leaves all as it is. -/
theorem serve_zero (side : OrderSide) (taker : Order) {queue : List Offer}
    (h : AllPositive queue) : serve side taker 0 queue = ⟨[], queue⟩ := by
  have haccepted : AllPositive (queue.takeWhile (Acceptable side taker ·)) :=
    fun offer hoffer => h offer ((List.takeWhile_sublist _).subset hoffer)
  rw [serve, given_zero, kept_zero haccepted, map_reduced_zero, List.takeWhile_append_dropWhile,
    List.map_nil]

/-- A taker that accepts no price leaves all as it is. -/
theorem serve_beyond (demand : Nat) {queue : List Offer}
    (h : ∀ offer ∈ queue, ¬ Acceptable side taker offer) :
    serve side taker demand queue = ⟨[], queue⟩ := by
  cases queue with
  | nil => rfl
  | cons offer queue =>
    have hfirst : ¬ decide (Acceptable side taker offer) = true :=
      fun haccept => h offer (List.mem_cons_self ..) (of_decide_eq_true haccept)
    rw [serve, List.takeWhile_cons, if_neg hfirst, List.dropWhile_cons, if_neg hfirst]
    rfl

/-- The first orders, whose price is accepted, serve the taker before the others do. -/
theorem serve_append (demand : Nat) {queue : List Offer} (rest : List Offer)
    (h : ∀ offer ∈ queue, Acceptable side taker offer) :
    serve side taker demand (queue ++ rest) =
      ⟨(given Offer.size demand queue).map (tradeWith taker)
          ++ (serve side taker (demand - supply Offer.size queue) rest).trades,
        (kept Offer.size demand queue).map reduced
          ++ (serve side taker (demand - supply Offer.size queue) rest).left⟩ := by
  have haccept : ∀ offer ∈ queue, decide (Acceptable side taker offer) = true :=
    fun offer hoffer => decide_eq_true (h offer hoffer)
  rw [serve, List.takeWhile_append_of_pos haccept, List.dropWhile_append_of_pos haccept,
    given_append, kept_append, List.map_append, List.map_append, List.append_assoc]
  rfl

theorem minU256_of_le {a b : U256} (h : b.toNat ≤ a.toNat) : minU256 a b = b :=
  BitVec.eq_of_toNat_eq ((toNat_minU256 a b).trans (Nat.min_eq_right h))

theorem minU256_of_lt {a b : U256} (h : a.toNat < b.toNat) : minU256 a b = a :=
  BitVec.eq_of_toNat_eq ((toNat_minU256 a b).trans (Nat.min_eq_left (Nat.le_of_lt h)))

/-- A maker that has no more than the taker wants is filled. -/
theorem fillQueue_cons_of_le {maker : Order} {remaining : U256} (hzero : remaining ≠ 0)
    (h : maker.amount.toNat ≤ remaining.toNat) :
    fillQueue taker price (maker :: queue) remaining =
      { fillQueue taker price queue (remaining - maker.amount) with
        trades := ⟨maker.id, taker.id, maker.amount, price⟩
          :: (fillQueue taker price queue (remaining - maker.amount)).trades
        filled :=
          maker.id :: (fillQueue taker price queue (remaining - maker.amount)).filled } := by
  have hnone : maker.amount - maker.amount = 0 := BitVec.sub_self _
  rw [fillQueue, if_neg hzero, minU256_of_le h]
  exact if_pos hnone

/-- A maker that has more than the taker wants keeps the rest. -/
theorem fillQueue_cons_of_lt {maker : Order} {remaining : U256} (hzero : remaining ≠ 0)
    (h : remaining.toNat < maker.amount.toNat) :
    fillQueue taker price (maker :: queue) remaining =
      ⟨[⟨maker.id, taker.id, remaining, price⟩], [],
        { maker with amount := maker.amount - remaining } :: queue, 0⟩ := by
  have hnone : remaining - remaining = 0 := BitVec.sub_self _
  have hrest : maker.amount - remaining ≠ 0 := fun hrest => by
    have hsub := BitVec.toNat_sub_of_le (BitVec.le_of_lt h)
    have hrest : (maker.amount - remaining).toNat = 0 := congrArg BitVec.toNat hrest
    omega
  rw [fillQueue, if_neg hzero, minU256_of_lt h]
  dsimp only
  rw [if_neg hrest, hnone]

/-- The loop over a queue serves the taker by the orders of the queue. -/
theorem fillQueue_spec (taker : Order) (price : U256) (remaining : U256)
    (h : AllPositive (atPrice price queue)) :
    (fillQueue taker price queue remaining).trades
        = (given Offer.size remaining.toNat (atPrice price queue)).map (tradeWith taker) ∧
      atPrice price (fillQueue taker price queue remaining).left
        = (kept Offer.size remaining.toNat (atPrice price queue)).map reduced ∧
      (fillQueue taker price queue remaining).remaining.toNat
        = remaining.toNat - supply Offer.size (atPrice price queue) := by
  induction queue generalizing remaining with
  | nil => exact ⟨rfl, rfl, rfl⟩
  | cons maker queue ih =>
    obtain ⟨hmaker, hqueue⟩ := List.forall_mem_cons.mp h
    have hsupply : supply Offer.size (atPrice price (maker :: queue))
        = maker.amount.toNat + supply Offer.size (atPrice price queue) := rfl
    rw [hsupply]
    by_cases hzero : remaining = 0
    · -- The taker has been served.
      have hnat : remaining.toNat = 0 := congrArg BitVec.toNat hzero
      rw [fillQueue, if_pos hzero, hnat, given_zero, kept_zero h, map_reduced_zero, Nat.zero_sub]
      exact ⟨rfl, rfl, rfl⟩
    · have hpos : 0 < remaining.toNat := Nat.pos_of_ne_zero fun h => hzero (BitVec.eq_of_toNat_eq h)
      rcases Nat.lt_or_ge remaining.toNat maker.amount.toNat with hlt | hle
      · -- The maker gives all that the taker wants.
        have hgiven : given Offer.size remaining.toNat (atPrice price (maker :: queue)) = _ :=
          given_cons_of_lt hlt hpos
        have hkept : kept Offer.size remaining.toNat (atPrice price (maker :: queue)) = _ :=
          kept_cons_of_lt hlt hqueue
        rw [fillQueue_cons_of_lt hzero hlt, hgiven, hkept, List.map_cons, List.map_cons,
          map_reduced_zero, tradeWith_toNat, reduced_toNat hlt]
        refine ⟨rfl, rfl, ?_⟩
        show 0 = _
        omega
      · -- The maker is filled.
        have hgiven : given Offer.size remaining.toNat (atPrice price (maker :: queue)) = _ :=
          given_cons_of_le hle hmaker
        have hkept : kept Offer.size remaining.toNat (atPrice price (maker :: queue)) = _ :=
          kept_cons_of_le hle
        have hamount : (remaining - maker.amount).toNat = remaining.toNat - maker.amount.toNat :=
          BitVec.toNat_sub_of_le hle
        obtain ⟨htrades, hleft, hremaining⟩ := ih (remaining - maker.amount) hqueue
        rw [hamount] at htrades hleft hremaining
        rw [fillQueue_cons_of_le hzero hle, hgiven, hkept]
        refine ⟨?_, hleft, ?_⟩
        · rw [List.map_cons, htrades]
          exact congrArg (· :: _) (tradeWith_toNat ..).symm
        · rw [hremaining]
          omega

/-- The prices that come after one that is not accepted are not accepted either. -/
theorem Ranked.not_acceptable (h : Ranked side ((price, queue) :: levels))
    (hbeyond : taker.orderType = .limit ∧ side.Before taker.price price) :
    ∀ offer ∈ offers ((price, queue) :: levels), ¬ Acceptable side taker offer := by
  intro offer hoffer
  obtain ⟨level, hlevel, hprice, _⟩ := mem_offers hoffer
  refine not_not_intro ⟨hbeyond.1, ?_⟩
  rw [hprice]
  rcases List.mem_cons.mp hlevel with rfl | hlevel
  · exact hbeyond.2
  · exact before_trans hbeyond.2 ((List.pairwise_cons.mp h).1 level hlevel)

/-- The loop over the prices serves the taker by the orders of the side. -/
theorem fillLevels_spec (taker : Order) (hranked : Ranked side levels)
    (hpositive : AllPositive (offers levels)) (remaining : U256) :
    (fillLevels side taker levels remaining).trades
        = (serve side taker remaining.toNat (offers levels)).trades ∧
      offers (fillLevels side taker levels remaining).left
        = (serve side taker remaining.toNat (offers levels)).left := by
  induction levels generalizing remaining with
  | nil => exact ⟨rfl, rfl⟩
  | cons level levels ih =>
    obtain ⟨price, queue⟩ := level
    unfold fillLevels
    split
    next hstop =>
      -- nothing is left to fill, or the price is beyond the limit
      rcases hstop with hzero | hbeyond
      · have hnat : remaining.toNat = 0 := congrArg BitVec.toNat hzero
        rw [hnat, serve_zero side taker hpositive]
        exact ⟨rfl, rfl⟩
      · rw [serve_beyond remaining.toNat (hranked.not_acceptable hbeyond)]
        exact ⟨rfl, rfl⟩
    next hgo =>
      obtain ⟨hqueue, hlevels⟩ := List.forall_mem_append.mp hpositive
      obtain ⟨htrades, hleft, hremaining⟩ := fillQueue_spec taker price remaining hqueue
      have haccept : ∀ offer ∈ atPrice price queue, Acceptable side taker offer := by
        intro offer hoffer
        obtain ⟨order, _, rfl⟩ := List.mem_map.mp hoffer
        exact fun hbeyond => hgo (Or.inr hbeyond)
      obtain ⟨htrades', hleft'⟩ := ih hranked.of_cons hlevels
        (fillQueue taker price queue remaining).remaining
      -- a level that is used up goes away, and had no offers left
      have hoffers : ∀ (here : List Order) (next : Levels),
          offers (if here = [] then next else (price, here) :: next)
            = atPrice price here ++ offers next := by
        intro here next
        split
        next hempty =>
          rw [hempty]
          rfl
        next => rfl
      rw [offers_cons, serve_append remaining.toNat (offers levels) haccept, ← hremaining,
        ← htrades', ← hleft', ← htrades, ← hleft]
      exact ⟨rfl, hoffers _ _⟩

/-! ## The levels afterwards -/

theorem ranked_iff :
    Ranked side levels ↔ (levels.map (·.1)).Pairwise side.Before := List.pairwise_map.symm

/-- Matching takes levels away and adds none. -/
theorem fillLevels_prices (side : OrderSide) (taker : Order) (levels : Levels) (remaining : U256) :
    ((fillLevels side taker levels remaining).left.map (·.1)).Sublist (levels.map (·.1)) := by
  induction levels generalizing remaining with
  | nil => exact .slnil
  | cons level levels ih =>
    unfold fillLevels
    split
    next => exact .refl _
    next =>
      dsimp only
      split
      next => exact (ih _).cons _
      next => exact (ih _).cons_cons _

theorem Ranked.fillLevels (h : Ranked side levels) (side' : OrderSide) (taker : Order)
    (remaining : U256) :
    Ranked side (OrderBook.fillLevels side' taker levels remaining).left :=
  ranked_iff.mpr ((ranked_iff.mp h).sublist (fillLevels_prices side' taker levels remaining))

/-- Matching leaves no level empty. -/
theorem fillLevels_empty (side : OrderSide) (taker : Order) (levels : Levels) (remaining : U256) :
    ∀ level ∈ (fillLevels side taker levels remaining).left, level.2 = [] → level ∈ levels := by
  induction levels generalizing remaining with
  | nil => exact fun _ h => (nomatch h)
  | cons level levels ih =>
    unfold fillLevels
    split
    next => exact fun _ h _ => h
    next =>
      dsimp only
      split
      next => exact fun level hlevel hempty => List.mem_cons_of_mem _ (ih _ level hlevel hempty)
      next hleft =>
        refine List.forall_mem_cons.mpr
          ⟨fun hempty => absurd hempty hleft, fun level hlevel hempty => ?_⟩
        exact List.mem_cons_of_mem _ (ih _ level hlevel hempty)

/-! ## The sides are sorted in every state -/

theorem before_of_not {a b : U256} (h : ¬ side.Before a b) (hne : a ≠ b) : side.Before b a := by
  have hne : a.toNat ≠ b.toNat := fun heq => hne (BitVec.eq_of_toNat_eq heq)
  cases side with
  | buy | sell =>
    simp only [OrderSide.Before, BitVec.lt_def] at h ⊢
    omega

/-- A cancellation leaves them in order. -/
theorem Ranked.retain (h : Ranked side levels) (price : U256) (orderId : H256) :
    Ranked side (OrderBook.retain price orderId levels) := by
  have hprice : ∀ {level level' : U256 × List Order},
      (if level.1 = price then
        let queue := level.2.filter fun order => order.id ≠ orderId
        if queue = [] then none else some (price, queue)
      else some level) = some level' → level'.1 = level.1 := by
    intro level level' hsome
    split at hsome
    next heq =>
      dsimp only at hsome
      split at hsome
      next => cases hsome
      next => exact (congrArg Prod.fst (Option.some.inj hsome)).symm.trans heq.symm
    next => exact (congrArg Prod.fst (Option.some.inj hsome)).symm
  refine List.Pairwise.filterMap _ (fun a a' hbefore b hb b' hb' => ?_) h
  rw [hprice hb, hprice hb']
  exact hbefore

/-- A new order adds its price and no other. -/
theorem price_pushBack {order : Order} :
    ∀ level ∈ pushBack order levels,
      level.1 = order.price ∨ ∃ level' ∈ levels, level.1 = level'.1 := by
  induction levels with
  | nil => exact fun level hlevel => Or.inl (by rw [List.mem_singleton.mp hlevel])
  | cons level levels ih =>
    obtain ⟨price, queue⟩ := level
    have hold : ∀ level ∈ levels, level.1 = order.price ∨
        ∃ level' ∈ (price, queue) :: levels, level.1 = level'.1 :=
      fun level hlevel => Or.inr ⟨level, List.mem_cons_of_mem _ hlevel, rfl⟩
    unfold pushBack
    split
    next =>
      refine List.forall_mem_cons.mpr ⟨Or.inl rfl, ?_⟩
      exact List.forall_mem_cons.mpr ⟨Or.inr ⟨_, List.mem_cons_self .., rfl⟩, hold⟩
    next =>
      split
      next heq => exact List.forall_mem_cons.mpr ⟨Or.inl heq.symm, hold⟩
      next =>
        refine List.forall_mem_cons.mpr
          ⟨Or.inr ⟨_, List.mem_cons_self .., rfl⟩, fun level hlevel => ?_⟩
        rcases ih level hlevel with heq | ⟨level', hlevel', heq⟩
        · exact Or.inl heq
        · exact Or.inr ⟨level', List.mem_cons_of_mem _ hlevel', heq⟩

/-- A new price is put where it belongs. -/
theorem Ranked.pushBack {order : Order} (h : Ranked order.side levels) :
    Ranked order.side (OrderBook.pushBack order levels) := by
  induction levels with
  | nil => exact List.pairwise_singleton ..
  | cons level levels ih =>
    obtain ⟨price, queue⟩ := level
    obtain ⟨hfirst, hrest⟩ := List.pairwise_cons.mp h
    unfold OrderBook.pushBack
    split
    next hbefore =>
      refine List.pairwise_cons.mpr ⟨List.forall_mem_cons.mpr ⟨hbefore, ?_⟩, h⟩
      exact fun level hlevel => before_trans hbefore (hfirst level hlevel)
    next hbefore =>
      split
      next => exact List.pairwise_cons.mpr ⟨hfirst, hrest⟩
      next hne =>
        refine List.pairwise_cons.mpr ⟨fun level hlevel => ?_, ih hrest⟩
        rcases price_pushBack level hlevel with heq | ⟨level', hlevel', heq⟩
        · rw [heq]
          exact before_of_not hbefore hne
        · rw [heq]
          exact hfirst level' hlevel'

theorem ranked_setLevels {book : OrderBook} (h : ∀ side, Ranked side (book.levels side))
    (hlevels : Ranked side levels) (other : OrderSide) :
    Ranked other ((book.setLevels side levels).levels other) := by
  by_cases heq : other = side
  · rw [heq, levels_setLevels_self]
    exact hlevels
  · rw [levels_setLevels_of_ne book levels heq]
    exact h other

/-- What each section of a call keeps. -/
theorem Section.ranked {book book' : OrderBook} {phase phase' : Phase}
    (h : Section book phase book' phase') (hranked : ∀ side, Ranked side (book.levels side)) :
    ∀ side, Ranked side (book'.levels side) := by
  cases h with
  | place => exact ranked_setLevels hranked (hranked _).pushBack
  | displace => exact ranked_setLevels hranked ((hranked _).retain _ _)
  | fill => exact ranked_setLevels hranked ((hranked _).fillLevels _ _ _)
  | list | unlist | forget => exact fun side => by cases side <;> exact hranked _
  | close hsame => exact fun side => (hsame.levels side).symm ▸ hranked side

/-- After every run of calls, the sides are sorted. -/
theorem ranked_run {D ι : Type} [DecidableEq ι] {env : DexEnv D} {ok : Market ι → ι → Prop}
    {m m' : Market ι} {is : List ι} (hranked : ∀ side, Ranked side (m.book.levels side))
    (hrun : Run (Market.step env) ok m is m') : ∀ side, Ranked side (m'.book.levels side) := by
  refine @Run.invariant _ _ _ _ _ (fun m => ∀ side, Ranked side (m.book.levels side)) _ _ _ hrun
    (fun m i m' o _ _ hstep hranked => ?_) hranked
  obtain ⟨phase', hsection, _⟩ := Market.step_spec hstep
  exact hsection.ranked hranked

/-! ## The statistics -/

section Statistics

variable {D : Type} (env : DexEnv D)

/-- What has been traded. -/
def volume (trades : List Trade) : Nat := (trades.map (·.amount.toNat)).sum

/-- The volume and the number of the trades do not overflow. -/
def StatsFit (stats : MarketStats) (trades : List Trade) : Prop :=
  stats.volume24h.toNat + volume trades < 2 ^ 256 ∧
    (env.overflowChecks → stats.trades24h.toNat + trades.length < 2 ^ 64)

instance (stats : MarketStats) (trades : List Trade) : Decidable (StatsFit env stats trades) :=
  inferInstanceAs (Decidable (_ ∧ (_ → _)))

/-- What a trade is recorded as, if it fits. -/
theorem reentrant_recordTrades_cons (trade : Trade) (trades : List Trade) (book : OrderBook) :
    ((recordTrades env (trade :: trades)).reentrant book).1 =
      match addU256 book.stats.volume24h trade.amount, env.add64 book.stats.trades24h 1 with
      | some volume24h, some trades24h =>
        ((recordTrades env trades).reentrant
          { book with
            stats := { book.stats with volume24h }.record trades24h trade.price
            lastPrice := trade.price }).1
      | _, _ => .panicked := by
  rw [recordTrades, Routine.reentrant_bind, Routine.reentrant_get]
  dsimp only [Routine.andThen]
  rw [Routine.reentrant_bind, Routine.reentrant_orPanic]
  cases addU256 book.stats.volume24h trade.amount with
  | none => rfl
  | some volume24h =>
    dsimp only [Routine.andThen, Routine.ended]
    rw [Routine.reentrant_bind, Routine.reentrant_modify]
    dsimp only [Routine.andThen]
    rw [Routine.reentrant_bind, Routine.reentrant_get]
    dsimp only [Routine.andThen]
    rw [Routine.reentrant_bind, Routine.reentrant_orPanic]
    cases env.add64 book.stats.trades24h 1 with
    | none => rfl
    | some trades24h => rfl

/-- The trades are recorded unless a sum overflows. -/
theorem recordTrades_returned (trades : List Trade) (book : OrderBook) :
    ((recordTrades env trades).reentrant book).1
      = if StatsFit env book.stats trades then .returned () else .panicked := by
  induction trades generalizing book with
  | nil =>
    refine (if_pos ⟨?_, fun _ => ?_⟩).symm
    · exact book.stats.volume24h.isLt
    · exact book.stats.trades24h.isLt
  | cons trade trades ih =>
    rw [reentrant_recordTrades_cons]
    have hvolume : volume (trade :: trades) = trade.amount.toNat + volume trades := rfl
    have hlength : (trade :: trades).length = trades.length + 1 := rfl
    have hone : (1 : U64).toNat = 1 := rfl
    rw [addU256, Build.add64, hone]
    by_cases hadd : book.stats.volume24h.toNat + trade.amount.toNat < 2 ^ 256
    -- without overflow checks the number of trades wraps
    · by_cases hcount : env.overflowChecks ∧ 2 ^ 64 ≤ book.stats.trades24h.toNat + 1
      · rw [if_pos hadd, if_pos hcount]
        refine (if_neg fun hfit => ?_).symm
        have hfits := hfit.2 hcount.1
        omega
      · rw [if_pos hadd, if_neg hcount]
        dsimp only
        rw [ih]
        refine if_congr ?_ rfl rfl
        have hsum : (book.stats.volume24h + trade.amount).toNat = _ := BitVec.toNat_add_of_lt hadd
        have hnext : env.overflowChecks = true →
            (book.stats.trades24h + 1).toNat = book.stats.trades24h.toNat + 1 :=
          fun hchecks => BitVec.toNat_add_of_lt (Nat.lt_of_not_le fun hle => hcount ⟨hchecks, hle⟩)
        unfold StatsFit
        dsimp only [MarketStats.record]
        rw [hsum, hvolume, hlength, Nat.add_assoc]
        refine and_congr_right fun _ => forall_congr' fun hchecks => ?_
        rw [hnext hchecks]
        omega
    · rw [if_neg hadd]
      refine (if_neg fun hfit => ?_).symm
      have hfits := hfit.1
      omega

theorem updateStats_returned (trades : List Trade) (book : OrderBook) :
    ((updateStats env trades).reentrant book).1
      = if StatsFit env book.stats trades then .returned () else .panicked := by
  unfold updateStats
  split
  next hempty =>
    rw [hempty]
    exact recordTrades_returned env [] book
  next =>
    rw [Routine.reentrant_guarded, Routine.reentrant_guarded]
    exact recordTrades_returned env trades book

/-! ## The call -/

/-- The book after the section of a match that fills the orders, and the index after it. -/
def matched (book : OrderBook) (taker : Order) : OrderBook :=
  (book.fill taker.side.other taker).filled.foldl unlist
    (book.setLevels taker.side.other (book.fill taker.side.other taker).left)

theorem matchOrder_alone (taker : Order) (book : OrderBook) :
    (matchOrder env taker).alone book = Routine.andThen
      ((updateStats env (book.fill taker.side.other taker).trades).reentrant (book.matched taker))
      fun _ book' => (.returned (.ok (book.fill taker.side.other taker).trades), book') := by
  have hfollows := (follows_matchOrder env taker).mono fun _ _ => Asking.harmless
  have halone : (matchOrder env taker).alone book = (matchOrder env taker).reentrant book :=
    Routine.run_eq_reentrant (hfollows.not_blocked book)
  rw [halone, matchOrder_eq, Routine.reentrant_bind, reentrant_matchSide]
  exact Routine.reentrant_bind ..

/-- The index is not where the orders rest. -/
theorem levels_foldl_unlist (filled : List H256) (book : OrderBook) (side : OrderSide) :
    (filled.foldl unlist book).levels side = book.levels side := by
  induction filled generalizing book with
  | nil => rfl
  | cons orderId filled ih =>
    refine (ih _).trans ?_
    cases side with
    | buy => rfl
    | sell => rfl

theorem stats_foldl_unlist (filled : List H256) (book : OrderBook) :
    (filled.foldl unlist book).stats = book.stats := by
  induction filled generalizing book with
  | nil => rfl
  | cons orderId filled ih => exact ih _

theorem stats_matched (book : OrderBook) (taker : Order) :
    (book.matched taker).stats = book.stats := by
  rw [matched, stats_foldl_unlist]
  cases taker.side with
  | buy => rfl
  | sell => rfl

/-- How a match ends, and the sides after it. -/
theorem matchOrder_spec (taker : Order) (book : OrderBook) :
    ((matchOrder env taker).alone book).1
        = (if StatsFit env book.stats (book.fill taker.side.other taker).trades
          then .returned (.ok (book.fill taker.side.other taker).trades) else .panicked) ∧
      ((matchOrder env taker).alone book).2.levels taker.side.other
        = (book.fill taker.side.other taker).left ∧
      ((matchOrder env taker).alone book).2.levels taker.side = book.levels taker.side := by
  have hreturned := updateStats_returned env (book.fill taker.side.other taker).trades
    (book.matched taker)
  have hlevels := fun side =>
    ((updateStats_spec env (book.fill taker.side.other taker).trades (book.matched taker)).1.levels
      side).trans (levels_foldl_unlist ..)
  rw [stats_matched] at hreturned
  rw [matchOrder_alone]
  generalize (updateStats env (book.fill taker.side.other taker).trades).reentrant
    (book.matched taker) = r at hreturned hlevels ⊢
  obtain ⟨e, book'⟩ := r
  have hother := (hlevels taker.side.other).trans (levels_setLevels_self ..)
  have hne : taker.side ≠ taker.side.other := by cases taker.side <;> exact fun h => nomatch h
  have hown := (hlevels taker.side).trans (levels_setLevels_of_ne _ _ hne)
  split at hreturned
  next hfit =>
    obtain rfl : e = .returned () := hreturned
    exact ⟨(if_pos hfit).symm, hother, hown⟩
  next hfit =>
    obtain rfl : e = .panicked := hreturned
    exact ⟨(if_neg hfit).symm, hother, hown⟩

/-- What has been traded is all that is asked for, or all that there is. -/
theorem volume_reference {side : OrderSide} (taker : Order) {levels : Levels}
    (hranked : Ranked side levels) :
    volume (reference side taker (offers levels)).trades
      = min taker.amount.toNat (liquidity side taker levels) := by
  have haccepted : (offers levels).takeWhile (Acceptable side taker ·)
      = (offers levels).filter (Acceptable side taker ·) := by
    refine takeWhile_eq_filter hranked.sorted fun a b hbefore hb => decide_eq_true fun hbeyond => ?_
    refine of_decide_eq_true hb ⟨hbeyond.1, ?_⟩
    by_cases heq : b.1 = a.1
    · rw [heq]
      exact hbeyond.2
    · exact before_trans hbeyond.2 (before_of_not hbefore heq)
  rw [reference, hranked.prioritized, serve, haccepted, volume, liquidity, ← sum_given,
    List.map_map]
  refine congrArg List.sum (List.map_congr_left fun share hshare => ?_)
  have hle := le_of_mem_given hshare
  have hlt := share.1.2.amount.isLt
  exact toNat_ofNat_of_lt (Nat.lt_of_le_of_lt hle hlt)

/-- The trades of a match and the side that it is matched with are as the reference says. -/
theorem fill_reference (book : OrderBook) (side : OrderSide) (taker : Order)
    (hranked : Ranked side (book.levels side))
    (hpositive : ∀ order ∈ resting (book.levels side), 0 < order.amount) :
    (book.fill side taker).trades = (reference side taker (offers (book.levels side))).trades ∧
      offers (book.fill side taker).left
        = (reference side taker (offers (book.levels side))).left := by
  have hall : AllPositive (offers (book.levels side)) := by
    intro offer hoffer
    obtain ⟨level, hlevel, _, horder⟩ := mem_offers hoffer
    exact hpositive _ (List.mem_flatMap.mpr ⟨level, hlevel, horder⟩)
  rw [reference, hranked.prioritized]
  exact fillLevels_spec taker hranked hall taker.amount

end Statistics

/-- Whatever the book, `match_order` trades as the reference says, takes what is traded from the
other side and leaves its own as it is. It returns these trades exactly if the statistics have room
for them. -/
theorem matchOrder_reference {D : Type} (env : DexEnv D) (book : OrderBook) (taker : Order)
    (hranked : Ranked taker.side.other (book.levels taker.side.other))
    (hpositive : ∀ order ∈ resting (book.levels taker.side.other), 0 < order.amount) :
    ∃ book', (matchOrder env taker).alone book =
        (if StatsFit env book.stats (book.expected taker).trades
          then .returned (.ok (book.expected taker).trades) else .panicked, book') ∧
      volume (book.expected taker).trades
        = min taker.amount.toNat (liquidity taker.side.other taker (book.levels taker.side.other)) ∧
      offers (book'.levels taker.side.other) = (book.expected taker).left ∧
      Ranked taker.side.other (book'.levels taker.side.other) ∧
      (∀ level ∈ book'.levels taker.side.other, level.2 = [] →
        level ∈ book.levels taker.side.other) ∧
      book'.levels taker.side = book.levels taker.side := by
  obtain ⟨htrades, hleft⟩ := fill_reference book taker.side.other taker hranked hpositive
  obtain ⟨hreturned, hother, hown⟩ := matchOrder_spec env taker book
  refine ⟨_, ?_, volume_reference taker hranked, ?_, ?_, ?_, hown⟩
  · rw [expected, ← htrades]
    exact Prod.ext hreturned rfl
  · rw [hother]
    exact hleft
  · rw [hother]
    exact hranked.fillLevels _ _ _
  · rw [hother]
    exact fillLevels_empty _ _ _ _

/-- A book with two prices. -/
def sampleBook : OrderBook :=
  { new with
    sellOrders := [(5, [⟨AmmPool.sampleToken 0, .limit, .sell, 2, 5⟩]),
      (7, [⟨AmmPool.sampleToken 1, .limit, .sell, 3, 7⟩])] }

/-- A taker that fills the first order and takes a part of the second. -/
def sampleTaker : Order := ⟨AmmPool.sampleToken 2, .limit, .buy, 4, 7⟩

theorem matchOrder_reference_sample :
    ∃ book', (matchOrder AmmPool.sampleDexEnv sampleTaker).alone sampleBook =
        (.returned (.ok [⟨AmmPool.sampleToken 0, AmmPool.sampleToken 2, 2, 5⟩,
          ⟨AmmPool.sampleToken 1, AmmPool.sampleToken 2, 2, 7⟩]), book') ∧
      offers (book'.levels .sell) = [(7, ⟨AmmPool.sampleToken 1, .limit, .sell, 1, 7⟩)] := by
  obtain ⟨book', hrun, _, hleft, _⟩ := matchOrder_reference AmmPool.sampleDexEnv sampleBook
    sampleTaker (by decide) (by decide)
  exact ⟨book', hrun, hleft⟩

/-- The calls that trade so much that the volume is as large as a `U256` can be, and then offer one
more. -/
def sampleVolume : Call (Except DexError H256) := do
  let _ ← addOrder (AmmPool.sampleToken 0) ⟨AmmPool.sampleToken 0, .limit, .sell, .allOnes 256, 1⟩
  let _ ← matchOrder AmmPool.sampleDexEnv ⟨AmmPool.sampleToken 1, .market, .buy, .allOnes 256, 1⟩
  addOrder (AmmPool.sampleToken 2) ⟨AmmPool.sampleToken 2, .limit, .sell, 1, 1⟩

/-- The reference sells what is left, and `match_order` panics. -/
theorem matchOrder_panics :
    ∃ book, (sampleVolume.alone new).2 = book ∧
      Ranked .sell (book.levels .sell) ∧ (∀ order ∈ resting (book.levels .sell), 0 < order.amount) ∧
      (book.expected ⟨AmmPool.sampleToken 3, .limit, .buy, 1, 1⟩).trades
        = [⟨AmmPool.sampleToken 2, AmmPool.sampleToken 3, 1, 1⟩] ∧
      ((matchOrder AmmPool.sampleDexEnv ⟨AmmPool.sampleToken 3, .limit, .buy, 1, 1⟩).alone book).1
        = .panicked :=
  ⟨_, rfl, by decide, by decide, by decide, rfl⟩

end InterBit.Dex.OrderBook
