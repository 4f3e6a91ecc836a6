import InterBit.Dex.PriceTimePriority

/-!
# The quote of a market buy

`calculate_market_buy` of `dex/orderbook.rs` goes through the sell side as `match_buy_order` does,
but it adds up what the trades would cost. `calculateMarketBuy_eq` is that the quote is the cost of
the trades that a market order would make, whatever the book, and an error if the market order
would not be filled.
-/

namespace InterBit.Dex.OrderBook

open InterBit.Lib

/-- How the loops of `calculate_market_buy` end: with `return`, or with the cost so far and what
remains to be bought. -/
inductive Quoting where
  | done (totalCost : U256)
  | more (totalCost remaining : U256)

/-- The loop over the orders of a price; `none` is a panic. -/
def quoteQueue (price : U256) : List Order → U256 → U256 → Option Quoting
  | [], totalCost, remaining => some (.more totalCost remaining)
  | order :: queue, totalCost, remaining => do
    let amount := minU256 remaining order.amount
    let cost ← mulU256 amount price
    let totalCost ← addU256 totalCost cost
    let remaining := remaining - amount
    if remaining = 0 then return .done totalCost else quoteQueue price queue totalCost remaining

/-- The loop over the prices; `none` is a panic. -/
def quoteLevels : Levels → U256 → U256 → Option Quoting
  | [], totalCost, remaining => some (.more totalCost remaining)
  | (price, queue) :: levels, totalCost, remaining => do
    match ← quoteQueue price queue totalCost remaining with
    | .done totalCost => return .done totalCost
    | .more totalCost remaining => quoteLevels levels totalCost remaining

/-- `calculate_market_buy`. The pair is ignored. -/
def calculateMarketBuy (_pair : H256) (amount : U256) : Call (Except DexError U256) :=
  .guarded ⟨.orders .sell, .read⟩ do
    let sellOrders ← .get (·.sellOrders)
    let quoting ← .orPanic (quoteLevels sellOrders 0 amount)
    match quoting with
    | .done totalCost => return .ok totalCost
    | .more totalCost remaining =>
      if 0 < remaining then return .error .insufficientLiquidity else return .ok totalCost

/-- A market order that buys so much. -/
def marketBuy (id : H256) (amount price : U256) : Order := ⟨id, .market, .buy, amount, price⟩

/-- What some trades cost. -/
def cost (trades : List Trade) : Nat :=
  (trades.map fun trade => trade.amount.toNat * trade.price.toNat).sum

/-! ## What is traded and what remains -/

theorem volume_cons (trade : Trade) (trades : List Trade) :
    volume (trade :: trades) = trade.amount.toNat + volume trades := rfl

theorem cost_cons (trade : Trade) (trades : List Trade) :
    cost (trade :: trades) = trade.amount.toNat * trade.price.toNat + cost trades := rfl

theorem volume_append (trades trades' : List Trade) :
    volume (trades ++ trades') = volume trades + volume trades' := by
  rw [volume, List.map_append, List.sum_append]
  rfl

theorem cost_append (trades trades' : List Trade) :
    cost (trades ++ trades') = cost trades + cost trades' := by
  rw [cost, List.map_append, List.sum_append]
  rfl

/-- Of what the taker wants, one part is traded and the other remains. -/
theorem volume_fillQueue (taker : Order) (price : U256) (queue : List Order) (remaining : U256) :
    volume (fillQueue taker price queue remaining).trades
      + (fillQueue taker price queue remaining).remaining.toNat = remaining.toNat := by
  induction queue generalizing remaining with
  | nil => exact Nat.zero_add _
  | cons maker queue ih =>
    by_cases hzero : remaining = 0
    · rw [fillQueue, if_pos hzero]
      exact Nat.zero_add _
    · rcases Nat.lt_or_ge remaining.toNat maker.amount.toNat with hlt | hle
      · rw [fillQueue_cons_of_lt hzero hlt]
        rfl
      · have hrest := ih (remaining - maker.amount)
        have hsub := BitVec.toNat_sub_of_le hle
        rw [fillQueue_cons_of_le hzero hle]
        rw [volume_cons]
        dsimp only
        omega

/-- What is filled and what remains are what was asked for. -/
theorem volume_fillLevels (side : OrderSide) (taker : Order) (levels : Levels) (remaining : U256) :
    volume (fillLevels side taker levels remaining).trades
      + (fillLevels side taker levels remaining).remaining.toNat = remaining.toNat := by
  induction levels generalizing remaining with
  | nil => exact Nat.zero_add _
  | cons level levels ih =>
    unfold fillLevels
    split
    next => exact Nat.zero_add _
    next =>
      have hhere := volume_fillQueue taker level.1 level.2 remaining
      have hnext := ih (fillQueue taker level.1 level.2 remaining).remaining
      dsimp only
      rw [volume_append]
      omega

/-! ## The loops -/

/-- How the loops end when the orders so far cost so much and so much remains. -/
def quoted (totalCost : Nat) (remaining : U256) : Option Quoting :=
  if totalCost < 2 ^ 256 then
    some (if remaining = 0 then .done (.ofNat 256 totalCost)
      else .more (.ofNat 256 totalCost) remaining)
  else none

/-- The cost of one order is added. -/
theorem addCost_bind (totalCost amount price : U256) (next : U256 → Option Quoting) :
    (do
      let cost ← mulU256 amount price
      let totalCost ← addU256 totalCost cost
      next totalCost) =
    if totalCost.toNat + amount.toNat * price.toNat < 2 ^ 256 then
      next (.ofNat 256 (totalCost.toNat + amount.toNat * price.toNat)) else none := by
  split
  next hfit =>
    have hproduct := Nat.lt_of_le_of_lt (Nat.le_add_left ..) hfit
    have hmul : mulU256 amount price = some (.ofNat 256 (amount.toNat * price.toNat)) :=
      mulU256_eq.mpr (toNat_ofNat_of_lt hproduct)
    have hadd : addU256 totalCost (.ofNat 256 (amount.toNat * price.toNat))
        = some (.ofNat 256 (totalCost.toNat + amount.toNat * price.toNat)) :=
      addU256_eq.mpr (by rw [toNat_ofNat_of_lt hfit, toNat_ofNat_of_lt hproduct])
    rw [hmul, Option.bind_eq_bind, Option.bind_some, hadd]
    rfl
  next hfit =>
    cases hmul : mulU256 amount price with
    | none => rfl
    | some cost =>
      have hadd : addU256 totalCost cost = none := if_neg (by rw [mulU256_eq.mp hmul]; exact hfit)
      rw [Option.bind_eq_bind, Option.bind_some, hadd]
      rfl

theorem quoted_zero (totalCost : Nat) : quoted totalCost 0
    = if totalCost < 2 ^ 256 then some (.done (.ofNat 256 totalCost)) else none := rfl

/-- What does not fit does not fit with more either. -/
theorem quoted_of_le {totalCost more : Nat} (remaining : U256) (h : ¬ totalCost < 2 ^ 256) :
    quoted (totalCost + more) remaining = none :=
  if_neg fun hlt => h (Nat.lt_of_le_of_lt (Nat.le_add_right ..) hlt)

/-- With something left it goes on. -/
theorem quoted_toNat (totalCost : U256) {remaining : U256} (hzero : remaining ≠ 0) :
    quoted totalCost.toNat remaining = some (.more totalCost remaining) := by
  rw [quoted, if_pos totalCost.isLt, if_neg hzero, BitVec.ofNat_toNat, BitVec.setWidth_eq]

/-- Nothing is filled for nothing. -/
theorem fillQueue_zero (taker : Order) (price : U256) (queue : List Order) :
    fillQueue taker price queue 0 = ⟨[], [], queue, 0⟩ := by
  cases queue with
  | nil => rfl
  | cons maker queue => exact if_pos rfl

/-- The orders of a price cost what the trades with them cost. -/
theorem quoteQueue_eq (taker : Order) (price : U256) (queue : List Order) (totalCost : U256)
    {remaining : U256} (hzero : remaining ≠ 0) :
    quoteQueue price queue totalCost remaining
      = quoted (totalCost.toNat + cost (fillQueue taker price queue remaining).trades)
          (fillQueue taker price queue remaining).remaining := by
  induction queue generalizing totalCost remaining with
  | nil => exact (quoted_toNat totalCost hzero).symm
  | cons maker queue ih =>
    rw [quoteQueue]
    dsimp only
    rw [addCost_bind]
    rcases Nat.lt_or_ge remaining.toNat maker.amount.toNat with hlt | hle
    · have hnone : remaining - remaining = 0 := BitVec.sub_self _
      rw [minU256_of_lt hlt, fillQueue_cons_of_lt hzero hlt, hnone, if_pos rfl]
      exact (quoted_zero _).symm
    · rw [minU256_of_le hle, fillQueue_cons_of_le hzero hle, cost_cons]
      dsimp only
      rw [← Nat.add_assoc]
      split
      next hfit =>
        split
        next hnone =>
          -- Nothing remains to be bought.
          rw [hnone, fillQueue_zero]
          exact ((quoted_zero _).trans (if_pos hfit)).symm
        next hmore => rw [ih _ hmore, toNat_ofNat_of_lt hfit]
      next hfit => exact (quoted_of_le _ hfit).symm

/-- On a side neither. -/
theorem fillLevels_zero (side : OrderSide) (taker : Order) (levels : Levels) :
    fillLevels side taker levels 0 = ⟨[], [], levels, 0⟩ := by
  cases levels with
  | nil => rfl
  | cons level levels => exact if_pos (Or.inl rfl)

/-- The orders of the side cost what the trades with them cost. -/
theorem quoteLevels_eq {taker : Order} (hmarket : taker.orderType = .market) (levels : Levels)
    (totalCost : U256) {remaining : U256} (hzero : remaining ≠ 0) :
    quoteLevels levels totalCost remaining
      = quoted (totalCost.toNat + cost (fillLevels .sell taker levels remaining).trades)
          (fillLevels .sell taker levels remaining).remaining := by
  induction levels generalizing totalCost remaining with
  | nil => exact (quoted_toNat totalCost hzero).symm
  | cons level levels ih =>
    obtain ⟨price, queue⟩ := level
    have hgo : ¬ (remaining = 0 ∨
        (taker.orderType = .limit ∧ OrderSide.sell.Before taker.price price)) := by
      rw [hmarket]
      exact fun hstop => hstop.elim hzero fun hlimit => nomatch hlimit.1
    rw [quoteLevels, fillLevels, if_neg hgo, quoteQueue_eq taker price queue totalCost hzero]
    dsimp only
    rw [cost_append, ← Nat.add_assoc]
    generalize fillQueue taker price queue remaining = here
    by_cases hfit : totalCost.toNat + cost here.trades < 2 ^ 256
    · by_cases hnone : here.remaining = 0
      · rw [hnone, fillLevels_zero, quoted_zero, if_pos hfit]
        exact ((quoted_zero _).trans (if_pos hfit)).symm
      · rw [quoted, if_pos hfit, if_neg hnone]
        refine (ih _ hnone).trans ?_
        rw [toNat_ofNat_of_lt hfit]
    · rw [quoted_of_le _ hfit, quoted, if_neg hfit]
      rfl

/-- Nothing costs nothing. -/
theorem quoteLevels_zero (levels : Levels) :
    quoteLevels levels 0 0 = some (.done 0) ∨ quoteLevels levels 0 0 = some (.more 0 0) := by
  induction levels with
  | nil => exact Or.inr rfl
  | cons level levels ih =>
    obtain ⟨price, queue⟩ := level
    cases queue with
    | nil => exact ih
    | cons order queue =>
      have hamount : minU256 0 order.amount = 0 := if_pos (Nat.zero_le _)
      have hfit : (0 : U256).toNat + (0 : U256).toNat * price.toNat = 0 := by simp
      refine Or.inl ?_
      rw [quoteLevels, quoteQueue]
      dsimp only
      rw [hamount, addCost_bind, hfit]
      rfl

theorem calculateMarketBuy_alone (pair : H256) (amount : U256) (book : OrderBook) :
    (calculateMarketBuy pair amount).alone book =
      (match quoteLevels book.sellOrders 0 amount with
        | none => .panicked
        | some (.done totalCost) => .returned (.ok totalCost)
        | some (.more totalCost remaining) =>
          if 0 < remaining then .returned (.error .insufficientLiquidity)
          else .returned (.ok totalCost), book) := by
  rw [calculateMarketBuy, Routine.alone, Routine.run_guarded, if_pos (Or.inr harmless_nil)]
  show (Routine.orPanic (quoteLevels book.sellOrders 0 amount) >>= _).run false _ book = _
  cases quoteLevels book.sellOrders 0 amount with
  | none => rfl
  | some quoting =>
    cases quoting with
    | done totalCost => rfl
    | more totalCost remaining =>
      show (if 0 < remaining then _ else _ : Call _).run false _ book
        = (if 0 < remaining then _ else _, book)
      split
      next => rfl
      next => rfl

/-- The quote of a market buy is the cost of the trades that the order makes, if it is filled, and
an error if it is not. It panics if the cost overflows. -/
theorem calculateMarketBuy_eq {D : Type} (env : DexEnv D) (book : OrderBook) (pair id : H256)
    (amount price : U256) :
    ((matchOrder env (marketBuy id amount price)).alone book).1 =
        (if StatsFit env book.stats (book.fill .sell (marketBuy id amount price)).trades then
          .returned (.ok (book.fill .sell (marketBuy id amount price)).trades)
        else .panicked) ∧
      (calculateMarketBuy pair amount).alone book =
        (if cost (book.fill .sell (marketBuy id amount price)).trades < 2 ^ 256 then
          if volume (book.fill .sell (marketBuy id amount price)).trades = amount.toNat then
            .returned (.ok (.ofNat 256 (cost (book.fill .sell (marketBuy id amount price)).trades)))
          else .returned (.error .insufficientLiquidity)
        else .panicked, book) := by
  refine ⟨(matchOrder_spec env (marketBuy id amount price) book).1, ?_⟩
  rw [calculateMarketBuy_alone]
  refine congrArg (·, book) ?_
  -- an amount of 0 is quoted 0, whether or not there are asks
  by_cases hzero : amount = 0
  · subst hzero
    have hfill : book.fill .sell (marketBuy id 0 price) = ⟨[], [], book.sellOrders, 0⟩ :=
      fillLevels_zero ..
    rw [hfill]
    rcases quoteLevels_zero book.sellOrders with hquote | hquote
    · rw [hquote]
      rfl
    · rw [hquote]
      rfl
  · have hquote : quoteLevels book.sellOrders 0 amount
        = quoted (cost (book.fill .sell (marketBuy id amount price)).trades)
            (book.fill .sell (marketBuy id amount price)).remaining := by
      refine (@quoteLevels_eq (marketBuy id amount price) rfl book.sellOrders 0 _ hzero).trans ?_
      exact congrArg (quoted · _) (Nat.zero_add _)
    -- what is bought and what is left over are the amount
    have hvolume : volume (book.fill .sell (marketBuy id amount price)).trades
        + (book.fill .sell (marketBuy id amount price)).remaining.toNat = amount.toNat :=
      volume_fillLevels ..
    rw [hquote]
    generalize book.fill .sell (marketBuy id amount price) = filled at hvolume ⊢
    by_cases hfit : cost filled.trades < 2 ^ 256
    · rw [quoted, if_pos hfit, if_pos hfit]
      by_cases hnone : filled.remaining = 0
      · have hfilled : volume filled.trades = amount.toNat := by
          rw [hnone] at hvolume
          exact hvolume
        rw [if_pos hnone, if_pos hfilled]
      · have hpos : 0 < filled.remaining.toNat :=
          Nat.pos_of_ne_zero fun h => hnone (BitVec.eq_of_toNat_eq h)
        rw [if_neg hnone, if_neg (by omega)]
        exact if_pos hpos
    · rw [quoted, if_neg hfit, if_neg hfit]

end InterBit.Dex.OrderBook
