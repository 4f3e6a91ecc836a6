import InterBit.Dex.AmmPool

/-!
# The order book

`dex/orderbook.rs`. A side of the book is a list of price levels, best price first, as matching
goes through them, and a level is a queue. The calls are routines with the locks they take. What
matching does to a side is seen by nobody else before the guard on that side is released, so it
is one change; the index has a guard of its own for each order that is filled.

The id that `add_order` draws is given with the call. What conditional orders and the hidden part
of an iceberg order do is not implemented in the source.
-/

namespace InterBit.Dex

open InterBit.Lib

/-- `enum OrderType`. -/
inductive OrderType where
  | market
  | limit
  | stopLoss
  | takeProfit
  | iceberg (visibleAmount : U256)
  deriving DecidableEq

/-- `enum OrderSide`. -/
inductive OrderSide where
  | buy
  | sell
  deriving DecidableEq

/-- The side that a taker is matched with. -/
def OrderSide.other : OrderSide → OrderSide
  | .buy => .sell
  | .sell => .buy

/-- `struct Order`, with its id. -/
structure Order where
  id : H256
  orderType : OrderType
  side : OrderSide
  amount : U256
  price : U256
  deriving DecidableEq

/-- `struct Trade`. -/
structure Trade where
  makerOrderId : H256
  takerOrderId : H256
  amount : U256
  price : U256
  deriving DecidableEq

/-- `struct MarketStats`. -/
structure MarketStats where
  volume24h : U256
  high24h : U256
  low24h : U256
  trades24h : U64

/-- What a trade does to the statistics, apart from the volume. -/
def MarketStats.record (stats : MarketStats) (trades24h : U64) (price : U256) : MarketStats :=
  { stats with
    trades24h
    high24h := if stats.high24h < price then price else stats.high24h
    low24h := if stats.low24h = 0 ∨ price < stats.low24h then price else stats.low24h }

/-- The price levels of a side, best price first. -/
abbrev Levels := List (U256 × List Order)

/-- `struct OrderBook`. -/
structure OrderBook where
  buyOrders : Levels
  sellOrders : Levels
  orderIndex : AList fun _ : H256 => Order
  lastPrice : U256
  stats : MarketStats

/-- The locks of the book. -/
inductive BookLock where
  | orders (side : OrderSide)
  | orderIndex
  | lastPrice
  | stats
  deriving DecidableEq

/-- `struct PriceLevel`. -/
structure PriceLevel where
  price : U256
  amount : U256
  orders : Nat

/-- `struct OrderBookDepth`. -/
structure OrderBookDepth where
  bids : List PriceLevel
  asks : List PriceLevel
  lastPrice : U256

/-- A price of a side comes before another. -/
def OrderSide.Before : OrderSide → U256 → U256 → Prop
  | .buy, price, price' => price' < price
  | .sell, price, price' => price < price'

instance : (side : OrderSide) → (price price' : U256) → Decidable (side.Before price price')
  | .buy, _, _ => inferInstanceAs (Decidable (_ < _))
  | .sell, _, _ => inferInstanceAs (Decidable (_ < _))

namespace OrderBook

/-- `OrderBook::new`. -/
def new : OrderBook where
  buyOrders := []
  sellOrders := []
  orderIndex := ∅
  lastPrice := 0
  stats := ⟨0, 0, 0, 0⟩

/-- A side of the book. -/
def levels (book : OrderBook) : OrderSide → Levels
  | .buy => book.buyOrders
  | .sell => book.sellOrders

/-- Set a side of the book. -/
def setLevels (book : OrderBook) : OrderSide → Levels → OrderBook
  | .buy, buyOrders => { book with buyOrders }
  | .sell, sellOrders => { book with sellOrders }

@[simp] theorem orderIndex_setLevels (book : OrderBook) (side : OrderSide) (levels : Levels) :
    (book.setLevels side levels).orderIndex = book.orderIndex := by
  cases side <;> rfl

/-- Put an order in the index. -/
def list (book : OrderBook) (order : Order) : OrderBook :=
  { book with orderIndex := book.orderIndex.insert order.id order }

/-- Take an order out of the index. -/
def unlist (book : OrderBook) (orderId : H256) : OrderBook :=
  { book with orderIndex := book.orderIndex.erase orderId }

/-- Put an order at the end of the queue of its price. -/
def pushBack (order : Order) : Levels → Levels
  | [] => [(order.price, [order])]
  | (price, queue) :: levels =>
    if order.side.Before order.price price then
      -- No order has this price yet.
      (order.price, [order]) :: (price, queue) :: levels
    else if order.price = price then (price, queue ++ [order]) :: levels
    else (price, queue) :: pushBack order levels

/-- Put an order in its side of the book. -/
def place (book : OrderBook) (order : Order) : OrderBook :=
  book.setLevels order.side (pushBack order (book.levels order.side))

/-- Take an id out of the queue of a price. -/
def retain (price : U256) (orderId : H256) (levels : Levels) : Levels :=
  levels.filterMap fun level =>
    if level.1 = price then
      let queue := level.2.filter fun order => order.id ≠ orderId
      if queue = [] then none else some (price, queue)
    else some level

/-- Take an order out of its side of the book. -/
def displace (book : OrderBook) (order : Order) (orderId : H256) : OrderBook :=
  book.setLevels order.side (retain order.price orderId (book.levels order.side))

/-! ## Matching -/

/-- What matching has done: the trades, the makers that are filled, what is left in the book, and
what remains of the taker. -/
structure Filled (α : Type) where
  trades : List Trade
  filled : List H256
  left : α
  remaining : U256

/-- The loop over the queue of a price. -/
def fillQueue (taker : Order) (price : U256) : List Order → U256 → Filled (List Order)
  | [], remaining => ⟨[], [], [], remaining⟩
  | maker :: queue, remaining =>
    if remaining = 0 then ⟨[], [], maker :: queue, remaining⟩
    else
      let amount := minU256 remaining maker.amount
      let trade : Trade := ⟨maker.id, taker.id, amount, price⟩
      if maker.amount - amount = 0 then
        let next := fillQueue taker price queue (remaining - amount)
        { next with trades := trade :: next.trades, filled := maker.id :: next.filled }
      else
        -- A maker that is not filled has left nothing of the taker.
        ⟨[trade], [], { maker with amount := maker.amount - amount } :: queue, remaining - amount⟩

/-- The loop over the prices of a side. -/
def fillLevels (side : OrderSide) (taker : Order) : Levels → U256 → Filled Levels
  | [], remaining => ⟨[], [], [], remaining⟩
  | (price, queue) :: levels, remaining =>
    if remaining = 0 ∨ (taker.orderType = .limit ∧ side.Before taker.price price) then
      ⟨[], [], (price, queue) :: levels, remaining⟩
    else
      let here := fillQueue taker price queue remaining
      let next := fillLevels side taker levels here.remaining
      { trades := here.trades ++ next.trades
        filled := here.filled ++ next.filled
        left := if here.left = [] then next.left else (price, here.left) :: next.left
        remaining := next.remaining }

/-- What a taker does to a side of the book. -/
def fill (book : OrderBook) (side : OrderSide) (taker : Order) : Filled Levels :=
  fillLevels side taker (book.levels side) taker.amount

/-! ## The calls -/

/-- A part of a call. -/
abbrev Call (α : Type) := Routine BookLock OrderBook α

/-- `add_limit_order`. -/
def addLimitOrder (order : Order) : Call Unit := do
  .guarded ⟨.orderIndex, .write⟩ (.modify (·.list order))
  .guarded ⟨.orders order.side, .write⟩ (.modify (·.place order))

/-- `add_iceberg_order`. -/
def addIcebergOrder (order : Order) (visibleAmount : U256) : Call Unit := do
  let _hiddenAmount ← .orPanic (subU256 order.amount visibleAmount)
  addLimitOrder { order with amount := visibleAmount }

/-- `add_order`, which has drawn an id. -/
def addOrder (orderId : H256) (order : Order) : Call (Except DexError H256) :=
  let order := { order with id := orderId }
  match order.orderType with
  | .limit => do
    addLimitOrder order
    return .ok orderId
  | .market => return .error .invalidPrice
  | .stopLoss | .takeProfit => return .ok orderId
  | .iceberg visibleAmount => do
    addIcebergOrder order visibleAmount
    return .ok orderId

/-- Take what is filled out of the index. -/
def unlistFilled : List H256 → Call Unit
  | [] => return ()
  | orderId :: filled => do
    .guarded ⟨.orderIndex, .write⟩ (.modify (·.unlist orderId))
    unlistFilled filled

/-- Match a taker with a side of the book. -/
def matchSide (side : OrderSide) (taker : Order) : Call (List Trade) :=
  .guarded ⟨.orders side, .write⟩ do
    let filled ← .get (·.fill side taker)
    .modify (·.setLevels side filled.left)
    -- The guard on the side is held while the index is asked for.
    unlistFilled filled.filled
    return filled.trades

/-- `match_buy_order`. -/
def matchBuyOrder (taker : Order) : Call (List Trade) := matchSide .sell taker

/-- `match_sell_order`. -/
def matchSellOrder (taker : Order) : Call (List Trade) := matchSide .buy taker

section Environment

variable {D : Type} (env : DexEnv D)

/-- The loop of `update_stats`. -/
def recordTrades : List Trade → Call Unit
  | [] => return ()
  | trade :: trades => do
    let volume ← .get (·.stats.volume24h)
    let volume24h ← .orPanic (addU256 volume trade.amount)
    .modify fun book => { book with stats := { book.stats with volume24h } }
    let count ← .get (·.stats.trades24h)
    let trades24h ← .orPanic (env.add64 count 1)
    .modify fun book =>
      { book with stats := book.stats.record trades24h trade.price, lastPrice := trade.price }
    recordTrades trades

/-- `update_stats`. -/
def updateStats (trades : List Trade) : Call Unit :=
  if trades = [] then return ()
  else .guarded ⟨.stats, .write⟩ <| .guarded ⟨.lastPrice, .write⟩ <| recordTrades env trades

/-- `match_order`. -/
def matchOrder (taker : Order) : Call (Except DexError (List Trade)) := do
  let trades ← (match taker.side with
    | .buy => matchBuyOrder taker
    | .sell => matchSellOrder taker)
  updateStats env trades
  return .ok trades

/-- A taker is matched with the other side. -/
theorem matchOrder_eq (taker : Order) :
    matchOrder env taker = matchSide taker.side.other taker >>= fun trades =>
      updateStats env trades >>= fun _ => .ret (.ok trades) := by
  obtain ⟨_, _, side, _, _⟩ := taker
  cases side <;> rfl

/-- `cancel_order`. -/
def cancelOrder (orderId : H256) : Call (Except DexError Unit) :=
  .guarded ⟨.orderIndex, .write⟩ do
    let found ← .get (·.orderIndex.lookup orderId)
    match found with
    | none => return .error .orderNotFound
    | some order => do
      .modify (·.unlist orderId)
      -- The guard on the index is held while the side is asked for.
      .guarded ⟨.orders order.side, .write⟩ (.modify (·.displace order orderId))
      return .ok ()

/-- The depth of some levels; `none` is a panic. -/
def depthOf : Levels → Option (List PriceLevel)
  | [] => some []
  | (price, queue) :: levels => do
    let amount ← queue.foldlM (fun amount order => addU256 amount order.amount) 0
    let depth ← depthOf levels
    return ⟨price, amount, queue.length⟩ :: depth

/-- `get_depth`. -/
def getDepth (levels : Nat) : Call OrderBookDepth :=
  .guarded ⟨.orders .buy, .read⟩ <| .guarded ⟨.orders .sell, .read⟩ do
    let book ← .state
    let bids ← .orPanic (depthOf (book.buyOrders.take levels))
    let asks ← .orPanic (depthOf (book.sellOrders.take levels))
    let lastPrice ← .guarded ⟨.lastPrice, .read⟩ (.get (·.lastPrice))
    return { bids, asks, lastPrice }

end Environment

end OrderBook

/-- A call on the book, with its arguments. -/
inductive BookCall where
  | add (orderId : H256) (order : Order)
  | matching (taker : Order)
  | cancel (orderId : H256)
  | depth (levels : Nat)

/-- What a call on the book returns. -/
inductive BookAnswer where
  | added (result : Except DexError H256)
  | matched (result : Except DexError (List Trade))
  | cancelled (result : Except DexError Unit)
  | depth (result : OrderBookDepth)

/-- What a call on the book runs. -/
def BookCall.routine {D : Type} (env : DexEnv D) : BookCall → OrderBook.Call BookAnswer
  | .add orderId order => .added <$> OrderBook.addOrder orderId order
  | .matching taker => .matched <$> OrderBook.matchOrder env taker
  | .cancel orderId => .cancelled <$> OrderBook.cancelOrder orderId
  | .depth levels => .depth <$> OrderBook.getDepth levels

/-! ## What the samples share -/

/-- A sell order, a cancellation of it, and an order that buys it. -/
def OrderBook.sampleCalls : Fin 3 → BookCall
  | 0 => .add (AmmPool.sampleToken 1) ⟨AmmPool.sampleToken 0, .limit, .sell, 5, 7⟩
  | 1 => .cancel (AmmPool.sampleToken 1)
  | 2 => .matching ⟨AmmPool.sampleToken 2, .limit, .buy, 5, 7⟩

end InterBit.Dex
