import InterBit.Dex.RestingOrders
import InterBit.Lib.Assoc

/-!
# The calls on the book, section by section

What a call does under one lock is one step. `section?` gives the steps of a call, with the phase
that the call is in between two of them, and `rest` what is left of its routine in that phase:
every step does what the routine goes on to do (`section_rest`). A call that keeps a lock for its
next step may be interrupted here as well, so that these are all the interleavings, and more.
-/

namespace InterBit.Dex.OrderBook

open InterBit.Lib

/-- How far a call has come. -/
inductive Phase where
  | called (call : BookCall)
  /-- `add_order` has put the order in the index. -/
  | listed (order : Order)
  /-- `cancel_order` has taken the order out of the index. -/
  | unlisted (order : Order) (orderId : H256)
  /-- `match_order` has filled what was there, and some of it is still in the index. -/
  | filling (trades : List Trade) (filled : List H256)
  | returned (answer : BookAnswer)
  | panicked

section Steps

variable {D : Type} (env : DexEnv D)

/-- What is left of a call. -/
def rest : Phase → Call BookAnswer
  | .called call => call.routine env
  | .listed order => do
    .guarded ⟨.orders order.side, .write⟩ (.modify (·.place order))
    return .added (.ok order.id)
  | .unlisted order orderId => do
    .guarded ⟨.orders order.side, .write⟩ (.modify (·.displace order orderId))
    return .cancelled (.ok ())
  | .filling trades filled => do
    unlistFilled filled
    updateStats env trades
    return .matched (.ok trades)
  | .returned answer => return answer
  | .panicked => .panic

/-- The end of a call that has run to its end. -/
def ended {α : Type} (answer : α → BookAnswer) : Ending BookLock α × OrderBook → OrderBook × Phase
  | (.returned a, book) => (book, .returned (answer a))
  | (_, book) => (book, .panicked)

/-- The first section of `add_order`. -/
def addSection (book : OrderBook) (order : Order) : OrderBook × Phase :=
  match order.orderType with
  | .limit => (book.list order, .listed order)
  | .market => (book, .returned (.added (.error .invalidPrice)))
  | .stopLoss | .takeProfit => (book, .returned (.added (.ok order.id)))
  | .iceberg visibleAmount =>
    if (subU256 order.amount visibleAmount).isSome then
      let order := { order with amount := visibleAmount }
      (book.list order, .listed order)
    else (book, .panicked)

/-- The first section of a call. -/
def callSection (book : OrderBook) : BookCall → OrderBook × Phase
  | .add orderId order => addSection book { order with id := orderId }
  | .matching taker =>
    let filled := book.fill taker.side.other taker
    (book.setLevels taker.side.other filled.left, .filling filled.trades filled.filled)
  | .cancel orderId =>
    match book.orderIndex.lookup orderId with
    | none => (book, .returned (.cancelled (.error .orderNotFound)))
    | some order => (book.unlist orderId, .unlisted order orderId)
  | .depth levels => ended .depth ((getDepth levels).reentrant book)

/-- The next section of a call, which has come so far. -/
def section? (book : OrderBook) : Phase → Option (OrderBook × Phase)
  | .called call => some (callSection book call)
  | .listed order => some (book.place order, .returned (.added (.ok order.id)))
  | .unlisted order orderId => some (book.displace order orderId, .returned (.cancelled (.ok ())))
  | .filling trades (orderId :: filled) => some (book.unlist orderId, .filling trades filled)
  | .filling trades [] =>
    some (ended (fun _ => .matched (.ok trades)) ((updateStats env trades).reentrant book))
  | .returned _ => none
  | .panicked => none

/-! ## What the statistics and the depth leave alone -/

/-- The books are the same but for the statistics. -/
structure SameOrders (book book' : OrderBook) : Prop where
  levels : ∀ side, book'.levels side = book.levels side
  orderIndex : book'.orderIndex = book.orderIndex

theorem SameOrders.trans {book book' book'' : OrderBook} (h : SameOrders book book')
    (h' : SameOrders book' book'') : SameOrders book book'' :=
  ⟨fun side => (h'.levels side).trans (h.levels side), h'.orderIndex.trans h.orderIndex⟩

theorem SameOrders.orders_eq {book book' : OrderBook} (h : SameOrders book book') :
    book'.orders = book.orders :=
  congrArg₂ (fun buy sell => resting buy ++ resting sell) (h.levels .buy) (h.levels .sell)

/-- To record trades leaves the orders alone. -/
theorem recordTrades_spec (trades : List Trade) (held : List (Guard BookLock)) (book : OrderBook) :
    Routine.Ensures true (recordTrades env trades) held book fun e book' =>
      SameOrders book book' ∧ (e = .returned () ∨ e = .panicked) := by
  have hsame : ∀ (stats : MarketStats) (lastPrice : U256),
      SameOrders book { book with stats, lastPrice } := fun _ _ =>
    ⟨fun side => by cases side <;> rfl, rfl⟩
  induction trades generalizing book with
  | nil => exact Routine.ensures_ret ⟨hsame _ _, Or.inl rfl⟩
  | cons trade trades ih =>
    refine Routine.ensures_get (Routine.ensures_orPanic (fun _ => ⟨hsame _ _, Or.inr rfl⟩)
      fun volume24h _ => ?_)
    refine Routine.ensures_modify (Routine.ensures_get (Routine.ensures_orPanic
      (fun _ => ⟨hsame _ _, Or.inr rfl⟩) fun trades24h _ => ?_))
    refine Routine.ensures_modify ((ih _ ?_).mono fun e book' h => ⟨(hsame _ _).trans h.1, h.2⟩)
    exact fun _ _ => ⟨fun side => by cases side <;> rfl, rfl⟩

/-- The update of the statistics leaves the orders alone. -/
theorem updateStats_spec (trades : List Trade) (book : OrderBook) :
    SameOrders book ((updateStats env trades).reentrant book).2 ∧
      (((updateStats env trades).reentrant book).1 = .returned () ∨
        ((updateStats env trades).reentrant book).1 = .panicked) := by
  show Routine.Ensures true (updateStats env trades) [] book fun e book' =>
    SameOrders book book' ∧ (e = .returned () ∨ e = .panicked)
  unfold updateStats
  split
  next => exact Routine.ensures_ret ⟨⟨fun _ => rfl, rfl⟩, Or.inl rfl⟩
  next =>
    exact Routine.ensures_guarded (Or.inl rfl)
      (Routine.ensures_guarded (Or.inl rfl) (recordTrades_spec env trades _ book))

/-- `get_depth` leaves the book as it is. -/
theorem getDepth_spec (levels : Nat) (book : OrderBook) :
    ((getDepth levels).reentrant book).2 = book ∧
      ((∃ depth, ((getDepth levels).reentrant book).1 = .returned depth) ∨
        ((getDepth levels).reentrant book).1 = .panicked) := by
  show Routine.Ensures true (getDepth levels) [] book fun e book' =>
    book' = book ∧ ((∃ depth, e = .returned depth) ∨ e = .panicked)
  refine Routine.ensures_guarded (Or.inl rfl) (Routine.ensures_guarded (Or.inl rfl)
    (Routine.ensures_state ?_))
  refine Routine.ensures_orPanic (fun _ => ⟨rfl, Or.inr rfl⟩) fun bids _ => ?_
  refine Routine.ensures_orPanic (fun _ => ⟨rfl, Or.inr rfl⟩) fun asks _ => ?_
  exact Routine.ensures_peek (fun _ => ⟨rfl, Or.inl ⟨_, rfl⟩⟩) fun h => absurd h (by decide)

/-- A call that has run to its end has nothing left to do. -/
theorem ended_rest {α : Type} {answer : α → BookAnswer} {r : Ending BookLock α × OrderBook}
    (h : (∃ a, r.1 = .returned a) ∨ r.1 = .panicked) :
    Routine.andThen r (fun a book => (.returned (answer a), book))
      = (rest env (ended answer r).2).reentrant (ended answer r).1 := by
  obtain ⟨e, book⟩ := r
  obtain ⟨a, rfl⟩ | rfl : (∃ a, e = .returned a) ∨ e = .panicked := h
  · rfl
  · rfl

/-! ## A section is what the routine does next -/

theorem reentrant_unlistFilled (filled : List H256) (book : OrderBook) :
    (unlistFilled filled).reentrant book = (.returned (), filled.foldl unlist book) := by
  induction filled generalizing book with
  | nil => rfl
  | cons orderId filled ih =>
    rw [unlistFilled, Routine.reentrant_bind, Routine.reentrant_guarded, Routine.reentrant_modify]
    exact ih _

/-- What is left of a match does the same as its parts, one after the other. -/
theorem rest_filling (trades : List Trade) (filled : List H256) (book : OrderBook) :
    (rest env (.filling trades filled)).reentrant book
      = Routine.andThen ((updateStats env trades).reentrant (filled.foldl unlist book))
          fun _ book => (.returned (.matched (.ok trades)), book) := by
  rw [rest, Routine.reentrant_bind, reentrant_unlistFilled]
  exact Routine.reentrant_bind ..

theorem reentrant_matchSide (side : OrderSide) (taker : Order) (book : OrderBook) :
    (matchSide side taker).reentrant book = (.returned (book.fill side taker).trades,
      (book.fill side taker).filled.foldl unlist (book.setLevels side (book.fill side taker).left)) := by
  rw [matchSide, Routine.reentrant_guarded, Routine.reentrant_bind, Routine.reentrant_get]
  show Routine.reentrant (unlistFilled (book.fill side taker).filled >>=
    fun _ => .ret (book.fill side taker).trades) _ = _
  rw [Routine.reentrant_bind, reentrant_unlistFilled]
  rfl

/-- After its first section a call does what is left of it. -/
theorem callSection_rest (call : BookCall) (book : OrderBook) :
    (call.routine env).reentrant book
      = (rest env (callSection book call).2).reentrant (callSection book call).1 := by
  cases call with
  | add orderId order =>
    rw [BookCall.routine, Routine.reentrant_map]
    obtain ⟨_, orderType, side, amount, price⟩ := order
    cases orderType with
    | limit | market | stopLoss | takeProfit => rfl
    | iceberg visibleAmount =>
      dsimp only [addOrder, addIcebergOrder, callSection, addSection]
      cases subU256 amount visibleAmount <;> rfl
  | matching taker =>
    rw [BookCall.routine, Routine.reentrant_map, matchOrder_eq, Routine.reentrant_bind,
      reentrant_matchSide, callSection, rest_filling]
    generalize (book.fill taker.side.other taker).trades = trades
    generalize List.foldl unlist _ _ = book'
    rw [Routine.andThen, Routine.reentrant_bind]
    rcases (updateStats env trades).reentrant book' with ⟨_ | _ | _ | _, _⟩ <;> rfl
  | cancel orderId =>
    rw [BookCall.routine, Routine.reentrant_map, cancelOrder, Routine.reentrant_guarded,
      Routine.reentrant_bind, Routine.reentrant_get, callSection]
    dsimp only [Routine.andThen]
    cases book.orderIndex.lookup orderId <;> rfl
  | depth levels =>
    rw [BookCall.routine, Routine.reentrant_map]
    exact ended_rest env (getDepth_spec levels book).2

/-- After every later section, too, a call does what is left of it. -/
theorem section_rest {book : OrderBook} {phase : Phase} {next : OrderBook × Phase}
    (h : section? env book phase = some next) :
    (rest env phase).reentrant book = (rest env next.2).reentrant next.1 := by
  cases phase with
  | called call =>
    obtain rfl := Option.some.inj h
    exact callSection_rest env call book
  | listed order | unlisted order orderId =>
    -- the last section of the call
    obtain rfl := Option.some.inj h
    rfl
  | filling trades filled =>
    cases filled with
    | nil =>
      -- nothing is left but the statistics
      obtain rfl := Option.some.inj h
      rw [rest_filling]
      obtain h | h := (updateStats_spec env trades book).2
      · exact ended_rest env (Or.inl ⟨_, h⟩)
      · exact ended_rest env (Or.inr h)
    | cons orderId filled =>
      obtain rfl := Option.some.inj h
      rw [rest_filling, rest_filling, List.foldl_cons]
  | returned answer => cases h
  | panicked => cases h

end Steps

/-! ## What a section can do -/

/-- The call has come to an end. -/
def Phase.Idle : Phase → Prop
  | .returned _ => True
  | .panicked => True
  | _ => False

/-- The trades of a match so far. -/
def Phase.trades : Phase → List Trade
  | .filling trades _ => trades
  | .returned (.matched (.ok trades)) => trades
  | _ => []

/-- What a section does to the book, and which phase it leads to. -/
inductive Section (book : OrderBook) : Phase → OrderBook → Phase → Prop
  | list {orderId : H256} {asked order : Order} : order.id = orderId → order.side = asked.side →
      order.price = asked.price →
      Section book (.called (.add orderId asked)) (book.list order) (.listed order)
  | place {order : Order} :
      Section book (.listed order) (book.place order) (.returned (.added (.ok order.id)))
  | unlist {orderId : H256} {order : Order} : book.orderIndex.lookup orderId = some order →
      Section book (.called (.cancel orderId)) (book.unlist orderId) (.unlisted order orderId)
  | displace {order : Order} {orderId : H256} :
      Section book (.unlisted order orderId) (book.displace order orderId)
        (.returned (.cancelled (.ok ())))
  | fill {taker : Order} :
      Section book (.called (.matching taker))
        (book.setLevels taker.side.other (book.fill taker.side.other taker).left)
        (.filling (book.fill taker.side.other taker).trades (book.fill taker.side.other taker).filled)
  | forget {trades : List Trade} {orderId : H256} {filled : List H256} :
      Section book (.filling trades (orderId :: filled)) (book.unlist orderId)
        (.filling trades filled)
  /-- The call ends, without a change to the orders. -/
  | close {phase phase' : Phase} {book' : OrderBook} : SameOrders book book' → phase'.Idle →
      phase' ≠ .returned (.cancelled (.ok ())) → (∀ trade ∈ phase'.trades, trade ∈ phase.trades) →
      (∀ order, phase ≠ .listed order) → (∀ order orderId, phase ≠ .unlisted order orderId) →
      (∀ trades orderId filled, phase ≠ .filling trades (orderId :: filled)) →
      Section book phase book' phase'

theorem sameOrders_refl (book : OrderBook) : SameOrders book book := ⟨fun _ => rfl, rfl⟩

/-- What a section does, as a relation. -/
theorem section_spec {D : Type} {env : DexEnv D} {book : OrderBook} {phase : Phase}
    {next : OrderBook × Phase} (h : section? env book phase = some next) :
    Section book phase next.1 next.2 := by
  -- The end of a call that has not begun to change the book.
  have hclose : ∀ {call : BookCall} {phase' : Phase}, phase'.Idle →
      phase' ≠ .returned (.cancelled (.ok ())) → phase'.trades = [] →
      Section book (.called call) book phase' := by
    intro call phase' hidle hcancelled htrades
    refine .close (sameOrders_refl book) hidle hcancelled ?_ ?_ ?_ ?_
    · rw [htrades]
      exact fun _ h => (nomatch h)
    · exact fun _ h => (nomatch h)
    · exact fun _ _ h => (nomatch h)
    · exact fun _ _ _ h => (nomatch h)
  cases phase with
  | called call =>
    obtain rfl := Option.some.inj h
    cases call with
    | add orderId order =>
      obtain ⟨_, orderType, side, amount, price⟩ := order
      cases orderType with
      | limit => exact .list rfl rfl rfl
      | market | stopLoss | takeProfit => exact hclose trivial (fun h => nomatch h) rfl
      | iceberg visibleAmount =>
        -- only the visible amount is listed
        dsimp only [callSection, addSection]
        split
        next => exact .list rfl rfl rfl
        next => exact hclose trivial (fun h => nomatch h) rfl
    | matching taker => exact .fill
    | cancel orderId =>
      rw [callSection]
      cases hfound : book.orderIndex.lookup orderId with
      | none => exact hclose trivial (fun h => nomatch h) rfl
      | some order => exact .unlist hfound
    | depth levels =>
      obtain ⟨hbook, he⟩ := getDepth_spec levels book
      rw [callSection]
      generalize (getDepth levels).reentrant book = r at hbook he ⊢
      obtain ⟨e, book'⟩ := r
      obtain rfl : book' = book := hbook
      obtain ⟨depth, rfl⟩ | rfl : (∃ depth, e = .returned depth) ∨ e = .panicked := he
      · exact hclose trivial (fun h => nomatch h) rfl
      · exact hclose trivial (fun h => nomatch h) rfl
  | listed order =>
    obtain rfl := Option.some.inj h
    exact .place
  | unlisted order orderId =>
    obtain rfl := Option.some.inj h
    exact .displace
  | filling trades filled =>
    cases filled with
    | nil =>
      obtain rfl := Option.some.inj h
      obtain ⟨hsame, he⟩ := updateStats_spec env trades book
      have hclose : ∀ {book' : OrderBook} {phase' : Phase}, SameOrders book book' → phase'.Idle →
          phase' ≠ .returned (.cancelled (.ok ())) → (∀ trade ∈ phase'.trades, trade ∈ trades) →
          Section book (.filling trades []) book' phase' := fun hsame hidle hcancelled htrades =>
        .close hsame hidle hcancelled htrades (fun _ h => nomatch h) (fun _ _ h => nomatch h)
          fun _ _ _ h => nomatch h
      generalize (updateStats env trades).reentrant book = r at hsame he ⊢
      obtain ⟨e, book'⟩ := r
      obtain rfl | rfl : e = .returned () ∨ e = .panicked := he
      · exact hclose hsame trivial (fun h => nomatch h) fun _ => id
      · exact hclose hsame trivial (fun h => nomatch h) fun _ h => (nomatch h)
    | cons orderId filled =>
      obtain rfl := Option.some.inj h
      exact .forget
  | returned answer => cases h
  | panicked => cases h

/-! ### What every section keeps -/

section Kept

variable {book book' : OrderBook} {phase phase' : Phase}

theorem Section.placed (h : Section book phase book' phase') (hplaced : book.Placed) :
    book'.Placed := by
  cases h with
  | place => exact hplaced.place _
  | displace => exact hplaced.displace _ _
  | fill => exact hplaced.fill _ _
  | list | unlist | forget => exact fun side => by cases side <;> exact hplaced _
  | close hsame =>
    intro side
    rw [hsame.levels]
    exact hplaced side

/-- What is true of every order, whatever its amount, stays true if it is true of new ones. -/
theorem Section.orders {P : Order → Prop} (h : Section book phase book' phase')
    (hplaced : book.Placed) (hP : ∀ order amount, P order → P { order with amount })
    (horders : ∀ order ∈ book.orders, P order) (hnew : ∀ order, phase = .listed order → P order) :
    ∀ order ∈ book'.orders, P order := by
  cases h with
  | @place order =>
    intro order' hmem
    obtain rfl | hmem := mem_orders_place hmem
    · exact hnew _ rfl
    · exact horders order' hmem
  | displace => exact fun order' hmem => horders order' (mem_orders_displace hplaced hmem)
  | fill => exact orders_fill hP horders _ _
  | list | unlist | forget => exact horders
  | close hsame =>
    rw [hsame.orders_eq]
    exact horders

theorem Section.lookup (h : Section book phase book' phase') {id : H256} {order : Order}
    (hlookup : book'.orderIndex.lookup id = some order) :
    book.orderIndex.lookup id = some order ∨ (order.id = id ∧ phase' = .listed order) := by
  cases h with
  | @list _ _ order' =>
    rw [OrderBook.list] at hlookup
    rcases lookup_insert_eq_some.mp hlookup with ⟨heq, rfl⟩ | ⟨_, hold⟩
    · exact Or.inr ⟨heq.symm, rfl⟩
    · exact Or.inl hold
  | @unlist orderId | @forget _ orderId =>
    rw [OrderBook.unlist] at hlookup
    by_cases heq : id = orderId
    · rw [heq, AList.lookup_erase] at hlookup
      cases hlookup
    · rw [AList.lookup_erase_ne heq] at hlookup
      exact Or.inl hlookup
  | place =>
    rw [OrderBook.place, orderIndex_setLevels] at hlookup
    exact Or.inl hlookup
  | displace =>
    rw [OrderBook.displace, orderIndex_setLevels] at hlookup
    exact Or.inl hlookup
  | fill =>
    rw [orderIndex_setLevels] at hlookup
    exact Or.inl hlookup
  | close hsame =>
    rw [hsame.orderIndex] at hlookup
    exact Or.inl hlookup

/-- New trades are with what rests in the book. -/
theorem Section.trades (h : Section book phase book' phase') {trade : Trade}
    (htrade : trade ∈ phase'.trades) :
    trade ∈ phase.trades ∨ 0 < book.restingCount trade.makerOrderId := by
  cases h with
  | list | place | unlist | displace => cases htrade
  | fill => exact Or.inr (fill_makers book _ _ trade htrade)
  | forget => exact Or.inl htrade
  | close _ _ _ htrades => exact Or.inl (htrades trade htrade)

end Kept

end InterBit.Dex.OrderBook
