import InterBit.Defi.OpenInterest
import InterBit.Lib.Locks

/-!
# The locks of the perpetual contracts

The calls of `defi/perpetual.rs` with their guards, as routines. Whoever closes a position, adds
collateral or liquidates takes the positions before the markets, and only `open_position` takes
them the other way round. It also keeps its guard of the markets while `update_funding_rate` asks
for them again. `circular_iff` says that these two are all that can go wrong.
-/

namespace InterBit.Defi

open InterBit.Lib

/-- The locks of `PerpetualEngine`. -/
inductive PerpetualLock where
  | markets
  | positions
  | fundingRates
  | insuranceFund
  deriving DecidableEq

/-- A call that takes the locks one after another. -/
abbrev PerpetualEngine.Call := Routine PerpetualLock PerpetualEngine

/-- What a call of the engine returns. -/
inductive PerpetualAnswer where
  | marketCreated (result : Except DeFiError H256)
  | opened (result : Except DeFiError H256)
  | closed (result : Except DeFiError ClosedPositionResult)
  | liquidated (result : Except DeFiError U256)
  | collateralAdded (result : Except DeFiError Unit)

namespace PerpetualEngine

/-! ## The calls with their guards -/

/-- `create_market`. -/
def createMarketLocked (env : Env) (marketId baseToken quoteToken : H256) (maxLeverage : U32)
    (now : Seconds) : Call (Except DeFiError H256) := do
  let made ← .get fun engine =>
    newMarket env engine.config marketId baseToken quoteToken maxLeverage now
  let market ← .orPanic made
  .guarded ⟨.markets, .write⟩ (.modify (·.setMarket marketId market))
  return .ok marketId

/-- The open interest goes up; `none` is a panic. -/
def raiseInterest (marketId : H256) (isLong : Bool) (size : U256) (engine : PerpetualEngine) :
    PerpetualEngine × Option Unit :=
  match engine.addInterest marketId isLong size with
  | none => (engine, none)
  | some engine => (engine, some ())

/-- `update_funding_rate`. -/
def updateFundingRateLocked (env : Env) (marketId rateId : H256) (now : Seconds) :
    Call (Except DeFiError Unit) :=
  .guarded ⟨.markets, .write⟩ do
    let engine ← .state
    match engine.markets.lookup marketId with
    | none => return .error .marketClosed
    | some market =>
      if market.nextFundingTime ≤ now.val then do
        let fundingRate ← .orPanic (nextFundingRate env market)
        .modify (·.setMarket marketId { market with fundingRate })
        let nextFundingTime ← .orPanic (env.add64 now.val engine.config.fundingInterval)
        .modify (·.setMarket marketId { market with fundingRate, nextFundingTime })
        .guarded ⟨.fundingRates, .write⟩ (.modify fun engine =>
          { engine with
            fundingRates := engine.fundingRates.insert rateId
              { marketId
                rate := fundingRate
                timestamp := now.val
                longOpenInterest := market.openInterestLong
                shortOpenInterest := market.openInterestShort } })
        return .ok ()
      else return .ok ()

/-- `open_position`. -/
def openPositionLocked (env : Env) (trader : Address) (marketId : H256) (size : U256)
    (leverage : U32) (isLong : Bool) (draw : OpenDraw) : Call (Except DeFiError H256) := do
  let checked ← .guarded ⟨.markets, .read⟩
    (.get (·.newPosition trader marketId size leverage isLong draw))
  match ← .orPanic checked with
  | .error error => return .error error
  | .ok position =>
    -- The guard on the markets is held to the end.
    .guarded ⟨.markets, .write⟩ do
      .perform (raiseInterest marketId isLong size)
      .guarded ⟨.positions, .write⟩ do
        .modify fun engine =>
          { engine with positions := engine.positions.insert draw.positionId position }
        let updated ← updateFundingRateLocked env marketId draw.rateId draw.now
        return updated.map fun _ => draw.positionId

/-- What `close_position` computes while it reads the markets. -/
def closingIn (env : Env) (engine : PerpetualEngine) (position : Position) (positionId : H256)
    (now : Seconds) : Outcome ClosedPositionResult :=
  match engine.markets.lookup position.marketId with
  | none => some (.error .marketClosed)
  | some market => (closedResult env engine.config position market positionId now).map .ok

/-- `close_position`. -/
def closePositionLocked (env : Env) (trader : Address) (positionId : H256) (now : Seconds) :
    Call (Except DeFiError ClosedPositionResult) :=
  .guarded ⟨.positions, .write⟩ do
    match ← .get (·.positions.lookup positionId) with
    | none => return .error .positionNotFound
    | some position =>
      if position.trader ≠ trader then return .error .unauthorized
      else do
        let checked ← .guarded ⟨.markets, .read⟩ (.get (·.closingIn env position positionId now))
        match ← .orPanic checked with
        | .error error => return .error error
        | .ok result =>
          .guarded ⟨.markets, .write⟩ do
            .modify (·.subInterest position)
            .modify (·.removePosition positionId)
            return .ok result

/-- What `liquidate_position` checks and computes while it reads the markets. -/
def liquidationOf (engine : PerpetualEngine) (position : Position) : Outcome (U256 × U256) :=
  match engine.markets.lookup position.marketId with
  | none => some (.error .marketClosed)
  | some market =>
    if (if position.isLong then market.markPrice ≤ position.liquidationPrice
        else position.liquidationPrice ≤ market.markPrice) then
      (liquidationShares engine.config position).map .ok
    else some (.error .positionHealthy)

/-- The insurance fund gets a contribution, and the position goes. -/
def payOut (positionId : H256) (insuranceContribution : U256) : Call Unit :=
  .guarded ⟨.insuranceFund, .write⟩ do
    .perform (·.contribute insuranceContribution)
    .guarded ⟨.positions, .write⟩ (.modify (·.removePosition positionId))

/-- `liquidate_position`. -/
def liquidatePositionLocked (positionId : H256) : Call (Except DeFiError U256) :=
  .acquire ⟨.positions, .read⟩ do
    match ← .get (·.positions.lookup positionId) with
    | none => .release ⟨.positions, .read⟩ (.ret (.error .positionNotFound))
    | some position =>
      .acquire ⟨.markets, .read⟩ do
        match ← .orPanic (← .get (·.liquidationOf position)) with
        | .error error =>
          .release ⟨.markets, .read⟩ (.release ⟨.positions, .read⟩ (.ret (.error error)))
        | .ok (liquidatorReward, insuranceContribution) =>
          .release ⟨.positions, .read⟩ (.release ⟨.markets, .read⟩ do
            payOut positionId insuranceContribution
            return .ok liquidatorReward)

/-- `add_collateral`. -/
def addCollateralLocked (trader : Address) (positionId : H256) (amount : U256) :
    Call (Except DeFiError Unit) :=
  .guarded ⟨.positions, .write⟩ do
    match ← .get (·.positions.lookup positionId) with
    | none => return .error .positionNotFound
    | some position =>
      if position.trader ≠ trader then return .error .unauthorized
      else do
        let collateral ← .orPanic (addU256 position.collateral amount)
        let position := { position with collateral }
        .modify fun engine => { engine with positions := engine.positions.insert positionId position }
        .guarded ⟨.markets, .read⟩ do
          match ← .get (·.markets.lookup position.marketId) with
          | none => return .error .marketClosed
          | some market => do
            let liquidationPrice ← .orPanic (calculateLiquidationPrice position.entryPrice
              position.leverage position.isLong market.maintenanceMarginRatio)
            .modify fun engine =>
              { engine with
                positions := engine.positions.insert positionId { position with liquidationPrice } }
            return .ok ()

/-! ## The calls without their guards -/

theorem setMarket_setMarket (engine : PerpetualEngine) (marketId : H256)
    (market market' : PerpetualMarket) :
    (engine.setMarket marketId market).setMarket marketId market'
      = engine.setMarket marketId market' := by
  unfold setMarket
  rw [AList.insert_insert]

variable (env : Env) (engine : PerpetualEngine)

theorem createMarket_reentrant (marketId baseToken quoteToken : H256) (maxLeverage : U32)
    (now : Seconds) :
    (createMarketLocked env marketId baseToken quoteToken maxLeverage now).reentrant engine
      = Routine.ended (engine.createMarket env marketId baseToken quoteToken maxLeverage now) := by
  unfold createMarketLocked createMarket
  simp only [Routine.reentrant_bind, Routine.reentrant_get, Routine.andThen,
    Routine.reentrant_orPanic]
  cases newMarket env engine.config marketId baseToken quoteToken maxLeverage now with
  | none => rfl
  | some market => rfl

theorem updateFundingRate_reentrant (marketId rateId : H256) (now : Seconds) :
    (updateFundingRateLocked env marketId rateId now).reentrant engine
      = Routine.ended (engine.updateFundingRate env marketId rateId now) := by
  unfold updateFundingRateLocked updateFundingRate
  simp only [Routine.reentrant_guarded, Routine.reentrant_bind, Routine.reentrant_state,
    Routine.andThen]
  cases engine.markets.lookup marketId with
  | none => rfl
  | some market =>
    dsimp only
    split
    next =>
      cases nextFundingRate env market with
      | none => rfl
      | some fundingRate =>
        -- the rate is written before the overflow of the next funding time can panic
        cases hnext : env.add64 now.val engine.config.fundingInterval with
        | none => rfl
        | some nextFundingTime =>
          have htwice := engine.setMarket_setMarket marketId { market with fundingRate }
            { market with fundingRate, nextFundingTime }
          simp only [Routine.reentrant_guarded, Routine.reentrant_bind, Routine.reentrant_modify,
            Routine.reentrant_orPanic, Routine.andThen, Routine.ended, htwice]
          rfl
    next => rfl

theorem openPosition_reentrant (trader : Address) (marketId : H256) (size : U256)
    (leverage : U32) (isLong : Bool) (draw : OpenDraw) :
    (openPositionLocked env trader marketId size leverage isLong draw).reentrant engine
      = Routine.ended (engine.openPosition env trader marketId size leverage isLong draw) := by
  unfold openPositionLocked openPosition
  simp only [Routine.reentrant_bind, Routine.reentrant_guarded, Routine.reentrant_get,
    Routine.andThen, Routine.reentrant_orPanic]
  rcases engine.newPosition trader marketId size leverage isLong draw with _ | error | position
  · rfl
  · rfl
  · simp only [Routine.ended, Routine.reentrant_bind, Routine.reentrant_guarded,
      Routine.reentrant_perform, raiseInterest]
    cases engine.addInterest marketId isLong size with
    | none => rfl
    | some raised =>
      simp only [Routine.ended, Routine.andThen, Routine.reentrant_modify,
        updateFundingRate_reentrant]
      generalize PerpetualEngine.updateFundingRate _ _ _ _ _ = updated
      rcases updated with ⟨updated, _ | error | _⟩
      · rfl
      · rfl
      · rfl

/-- With re-entrant locks the sections of `close_position` are the call. -/
theorem closePosition_reentrant (trader : Address) (positionId : H256) (now : Seconds) :
    (closePositionLocked env trader positionId now).reentrant engine
      = Routine.ended (engine.closePosition env trader positionId now) := by
  unfold closePositionLocked closePosition closing
  simp only [Routine.reentrant_guarded, Routine.reentrant_bind, Routine.reentrant_get,
    Routine.andThen]
  cases engine.positions.lookup positionId with
  | none => rfl
  | some position =>
    dsimp only
    split
    next => rfl
    next =>
      simp only [Routine.reentrant_guarded, Routine.reentrant_bind, Routine.reentrant_get,
        Routine.andThen, closingIn]
      cases engine.markets.lookup position.marketId with
      | none => rfl
      | some market =>
        dsimp only
        cases closedResult env engine.config position market positionId now with
        | none => rfl
        | some result => rfl

theorem payOut_reentrant (positionId : H256) (contribution : U256) :
    (payOut positionId contribution).reentrant engine
      = match engine.contribute contribution with
        | (engine, none) => (.panicked, engine)
        | (engine, some ()) => (.returned (), engine.removePosition positionId) := by
  unfold payOut
  simp only [Routine.reentrant_guarded, Routine.reentrant_bind, Routine.reentrant_perform,
    Routine.reentrant_modify]
  rcases engine.contribute contribution with ⟨contributed, _ | _⟩
  · rfl
  · rfl

theorem liquidatePosition_reentrant (liquidator : Address) (positionId : H256) :
    (liquidatePositionLocked positionId).reentrant engine
      = Routine.ended (engine.liquidatePosition liquidator positionId) := by
  unfold liquidatePositionLocked liquidatePosition
  simp only [Routine.reentrant_acquire, Routine.reentrant_bind, Routine.reentrant_get,
    Routine.andThen]
  cases hposition : engine.positions.lookup positionId with
  | none =>
    simp only [liquidation, hposition]
    rfl
  | some position =>
    have hsame : engine.liquidation positionId = engine.liquidationOf position := by
      simp only [liquidation, hposition]
      rfl
    simp only [Routine.reentrant_acquire, Routine.reentrant_bind, Routine.reentrant_get,
      Routine.andThen, hsame, Routine.reentrant_orPanic]
    rcases engine.liquidationOf position with _ | error | ⟨reward, contribution⟩
    · rfl
    · rfl
    · simp only [Routine.ended, Routine.reentrant_release, Routine.reentrant_bind,
        payOut_reentrant]
      rcases engine.contribute contribution with ⟨contributed, _ | _⟩
      · rfl
      · rfl

/-- With re-entrant locks the sections of `add_collateral` are the call. -/
theorem addCollateral_reentrant (trader : Address) (positionId : H256) (amount : U256) :
    (addCollateralLocked trader positionId amount).reentrant engine
      = Routine.ended (engine.addCollateral trader positionId amount) := by
  unfold addCollateralLocked addCollateral
  simp only [Routine.reentrant_guarded, Routine.reentrant_bind, Routine.reentrant_get,
    Routine.andThen]
  cases engine.positions.lookup positionId with
  | none => rfl
  | some position =>
    dsimp only
    split
    next => rfl
    next =>
      cases addU256 position.collateral amount with
      | none => rfl
      | some collateral =>
        simp only [Routine.reentrant_orPanic, Routine.ended, Routine.reentrant_bind,
          Routine.reentrant_modify, Routine.reentrant_guarded, Routine.reentrant_get,
          Routine.andThen]
        cases engine.markets.lookup position.marketId with
        | none => rfl
        | some market =>
          dsimp only
          cases calculateLiquidationPrice position.entryPrice position.leverage position.isLong
            market.maintenanceMarginRatio with
          | none => rfl
          | some liquidationPrice => rfl

end PerpetualEngine

/-- The call as it runs. -/
def PerpetualCall.routine (env : Env) : PerpetualCall → PerpetualEngine.Call PerpetualAnswer
  | .createMarket marketId baseToken quoteToken maxLeverage now =>
    .marketCreated <$>
      PerpetualEngine.createMarketLocked env marketId baseToken quoteToken maxLeverage now
  | .openPosition trader marketId size leverage isLong draw =>
    .opened <$> PerpetualEngine.openPositionLocked env trader marketId size leverage isLong draw
  | .closePosition trader positionId now =>
    .closed <$> PerpetualEngine.closePositionLocked env trader positionId now
  | .liquidatePosition _ positionId =>
    .liquidated <$> PerpetualEngine.liquidatePositionLocked positionId
  | .addCollateral trader positionId amount =>
    .collateralAdded <$> PerpetualEngine.addCollateralLocked trader positionId amount

/-- The call opens a position. -/
def PerpetualCall.Opens : PerpetualCall → Prop
  | .openPosition .. => True
  | _ => False

namespace PerpetualEngine

/-! ## What each call takes -/

/-- What a call holds when it asks for a lock. -/
inductive Asking : PerpetualCall → List (Guard PerpetualLock) → Guard PerpetualLock → Prop
  | createMarkets {marketId baseToken quoteToken maxLeverage now} :
      Asking (.createMarket marketId baseToken quoteToken maxLeverage now) [] ⟨.markets, .write⟩
  | openCheck {trader marketId size leverage isLong draw} :
      Asking (.openPosition trader marketId size leverage isLong draw) [] ⟨.markets, .read⟩
  | openMarkets {trader marketId size leverage isLong draw} :
      Asking (.openPosition trader marketId size leverage isLong draw) [] ⟨.markets, .write⟩
  | openPositions {trader marketId size leverage isLong draw} :
      Asking (.openPosition trader marketId size leverage isLong draw)
        [⟨.markets, .write⟩] ⟨.positions, .write⟩
  | openUpdate {trader marketId size leverage isLong draw} :
      Asking (.openPosition trader marketId size leverage isLong draw)
        [⟨.positions, .write⟩, ⟨.markets, .write⟩] ⟨.markets, .write⟩
  | openRates {trader marketId size leverage isLong draw} :
      Asking (.openPosition trader marketId size leverage isLong draw)
        [⟨.markets, .write⟩, ⟨.positions, .write⟩, ⟨.markets, .write⟩] ⟨.fundingRates, .write⟩
  | closePositions {trader positionId now} :
      Asking (.closePosition trader positionId now) [] ⟨.positions, .write⟩
  | closeMarkets {trader positionId now mode} :
      Asking (.closePosition trader positionId now) [⟨.positions, .write⟩] ⟨.markets, mode⟩
  | liquidateCheck {liquidator positionId} :
      Asking (.liquidatePosition liquidator positionId) [] ⟨.positions, .read⟩
  | liquidateMarkets {liquidator positionId} :
      Asking (.liquidatePosition liquidator positionId) [⟨.positions, .read⟩] ⟨.markets, .read⟩
  | liquidateInsurance {liquidator positionId} :
      Asking (.liquidatePosition liquidator positionId) [] ⟨.insuranceFund, .write⟩
  | liquidatePositions {liquidator positionId} :
      Asking (.liquidatePosition liquidator positionId)
        [⟨.insuranceFund, .write⟩] ⟨.positions, .write⟩
  | addPositions {trader positionId amount} :
      Asking (.addCollateral trader positionId amount) [] ⟨.positions, .write⟩
  | addMarkets {trader positionId amount} :
      Asking (.addCollateral trader positionId amount) [⟨.positions, .write⟩] ⟨.markets, .read⟩

theorem follows_updateFundingRate {P : List (Guard PerpetualLock) → Guard PerpetualLock → Prop}
    {held : List (Guard PerpetualLock)} (env : Env) (hmarkets : P held ⟨.markets, .write⟩)
    (hrates : P (⟨.markets, .write⟩ :: held) ⟨.fundingRates, .write⟩) (marketId rateId : H256)
    (now : Seconds) : (updateFundingRateLocked env marketId rateId now).Follows P held held := by
  refine Routine.follows_guarded hmarkets ((Routine.follows_state _).bind fun engine => ?_)
  cases engine.markets.lookup marketId with
  | none => rfl
  | some market =>
    dsimp only
    split
    next =>
      refine (Routine.follows_orPanic _ _).bind fun _ =>
        (Routine.follows_modify _ _).bind fun _ => ?_
      refine (Routine.follows_orPanic _ _).bind fun _ =>
        (Routine.follows_modify _ _).bind fun _ => ?_
      exact (Routine.follows_guarded hrates (Routine.follows_modify _ _)).bind fun _ => rfl
    next => rfl

theorem follows_createMarket (env : Env) (marketId baseToken quoteToken : H256) (maxLeverage : U32)
    (now : Seconds) :
    (createMarketLocked env marketId baseToken quoteToken maxLeverage now).Follows
      (Asking (.createMarket marketId baseToken quoteToken maxLeverage now)) [] [] := by
  refine (Routine.follows_get _ _).bind fun _ => (Routine.follows_orPanic _ _).bind fun _ => ?_
  exact (Routine.follows_guarded .createMarkets (Routine.follows_modify _ _)).bind fun _ => rfl

theorem follows_openPosition (env : Env) (trader : Address) (marketId : H256) (size : U256)
    (leverage : U32) (isLong : Bool) (draw : OpenDraw) :
    (openPositionLocked env trader marketId size leverage isLong draw).Follows
      (Asking (.openPosition trader marketId size leverage isLong draw)) [] [] := by
  refine (Routine.follows_guarded .openCheck (Routine.follows_get _ _)).bind fun checked => ?_
  refine (Routine.follows_orPanic _ _).bind fun checked => ?_
  cases checked with
  | error error => rfl
  | ok position =>
    refine Routine.follows_guarded .openMarkets ((Routine.follows_perform _ _).bind fun _ => ?_)
    refine Routine.follows_guarded .openPositions ((Routine.follows_modify _ _).bind fun _ => ?_)
    exact (follows_updateFundingRate env .openUpdate .openRates _ _ _).bind fun _ => rfl

/-- `close_position` asks for `markets` while it holds `positions`. -/
theorem follows_closePosition (env : Env) (trader : Address) (positionId : H256) (now : Seconds) :
    (closePositionLocked env trader positionId now).Follows
      (Asking (.closePosition trader positionId now)) [] [] := by
  refine Routine.follows_guarded .closePositions ((Routine.follows_get _ _).bind fun found => ?_)
  cases found with
  | none => rfl
  | some position =>
    dsimp only
    split
    next => rfl
    next =>
      refine (Routine.follows_guarded .closeMarkets (Routine.follows_get _ _)).bind fun _ => ?_
      refine (Routine.follows_orPanic _ _).bind fun checked => ?_
      cases checked with
      | error error => rfl
      | ok result =>
        refine Routine.follows_guarded .closeMarkets ((Routine.follows_modify _ _).bind fun _ => ?_)
        exact (Routine.follows_modify _ _).bind fun _ => rfl

theorem follows_liquidatePosition (liquidator : Address) (positionId : H256) :
    (liquidatePositionLocked positionId).Follows
      (Asking (.liquidatePosition liquidator positionId)) [] [] := by
  refine ⟨.liquidateCheck, (Routine.follows_get _ _).bind fun found => ?_⟩
  cases found with
  | none => rfl
  | some position =>
    refine ⟨.liquidateMarkets, (Routine.follows_get _ _).bind fun _ => ?_⟩
    refine (Routine.follows_orPanic _ _).bind fun checked => ?_
    rcases checked with error | ⟨reward, contribution⟩
    · rfl
    · -- the fund is asked for when both guards are gone
      have hpaid : (payOut positionId contribution).Follows
          (Asking (.liquidatePosition liquidator positionId)) [] [] := by
        refine Routine.follows_guarded .liquidateInsurance
          ((Routine.follows_perform _ _).bind fun _ => ?_)
        exact Routine.follows_guarded .liquidatePositions (Routine.follows_modify _ _)
      exact hpaid.bind fun _ => rfl

/-- `add_collateral` asks for one lock. -/
theorem follows_addCollateral (trader : Address) (positionId : H256) (amount : U256) :
    (addCollateralLocked trader positionId amount).Follows
      (Asking (.addCollateral trader positionId amount)) [] [] := by
  refine Routine.follows_guarded .addPositions ((Routine.follows_get _ _).bind fun found => ?_)
  cases found with
  | none => rfl
  | some position =>
    dsimp only
    split
    next => rfl
    next =>
      refine (Routine.follows_orPanic _ _).bind fun _ =>
        (Routine.follows_modify _ _).bind fun _ => ?_
      refine Routine.follows_guarded .addMarkets ((Routine.follows_get _ _).bind fun found => ?_)
      cases found with
      | none => rfl
      | some market =>
        refine (Routine.follows_orPanic _ _).bind fun _ => ?_
        exact (Routine.follows_modify _ _).bind fun _ => rfl

/-- Every call follows its table. -/
theorem follows_routine (env : Env) (call : PerpetualCall) :
    (call.routine env).Follows (Asking call) [] [] := by
  cases call with
  | createMarket marketId baseToken quoteToken maxLeverage now =>
    exact (follows_createMarket env marketId baseToken quoteToken maxLeverage now).bind fun _ => rfl
  | openPosition => exact (follows_openPosition ..).bind fun _ => rfl
  | closePosition => exact (follows_closePosition ..).bind fun _ => rfl
  | liquidatePosition => exact (follows_liquidatePosition ..).bind fun _ => rfl
  | addCollateral => exact (follows_addCollateral ..).bind fun _ => rfl

/-! ## The order of the locks -/

/-- The order in which the calls take the locks, but for who opens a position. -/
def rank : PerpetualLock → Nat
  | .insuranceFund => 0
  | .positions => 1
  | .markets => 2
  | .fundingRates => 3

variable {asked guard : Guard PerpetualLock} {call : PerpetualCall}

/-- Who asks for a lock that is not above one that it holds opens a position, and holds the
markets. -/
theorem Asking.falls {held : List (Guard PerpetualLock)} (h : Asking call held asked)
    (hguard : guard ∈ held) (hrank : rank asked.lock ≤ rank guard.lock) :
    call.Opens ∧ guard = ⟨.markets, .write⟩ ∧
      (asked = ⟨.markets, .write⟩ ∨ asked = ⟨.positions, .write⟩) := by
  cases h with
  | createMarkets | openCheck | openMarkets | closePositions | liquidateCheck | liquidateInsurance
  | addPositions => cases hguard
  | openPositions => exact ⟨trivial, List.mem_singleton.mp hguard, Or.inr rfl⟩
  | openUpdate =>
    obtain rfl | hguard := List.mem_cons.mp hguard
    · exact absurd hrank (by decide)
    · exact ⟨trivial, List.mem_singleton.mp hguard, Or.inl rfl⟩
  | openRates =>
    refine absurd hrank (Nat.not_le_of_lt ?_)
    revert guard
    decide
  | closeMarkets | liquidateMarkets | liquidatePositions | addMarkets =>
    obtain rfl := List.mem_singleton.mp hguard
    exact absurd hrank (Nat.not_succ_le_self _)

/-- Who holds the positions and asks for more. -/
theorem Asking.holds_positions {held : List (Guard PerpetualLock)} (h : Asking call held asked)
    (hguard : guard ∈ held) (hlock : guard.lock = .positions) :
    (¬ call.Opens ∧ asked.lock = .markets) ∨
      (call.Opens ∧ ⟨.markets, .write⟩ ∈ held ∧ asked = ⟨.markets, .write⟩) ∨
      asked.lock = .fundingRates := by
  cases h with
  | createMarkets | openCheck | openMarkets | closePositions | liquidateCheck | liquidateInsurance
  | addPositions => cases hguard
  | openPositions | liquidatePositions =>
    obtain rfl := List.mem_singleton.mp hguard
    cases hlock
  | openUpdate => exact Or.inr (Or.inl ⟨trivial, by decide, rfl⟩)
  | openRates => exact Or.inr (Or.inr rfl)
  | closeMarkets | liquidateMarkets | addMarkets => exact Or.inl ⟨id, rfl⟩

/-- Who asks for a lock does not hold the funding rates. -/
theorem Asking.lock_ne_fundingRates {held : List (Guard PerpetualLock)} (h : Asking call held asked)
    (hguard : guard ∈ held) :
    guard.lock ≠ .fundingRates := by
  cases h with
  | createMarkets | openCheck | openMarkets | closePositions | liquidateCheck | liquidateInsurance
  | addPositions => cases hguard
  | openPositions | closeMarkets | liquidateMarkets | liquidatePositions | addMarkets =>
    obtain rfl := List.mem_singleton.mp hguard
    exact fun h => nomatch h
  | openUpdate | openRates =>
    revert guard
    decide

/-! ## Circles -/

section Circles

variable {ι : Type} [DecidableEq ι]

/-- Calls of the engine, with what is left of them. -/
abbrev Calls (ι : Type) := Config ι PerpetualLock PerpetualEngine PerpetualAnswer

/-- A call that opens a position asks for the markets, which it holds, or it holds the markets
and asks for the positions, which another call holds that asks for the markets. -/
inductive Crossed (calls : ι → PerpetualCall) (c : Calls ι) : Prop
  | self {i : ι} : (calls i).Opens → c.Stuck i ⟨.markets, .write⟩ ⟨.markets, .write⟩ →
      Crossed calls c
  | two {i j : ι} {mode mode' : LockMode} :
      (calls i).Opens → c.Stuck i ⟨.markets, .write⟩ ⟨.positions, .write⟩ →
      ¬ (calls j).Opens → c.Stuck j ⟨.positions, mode⟩ ⟨.markets, mode'⟩ → Crossed calls c

variable {calls : ι → PerpetualCall}

/-- Calls that cross wait for each other for ever. -/
theorem Crossed.circular {c : Calls ι} (h : Crossed calls c) : Config.Circular c.Waits := by
  cases h with
  | @self i _ hstuck => exact ⟨i, .single (hstuck.waits hstuck not_admits_write)⟩
  | @two i j _ _ _ hopen _ hother =>
    have hij := hopen.waits hother not_admits_write
    have hji := hother.waits hopen not_admits_of_write_held
    exact ⟨i, (Relation.TransGen.single hij).tail hji⟩

theorem crossed_of_circular {c : Calls ι} (hordered : c.Ordered fun i => Asking (calls i))
    (h : Config.Circular c.MayWait) :
    Crossed calls c := by
  obtain ⟨i, asked, guard, hi, hstuck, hasking, hrank⟩ := hordered.exists_fall rank h
  obtain ⟨hopens, rfl, rfl | rfl⟩ := hasking.falls hstuck.1 hrank
  · exact .self hopens hstuck
  · -- The next one holds the positions.
    obtain ⟨j, asked', guard', hj, hasks', _, hguard', hlock'⟩ := hordered.next_on_circle hi
    obtain rfl := Option.some.inj (hstuck.2.symm.trans hasks')
    obtain ⟨k, asked, guard, hk, hasks, hasking', hguard, hlock⟩ := hordered.next_on_circle hj
    obtain ⟨hother, hmarkets⟩ | ⟨hopens', hheld, rfl⟩ | hrates :=
      hasking'.holds_positions hguard' hlock'
    · obtain ⟨_, mode⟩ := guard'
      obtain ⟨_, mode'⟩ := asked
      obtain rfl := hlock'
      obtain rfl := hmarkets
      exact .two hopens hstuck hother ⟨hguard', hasks⟩
    · exact .self hopens' ⟨hheld, hasks⟩
    · -- Nobody who asks for a lock holds the funding rates.
      obtain ⟨_, _, _, _, _, hasking'', _, _⟩ := hordered.next_on_circle hk
      exact absurd (hlock.trans hrates) (hasking''.lock_ne_fundingRates hguard)

/-- The calls from the start, on some engine. -/
def begin (env : Env) (calls : ι → PerpetualCall) (engine : PerpetualEngine) : Calls ι :=
  Config.start engine fun i => (calls i).routine env

/-- The call of a step does not open a position and get as far as the positions, and it does not
bring a call that opens a position to the markets while another has the positions, nor another to
the positions while a call that opens a position has the markets. -/
def Apart (calls : ι → PerpetualCall) (c : Calls ι) (i : ι) : Prop :=
  ((calls i).Opens → c.asks i ≠ some ⟨.positions, .write⟩) ∧
  ((calls i).Opens → c.asks i = some ⟨.markets, .write⟩ →
    ∀ j mode, ¬ (calls j).Opens → ⟨.positions, mode⟩ ∉ c.held j) ∧
  (¬ (calls i).Opens → ∀ mode, c.asks i = some ⟨.positions, mode⟩ →
    ∀ j, (calls j).Opens → ⟨.markets, .write⟩ ∉ c.held j)

/-- No call that opens a position has the positions, and none has the markets while another has the
positions. -/
def Separate (calls : ι → PerpetualCall) (c : Calls ι) : Prop :=
  (∀ i, (calls i).Opens → ⟨.positions, .write⟩ ∉ c.held i) ∧
  ∀ i j mode, (calls i).Opens → ¬ (calls j).Opens →
    ⟨.markets, .write⟩ ∈ c.held i → ⟨.positions, mode⟩ ∉ c.held j

/-- No step of a call kept apart brings two crossed calls together. -/
theorem Separate.step {calls : ι → PerpetualCall} {c c' : Calls ι} {k : ι} {o : Unit}
    (h : Separate calls c) (hapart : Apart calls c k) (hstep : c.step k = some (c', o)) :
    Separate calls c' := by
  constructor
  · intro i hopens hpositions
    obtain hpositions | ⟨rfl, hasks⟩ := Config.mem_held_of_step hstep hpositions
    · exact h.1 i hopens hpositions
    · exact hapart.1 hopens hasks
  · intro i j mode hopens hother hmarkets hpositions
    obtain hmarkets | ⟨rfl, hasks⟩ := Config.mem_held_of_step hstep hmarkets
    · obtain hpositions | ⟨rfl, hasks⟩ := Config.mem_held_of_step hstep hpositions
      · exact h.2 i j mode hopens hother hmarkets hpositions
      · exact hapart.2.2 hother mode hasks i hopens hmarkets
    · obtain hpositions | ⟨rfl, _⟩ := Config.mem_held_of_step hstep hpositions
      · exact hapart.2.1 hopens hasks j mode hother hpositions
      · exact hother hopens

/-- Separate calls are not crossed, so they do not wait in a circle. -/
theorem Separate.not_crossed {c : Calls ι} (h : Separate calls c)
    (hordered : c.Ordered fun i => Asking (calls i)) : ¬ Crossed calls c := by
  intro hcrossed
  cases hcrossed with
  | @self i hopens hstuck =>
    -- a call that asks for the markets while it holds them has the positions, too
    refine h.1 i hopens ?_
    have hasking := hordered.asks hstuck.2
    have hmarkets := hstuck.1
    revert hasking hmarkets
    generalize calls i = call
    generalize c.held i = held
    intro hasking hmarkets
    cases hasking with
    | createMarkets | openMarkets => cases hmarkets
    | openUpdate => exact List.mem_cons_self ..
    | closeMarkets => cases List.mem_singleton.mp hmarkets
  | two hopens hopen hother hstuck => exact h.2 _ _ _ hopens hother hopen.1 hstuck.1

/-- Whatever the calls and however they interleave, calls wait for each other in a circle exactly if
they have crossed, also if readers queue behind writers. As long as no step brings them to that,
there is no circle. -/
theorem circular_iff (env : Env) (calls : ι → PerpetualCall) (engine : PerpetualEngine) :
    (∀ is c, Run Config.step (fun _ _ => True) (begin env calls engine) is c →
      (Config.Circular c.Waits ↔ Crossed calls c) ∧
        (Config.Circular c.MayWait ↔ Crossed calls c)) ∧
    ∀ is c, Run Config.step (Apart calls) (begin env calls engine) is c →
      ¬ Config.Circular c.Waits ∧ ¬ Config.Circular c.MayWait := by
  refine Config.circular_iff_of_ordered
    (Config.ordered_start fun i => follows_routine env (calls i))
    (fun _ => crossed_of_circular) (fun _ => Crossed.circular) ?_
    (fun _ _ _ _ => Separate.step) fun _ hordered h => Separate.not_crossed h hordered
  refine ⟨fun _ _ hheld => ?_, fun _ _ _ _ _ hheld => ?_⟩
  · cases hheld
  · cases hheld

end Circles

/-! ### A sample -/

/-- An engine with a market. -/
def sampleEngine : PerpetualEngine :=
  ((new ⟨500, 28800⟩).createMarket sampleEnv (Vector.replicate 32 1) (Vector.replicate 32 8)
    (Vector.replicate 32 9) 20 (.ofNat 0)).1

/-- A first position is opened. -/
def sampleOpening : Fin 1 → PerpetualCall := fun _ =>
  .openPosition (Vector.replicate 20 1) (Vector.replicate 32 1) 1 10 true sampleDraw

/-- The call that opens a position waits for itself. -/
theorem opening_waits_for_itself :
    ∃ is c, Run Config.step (fun _ _ => True) (begin sampleEnv sampleOpening sampleEngine) is c ∧
      Config.Circular c.Waits := by
  have hsome : (replay Config.step (begin sampleEnv sampleOpening sampleEngine)
      (List.replicate 8 0)).isSome := by decide +kernel
  refine ⟨_, _, run_of_replay (Option.some_get hsome).symm, ?_⟩
  refine (@Crossed.self _ _ sampleOpening _ 0 trivial ⟨?_, ?_⟩).circular
  all_goals decide +revert +kernel

end PerpetualEngine

end InterBit.Defi
