import InterBit.Defi.Types

/-!
# The engine of the perpetual contracts

`defi/perpetual.rs`, as if the locks were re-entrant: each call is one step, and a panic or an error
leaves what has been done before it. The ids that are drawn and the readings of the clock are
arguments. The oracle is not read by these calls.
-/

namespace InterBit.Defi

/-- `struct PerpetualMarket`. -/
structure PerpetualMarket where
  id : H256
  baseToken : H256
  quoteToken : H256
  indexPrice : U256
  markPrice : U256
  openInterestLong : U256
  openInterestShort : U256
  maxLeverage : U32
  maintenanceMarginRatio : U32
  initialMarginRatio : U32
  fundingRate : I64
  nextFundingTime : U64
  isActive : Bool
  deriving DecidableEq

/-- `struct Position`. -/
structure Position where
  id : H256
  trader : Address
  marketId : H256
  size : U256
  collateral : U256
  entryPrice : U256
  leverage : U32
  isLong : Bool
  realizedPnl : I128
  unrealizedPnl : I128
  fundingPaid : I128
  liquidationPrice : U256
  createdAt : U64
  lastFundingUpdate : U64
  deriving DecidableEq

/-- `struct FundingRate`. -/
structure FundingRate where
  marketId : H256
  rate : I64
  timestamp : U64
  longOpenInterest : U256
  shortOpenInterest : U256

/-- `struct InsuranceFund`. -/
structure InsuranceFund where
  balance : U256
  totalContributions : U256
  totalPayouts : U256

/-- `struct PerpetualEngine`, without the oracle. -/
structure PerpetualEngine where
  config : DeFiConfig
  markets : AList fun _ : H256 => PerpetualMarket
  positions : AList fun _ : H256 => Position
  fundingRates : AList fun _ : H256 => FundingRate
  insuranceFund : InsuranceFund

/-- `struct ClosedPositionResult`. -/
structure ClosedPositionResult where
  positionId : H256
  realizedPnl : I128
  fundingPaid : I128
  returnAmount : U256

/-- What `open_position` draws and reads: the ids of the position and of the entry in the history of
the funding rates, and the clock. -/
structure OpenDraw where
  positionId : H256
  rateId : H256
  created : Seconds
  lastFunding : Seconds
  now : Seconds

/-- The open interest on one side. -/
def PerpetualMarket.openInterest (market : PerpetualMarket) (isLong : Bool) : U256 :=
  if isLong then market.openInterestLong else market.openInterestShort

/-- The open interest on one side changes. -/
def PerpetualMarket.setOpenInterest (market : PerpetualMarket) (isLong : Bool) (interest : U256) :
    PerpetualMarket :=
  if isLong then { market with openInterestLong := interest }
  else { market with openInterestShort := interest }

/-! ## Calculations -/

/-- `calculate_required_collateral`. -/
def calculateRequiredCollateral (size price : U256) (leverage initialMarginRatio : U32) :
    Option U256 := do
  let positionValue ← mulU256 size price
  let minCollateral ← divU256 positionValue (leverage.setWidth 256)
  let initialMargin ← mulDivU256 positionValue (initialMarginRatio.setWidth 256) 10000
  return if minCollateral ≤ initialMargin then initialMargin else minCollateral

/-- `calculate_liquidation_price`. -/
def calculateLiquidationPrice (entryPrice : U256) (leverage : U32) (isLong : Bool)
    (maintenanceMarginRatio : U32) : Option U256 := do
  let maintenanceMarginPct ← mulDivU256 (maintenanceMarginRatio.setWidth 256) 100 10000
  let share ← divU256 10000 (leverage.setWidth 256)
  if isLong then
    let factor ← addU256 (← subU256 10000 share) maintenanceMarginPct
    mulDivU256 entryPrice factor 10000
  else
    let factor ← subU256 (← addU256 10000 share) maintenanceMarginPct
    mulDivU256 entryPrice factor 10000

/-- `calculate_pnl`. -/
def calculatePnl (env : Env) (position : Position) (currentPrice : U256) : Option I128 := do
  let entryValue ← asU128 (← mulU256 position.size position.entryPrice)
  let currentValue ← asU128 (← mulU256 position.size currentPrice)
  if position.isLong then subI128 env currentValue entryValue
  else subI128 env entryValue currentValue

/-- `calculate_accumulated_funding`. -/
def calculateAccumulatedFunding (env : Env) (config : DeFiConfig) (position : Position)
    (market : PerpetualMarket) (now : Seconds) : Option I128 := do
  let timeElapsed ← env.sub64 now.val position.lastFundingUpdate
  let fundingPeriods ← div64 timeElapsed config.fundingInterval
  let positionValue ← asU128 (← mulU256 position.size market.markPrice)
  let product ← mulI128 env positionValue (market.fundingRate.signExtend 128)
  let product ← mulI128 env product (fundingPeriods.setWidth 128)
  if position.isLong then
    let negated ← negI128 env product
    return negated.sdiv 10000
  else return product.sdiv 10000

/-- The new rate in `update_funding_rate`. -/
def nextFundingRate (env : Env) (market : PerpetualMarket) : Option I64 := do
  let longOi ← asU128 market.openInterestLong
  let shortOi ← asU128 market.openInterestShort
  let imbalance ← subI128 env longOi shortOi
  let totalOi ← addI128 env longOi shortOi
  if 0 < totalOi.toInt then
    let scaled ← mulI128 env imbalance 100
    return (scaled.sdiv totalOi).setWidth 64
  else return 0

namespace PerpetualEngine

/-- `PerpetualEngine::new`. -/
def new (config : DeFiConfig) : PerpetualEngine := ⟨config, ∅, ∅, ∅, ⟨0, 0, 0⟩⟩

/-- A market is replaced. -/
def setMarket (engine : PerpetualEngine) (marketId : H256) (market : PerpetualMarket) :
    PerpetualEngine :=
  { engine with markets := engine.markets.insert marketId market }

/-! ## Markets -/

/-- The market that `create_market` makes; `none` is a panic. -/
def newMarket (env : Env) (config : DeFiConfig) (marketId baseToken quoteToken : H256)
    (maxLeverage : U32) (now : Seconds) : Option PerpetualMarket := do
  -- 10 ^ 21 does not fit into `u64`
  let price ← env.mul64 1000 (BitVec.ofNat 64 (10 ^ 18))
  let nextFundingTime ← env.add64 now.val config.fundingInterval
  return {
    id := marketId
    baseToken
    quoteToken
    indexPrice := price.setWidth 256
    markPrice := price.setWidth 256
    openInterestLong := 0
    openInterestShort := 0
    maxLeverage
    maintenanceMarginRatio := 250
    initialMarginRatio := 500
    fundingRate := 0
    nextFundingTime
    isActive := true }

/-- `create_market`. -/
def createMarket (env : Env) (engine : PerpetualEngine) (marketId baseToken quoteToken : H256)
    (maxLeverage : U32) (now : Seconds) : PerpetualEngine × Outcome H256 :=
  match newMarket env engine.config marketId baseToken quoteToken maxLeverage now with
  | none => (engine, none)
  | some market => (engine.setMarket marketId market, some (.ok marketId))

/-- `update_funding_rate`. -/
def updateFundingRate (env : Env) (engine : PerpetualEngine) (marketId rateId : H256)
    (now : Seconds) : PerpetualEngine × Outcome Unit :=
  match engine.markets.lookup marketId with
  | none => (engine, some (.error .marketClosed))
  | some market =>
    if market.nextFundingTime ≤ now.val then
      match nextFundingRate env market with
      | none => (engine, none)
      | some fundingRate =>
        match env.add64 now.val engine.config.fundingInterval with
        -- the rate has been written before the panic
        | none => (engine.setMarket marketId { market with fundingRate }, none)
        | some nextFundingTime =>
          ({ engine.setMarket marketId { market with fundingRate, nextFundingTime } with
              fundingRates := engine.fundingRates.insert rateId
                { marketId
                  rate := fundingRate
                  timestamp := now.val
                  longOpenInterest := market.openInterestLong
                  shortOpenInterest := market.openInterestShort } },
            some (.ok ()))
    else (engine, some (.ok ()))

/-! ## Positions -/

/-- A position in a market; `none` is a panic. -/
def positionIn (market : PerpetualMarket) (trader : Address) (marketId : H256) (size : U256)
    (leverage : U32) (isLong : Bool) (draw : OpenDraw) : Option Position := do
  let collateral ← calculateRequiredCollateral size market.markPrice leverage
    market.initialMarginRatio
  let liquidationPrice ← calculateLiquidationPrice market.markPrice leverage isLong
    market.maintenanceMarginRatio
  return {
    id := draw.positionId
    trader
    marketId
    size
    collateral
    entryPrice := market.markPrice
    leverage
    isLong
    realizedPnl := 0
    unrealizedPnl := 0
    fundingPaid := 0
    liquidationPrice
    createdAt := draw.created.val
    lastFundingUpdate := draw.lastFunding.val }

/-- What `open_position` checks and computes while it reads the markets. -/
def newPosition (engine : PerpetualEngine) (trader : Address) (marketId : H256) (size : U256)
    (leverage : U32) (isLong : Bool) (draw : OpenDraw) : Outcome Position :=
  match engine.markets.lookup marketId with
  | none => some (.error .marketClosed)
  | some market =>
    if !market.isActive then some (.error .marketClosed)
    else if market.maxLeverage < leverage then some (.error .excessiveLeverage)
    else (positionIn market trader marketId size leverage isLong draw).map .ok

/-- The open interest goes up, if the market is there; `none` is a panic. -/
def addInterest (engine : PerpetualEngine) (marketId : H256) (isLong : Bool) (size : U256) :
    Option PerpetualEngine :=
  match engine.markets.lookup marketId with
  | none => some engine
  | some market =>
    match addU256 (market.openInterest isLong) size with
    | none => none
    | some interest => some (engine.setMarket marketId (market.setOpenInterest isLong interest))

/-- `open_position`. -/
def openPosition (env : Env) (engine : PerpetualEngine) (trader : Address) (marketId : H256)
    (size : U256) (leverage : U32) (isLong : Bool) (draw : OpenDraw) :
    PerpetualEngine × Outcome H256 :=
  match engine.newPosition trader marketId size leverage isLong draw with
  | none => (engine, none)
  | some (.error error) => (engine, some (.error error))
  | some (.ok position) =>
    match engine.addInterest marketId isLong size with
    | none => (engine, none)
    | some engine =>
      let engine := { engine with positions := engine.positions.insert draw.positionId position }
      match engine.updateFundingRate env marketId draw.rateId draw.now with
      | (engine, none) => (engine, none)
      | (engine, some (.error error)) => (engine, some (.error error))
      | (engine, some (.ok ())) => (engine, some (.ok draw.positionId))

/-- What the owner of a position gets; `none` is a panic. -/
def closedResult (env : Env) (config : DeFiConfig) (position : Position) (market : PerpetualMarket)
    (positionId : H256) (now : Seconds) : Option ClosedPositionResult := do
  let pnl ← calculatePnl env position market.markPrice
  let funding ← calculateAccumulatedFunding env config position market now
  let finalPnl ← subI128 env pnl funding
  let returnAmount ← addI128 env (← asU128 position.collateral) finalPnl
  return {
    positionId
    realizedPnl := finalPnl
    fundingPaid := funding
    returnAmount := if 0 < returnAmount.toInt then returnAmount.setWidth 256 else 0 }

/-- What `close_position` checks and computes while it reads the markets: the position, and what the
call returns. -/
def closing (env : Env) (engine : PerpetualEngine) (trader : Address) (positionId : H256)
    (now : Seconds) : Outcome (Position × ClosedPositionResult) :=
  match engine.positions.lookup positionId with
  | none => some (.error .positionNotFound)
  | some position =>
    if position.trader ≠ trader then some (.error .unauthorized)
    else
      match engine.markets.lookup position.marketId with
      | none => some (.error .marketClosed)
      | some market =>
        (closedResult env engine.config position market positionId now).map fun result =>
          .ok (position, result)

/-- The open interest goes down, if the market is there. -/
def subInterest (engine : PerpetualEngine) (position : Position) : PerpetualEngine :=
  match engine.markets.lookup position.marketId with
  | none => engine
  | some market =>
    engine.setMarket position.marketId (market.setOpenInterest position.isLong
      (saturatingSub (market.openInterest position.isLong) position.size))

/-- A position is removed. -/
def removePosition (engine : PerpetualEngine) (positionId : H256) : PerpetualEngine :=
  { engine with positions := engine.positions.erase positionId }

/-- `close_position`. -/
def closePosition (env : Env) (engine : PerpetualEngine) (trader : Address) (positionId : H256)
    (now : Seconds) : PerpetualEngine × Outcome ClosedPositionResult :=
  match engine.closing env trader positionId now with
  | none => (engine, none)
  | some (.error error) => (engine, some (.error error))
  | some (.ok (position, result)) =>
    ((engine.subInterest position).removePosition positionId, some (.ok result))

/-- The reward of the liquidator, and the contribution to the insurance fund; `none` is a panic. -/
def liquidationShares (config : DeFiConfig) (position : Position) : Option (U256 × U256) := do
  let liquidationFee ← mulDivU256 position.collateral
    (config.liquidationPenaltyBps.setWidth 256) 10000
  let liquidatorReward ← divU256 liquidationFee 2
  let insuranceContribution ← subU256 liquidationFee liquidatorReward
  return (liquidatorReward, insuranceContribution)

/-- What `liquidate_position` checks and computes while it reads. -/
def liquidation (engine : PerpetualEngine) (positionId : H256) : Outcome (U256 × U256) :=
  match engine.positions.lookup positionId with
  | none => some (.error .positionNotFound)
  | some position =>
    match engine.markets.lookup position.marketId with
    | none => some (.error .marketClosed)
    | some market =>
      if (if position.isLong then market.markPrice ≤ position.liquidationPrice
          else position.liquidationPrice ≤ market.markPrice) then
        (liquidationShares engine.config position).map .ok
      else some (.error .positionHealthy)

/-- The insurance fund gets a contribution; `none` is a panic. -/
def contribute (engine : PerpetualEngine) (contribution : U256) : PerpetualEngine × Option Unit :=
  match addU256 engine.insuranceFund.balance contribution with
  | none => (engine, none)
  | some balance =>
    let insuranceFund := { engine.insuranceFund with balance }
    match addU256 insuranceFund.totalContributions contribution with
    | none => ({ engine with insuranceFund }, none)
    | some totalContributions =>
      ({ engine with insuranceFund := { insuranceFund with totalContributions } }, some ())

/-- `liquidate_position`. -/
def liquidatePosition (engine : PerpetualEngine) (_liquidator : Address) (positionId : H256) :
    PerpetualEngine × Outcome U256 :=
  match engine.liquidation positionId with
  | none => (engine, none)
  | some (.error error) => (engine, some (.error error))
  | some (.ok (liquidatorReward, insuranceContribution)) =>
    match engine.contribute insuranceContribution with
    | (engine, none) => (engine, none)
    -- the open interest stays
    | (engine, some ()) => (engine.removePosition positionId, some (.ok liquidatorReward))

/-- `add_collateral`. -/
def addCollateral (engine : PerpetualEngine) (trader : Address) (positionId : H256)
    (amount : U256) : PerpetualEngine × Outcome Unit :=
  match engine.positions.lookup positionId with
  | none => (engine, some (.error .positionNotFound))
  | some position =>
    if position.trader ≠ trader then (engine, some (.error .unauthorized))
    else
      match addU256 position.collateral amount with
      | none => (engine, none)
      | some collateral =>
        let position := { position with collateral }
        let engine := { engine with positions := engine.positions.insert positionId position }
        match engine.markets.lookup position.marketId with
        -- the collateral has been added all the same
        | none => (engine, some (.error .marketClosed))
        | some market =>
          match calculateLiquidationPrice position.entryPrice position.leverage position.isLong
            market.maintenanceMarginRatio with
          | none => (engine, none)
          | some liquidationPrice =>
            ({ engine with
                positions := engine.positions.insert positionId
                  { position with liquidationPrice } },
              some (.ok ()))

end PerpetualEngine

end InterBit.Defi
