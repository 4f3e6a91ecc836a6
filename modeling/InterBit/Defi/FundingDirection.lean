import InterBit.Defi.ProfitAndLoss

/-!
# Who pays the funding

`calculate_accumulated_funding` says that long positions pay when the rate is positive. Its result
is negative then, for a long position, and `close_position` subtracts it: the position gains what
it ought to pay, and a short one loses what it ought to receive. So the direction is right only
where the funding is rounded to nothing (`funding_direction_iff`). A long and a short position
of one size balance all the same (`adjustment_add_mirror`).
-/

namespace InterBit.Defi

variable {env : Env}

/-- The funding periods since the last update. -/
def fundingPeriods (config : DeFiConfig) (position : Position) (now : Seconds) : Nat :=
  (now.val.toNat - position.lastFundingUpdate.toNat) / config.fundingInterval.toNat

/-- The funding before it is divided by the basis points. -/
def fundingProduct (config : DeFiConfig) (position : Position) (market : PerpetualMarket)
    (now : Seconds) : Int :=
  position.value market.markPrice * market.fundingRate.toInt * fundingPeriods config position now

/-- The result of `calculate_accumulated_funding`. -/
def accumulatedFunding (config : DeFiConfig) (position : Position) (market : PerpetualMarket)
    (now : Seconds) : Int :=
  (if position.isLong then -fundingProduct config position market now
    else fundingProduct config position market now).tdiv 10000

/-- The funding without its sign. -/
def fundingAmount (config : DeFiConfig) (position : Position) (market : PerpetualMarket)
    (now : Seconds) : Nat :=
  position.value market.markPrice * market.fundingRate.toInt.natAbs *
    fundingPeriods config position now / 10000

/-- What the funding ought to change: a positive rate takes it from long positions and gives it to
short ones, a negative rate the other way. -/
def promisedAdjustment (config : DeFiConfig) (position : Position) (market : PerpetualMarket)
    (now : Seconds) : Int :=
  if position.isLong = decide (0 < market.fundingRate.toInt) then
    -fundingAmount config position market now
  else fundingAmount config position market now

/-- Every number on the way to the final profit fits. -/
structure FundingFits (config : DeFiConfig) (position : Position) (market : PerpetualMarket)
    (now : Seconds) : Prop where
  elapsed : position.lastFundingUpdate.toNat ≤ now.val.toNat
  interval : 0 < config.fundingInterval.toNat
  entryValue : position.value position.entryPrice < 2 ^ 127
  currentValue : position.value market.markPrice < 2 ^ 127
  scaled : InI128 (position.value market.markPrice * market.fundingRate.toInt)
  product : InI128 (fundingProduct config position market now)
  negated : position.isLong = true → InI128 (-fundingProduct config position market now)
  finalPnl : InI128 (position.profit market.markPrice
    - accumulatedFunding config position market now)
  collateral : position.collateral.toNat < 2 ^ 127
  returned : InI128 (position.collateral.toNat + (position.profit market.markPrice
    - accumulatedFunding config position market now))

theorem sdiv_tenThousand (a : I128) : (a.sdiv 10000).toInt = a.toInt.tdiv 10000 :=
  BitVec.toInt_sdiv_of_ne_or_ne a 10000 (Or.inr (by decide))

variable {config : DeFiConfig} {position : Position}

/-- The elapsed periods, as the engine counts them. -/
theorem periods_exact (env : Env) {now : Seconds}
    (helapsed : position.lastFundingUpdate.toNat ≤ now.val.toNat)
    (hinterval : 0 < config.fundingInterval.toNat) :
    ∃ elapsed periods, env.sub64 now.val position.lastFundingUpdate = some elapsed ∧
      div64 elapsed config.fundingInterval = some periods ∧
      (periods.setWidth 128 : I128).toInt = fundingPeriods config position now := by
  have hpositive : config.fundingInterval ≠ 0 := by
    intro hzero
    rw [hzero] at hinterval
    exact absurd hinterval (by decide)
  refine ⟨now.val - position.lastFundingUpdate,
    (now.val - position.lastFundingUpdate) / config.fundingInterval,
    if_neg fun h => absurd h.2 (Nat.not_lt.mpr helapsed), if_neg hpositive, ?_⟩
  have hval : ((now.val - position.lastFundingUpdate) / config.fundingInterval).toNat
      = fundingPeriods config position now := by
    rw [BitVec.toNat_udiv, BitVec.toNat_sub_of_le (BitVec.le_def.mpr helapsed)]
    rfl
  have hlt := ((now.val - position.lastFundingUpdate) / config.fundingInterval).isLt
  have hwide : (((now.val - position.lastFundingUpdate) / config.fundingInterval).setWidth 128
      : I128).toNat = fundingPeriods config position now := by
    rw [BitVec.toNat_setWidth, hval, Nat.mod_eq_of_lt (by omega)]
  rw [BitVec.toInt_eq_toNat_of_lt (by omega), hwide]

theorem calculateAccumulatedFunding_exact (env : Env) {market : PerpetualMarket} {now : Seconds}
    (h : FundingFits config position market now) :
    ∃ funding, calculateAccumulatedFunding env config position market now = some funding ∧
      funding.toInt = accumulatedFunding config position market now := by
  obtain ⟨elapsed, periods, helapsed, hperiods, hperiodsInt⟩ :=
    periods_exact env h.elapsed h.interval
  obtain ⟨valueProduct, value, hvalueProduct, hvalue, hvalueInt⟩ := value_exact h.currentValue
  have hrate : (market.fundingRate.signExtend 128 : I128).toInt = market.fundingRate.toInt :=
    BitVec.toInt_signExtend_of_le (by decide)
  obtain ⟨scaled, hscaled, hscaledInt⟩ := @mulI128_exact env value
    (market.fundingRate.signExtend 128) (by rw [hvalueInt, hrate]; exact h.scaled)
  have hproductInt' : scaled.toInt * (periods.setWidth 128 : I128).toInt
      = fundingProduct config position market now := by
    rw [hscaledInt, hvalueInt, hrate, hperiodsInt, fundingProduct]
  obtain ⟨product, hproduct, hproductInt⟩ := @mulI128_exact env scaled (periods.setWidth 128)
    (by rw [hproductInt']; exact h.product)
  rw [hproductInt'] at hproductInt
  simp only [calculateAccumulatedFunding, helapsed, hperiods, hvalueProduct, hvalue, hscaled,
    hproduct, Option.bind_eq_bind, Option.bind_some]
  rw [accumulatedFunding]
  split
  next hlong =>
    obtain ⟨negated, hnegated, hnegatedInt⟩ := @negI128_exact env product
      (by rw [hproductInt]; exact h.negated hlong)
    rw [hnegated]
    exact ⟨negated.sdiv 10000, rfl, by rw [sdiv_tenThousand, hnegatedInt, hproductInt]⟩
  next => exact ⟨product.sdiv 10000, rfl, by rw [sdiv_tenThousand, hproductInt]⟩

/-- What closing a position realizes. -/
theorem closedResult_exact (env : Env) {market : PerpetualMarket} {now : Seconds}
    (h : FundingFits config position market now) (positionId : H256) :
    ∃ result, PerpetualEngine.closedResult env config position market positionId now = some result ∧
      result.realizedPnl.toInt
        = position.profit market.markPrice - accumulatedFunding config position market now := by
  obtain ⟨pnl, hpnl, hpnlInt⟩ := calculatePnl_exact env h.entryValue h.currentValue
  obtain ⟨funding, hfunding, hfundingInt⟩ := calculateAccumulatedFunding_exact env h
  obtain ⟨finalPnl, hfinal, hfinalInt⟩ := @subI128_exact env pnl funding
    (by rw [hpnlInt, hfundingInt]; exact h.finalPnl)
  rw [hpnlInt, hfundingInt] at hfinalInt
  obtain ⟨collateral, hcollateral, hcollateralInt⟩ := asU128_exact h.collateral
  obtain ⟨returned, hreturned, -⟩ := @addI128_exact env collateral finalPnl
    (by rw [hcollateralInt, hfinalInt]; exact h.returned)
  simp only [PerpetualEngine.closedResult, hpnl, hfunding, hfinal, hcollateral, hreturned,
    Option.bind_eq_bind, Option.bind_some]
  exact ⟨_, rfl, hfinalInt⟩

/-! ### Direction and balance -/

/-- The funding that is divided has the sign of the rate. -/
theorem fundingProduct_tdiv (config : DeFiConfig) (position : Position) (market : PerpetualMarket)
    (now : Seconds) :
    (fundingProduct config position market now).tdiv 10000 =
      if 0 < market.fundingRate.toInt then (fundingAmount config position market now : Int)
      else -fundingAmount config position market now := by
  unfold fundingProduct fundingAmount
  generalize position.value market.markPrice = value
  generalize fundingPeriods config position now = periods
  generalize market.fundingRate.toInt = rate
  have htdiv : ∀ n : Nat, ((value : Int) * n * periods).tdiv 10000
      = (value * n * periods / 10000 : Nat) := by
    intro n
    rw [Int.ofNat_tdiv, Nat.cast_mul, Nat.cast_mul]
    rfl
  split
  next hpos =>
    obtain ⟨n, rfl⟩ := Int.eq_ofNat_of_zero_le (Int.le_of_lt hpos)
    rw [Int.natAbs_natCast, htdiv]
  next hneg =>
    obtain ⟨n, hn⟩ := Int.eq_ofNat_of_zero_le (show 0 ≤ -rate by omega)
    obtain rfl : rate = -(n : Int) := by omega
    rw [Int.natAbs_neg, Int.natAbs_natCast, Int.mul_neg, Int.neg_mul, Int.neg_tdiv, htdiv]

/-- The engine subtracts what it ought to add. -/
theorem accumulatedFunding_eq (config : DeFiConfig) (position : Position)
    (market : PerpetualMarket) (now : Seconds) :
    accumulatedFunding config position market now
      = promisedAdjustment config position market now := by
  unfold accumulatedFunding promisedAdjustment
  cases position.isLong with
  | true =>
    rw [if_pos rfl, Int.neg_tdiv, fundingProduct_tdiv]
    by_cases hrate : 0 < market.fundingRate.toInt
    · rw [if_pos hrate, if_pos (decide_eq_true hrate).symm]
    · rw [if_neg hrate, if_neg (by simp [hrate]), Int.neg_neg]
  | false =>
    rw [if_neg Bool.false_ne_true, fundingProduct_tdiv]
    by_cases hrate : 0 < market.fundingRate.toInt
    · rw [if_pos hrate, if_neg (by simp [hrate])]
    · rw [if_neg hrate, if_pos (decide_eq_false hrate).symm]

theorem promisedAdjustment_eq_zero (config : DeFiConfig) (position : Position)
    (market : PerpetualMarket) (now : Seconds) :
    promisedAdjustment config position market now = 0 ↔
      position.value market.markPrice * market.fundingRate.toInt.natAbs *
        fundingPeriods config position now < 10000 := by
  unfold promisedAdjustment fundingAmount
  split <;> omega

/-- The other side of a position: of the same size, and funded as long. -/
structure Position.Mirrors (position mirror : Position) : Prop where
  marketId : mirror.marketId = position.marketId
  isLong : mirror.isLong = !position.isLong
  size : mirror.size = position.size
  lastFundingUpdate : mirror.lastFundingUpdate = position.lastFundingUpdate

theorem promisedAdjustment_mirror (config : DeFiConfig) {position mirror : Position}
    (h : position.Mirrors mirror) (market : PerpetualMarket) (now : Seconds) :
    promisedAdjustment config mirror market now
      = -promisedAdjustment config position market now := by
  have hamount : fundingAmount config mirror market now
      = fundingAmount config position market now := by
    simp only [fundingAmount, Position.value, fundingPeriods, h.size, h.lastFundingUpdate]
  rw [promisedAdjustment, promisedAdjustment, h.isLong, hamount]
  cases position.isLong with
  | true =>
    by_cases hrate : 0 < market.fundingRate.toInt
    · simp [hrate]
    · simp [hrate]
  | false =>
    by_cases hrate : 0 < market.fundingRate.toInt
    · simp [hrate]
    · simp [hrate]

namespace PerpetualEngine

variable {engine : PerpetualEngine} {position mirror : Position} {market : PerpetualMarket}
  {positionId mirrorId : H256} {now : Seconds}

theorem closePosition_exact (env : Env)
    (hposition : engine.positions.lookup positionId = some position)
    (hmarket : engine.markets.lookup position.marketId = some market)
    (hfits : FundingFits engine.config position market now) :
    ∃ result, (engine.closePosition env position.trader positionId now).2 = some (.ok result) ∧
      result.realizedPnl.toInt = position.profit market.markPrice
        - promisedAdjustment engine.config position market now := by
  obtain ⟨result, hresult, hrealized⟩ := closedResult_exact env hfits positionId
  have hclosing : engine.closing env position.trader positionId now
      = some (.ok (position, result)) := by
    unfold closing
    rw [hposition]
    dsimp only
    rw [if_neg (not_not.mpr rfl), hmarket]
    dsimp only
    rw [hresult]
    rfl
  refine ⟨result, ?_, by rw [hrealized, accumulatedFunding_eq]⟩
  unfold closePosition
  rw [hclosing]

/-- The adjustments of two mirrored positions cancel. -/
theorem adjustment_add_mirror (env : Env)
    (hposition : engine.positions.lookup positionId = some position)
    (hmirror : engine.positions.lookup mirrorId = some mirror) (hside : position.Mirrors mirror)
    (hmarket : engine.markets.lookup position.marketId = some market)
    (hfits : FundingFits engine.config position market now)
    (hmirrorFits : FundingFits engine.config mirror market now)
    {result mirrorResult : ClosedPositionResult}
    (hresult : (engine.closePosition env position.trader positionId now).2 = some (.ok result))
    (hmirrorResult : (engine.closePosition env mirror.trader mirrorId now).2
      = some (.ok mirrorResult)) :
    result.realizedPnl.toInt - position.profit market.markPrice +
      (mirrorResult.realizedPnl.toInt - mirror.profit market.markPrice) = 0 := by
  obtain ⟨closed, hclosed, hrealized⟩ := closePosition_exact env hposition hmarket hfits
  obtain ⟨mirrorClosed, hmirrorClosed, hmirrorRealized⟩ :=
    closePosition_exact env hmirror (hside.marketId ▸ hmarket) hmirrorFits
  obtain rfl : closed = result := by
    rw [hclosed] at hresult
    exact Except.ok.inj (Option.some.inj hresult)
  obtain rfl : mirrorClosed = mirrorResult := by
    rw [hmirrorClosed] at hmirrorResult
    exact Except.ok.inj (Option.some.inj hmirrorResult)
  rw [hrealized, hmirrorRealized, promisedAdjustment_mirror engine.config hside]
  omega

/-- A position is adjusted in the promised direction if and only if the funding is rounded to
nothing. -/
theorem funding_direction_iff (env : Env) (engine : PerpetualEngine) (positionId : H256)
    (position : Position) (market : PerpetualMarket) (now : Seconds)
    (hposition : engine.positions.lookup positionId = some position)
    (hmarket : engine.markets.lookup position.marketId = some market)
    (hfits : FundingFits engine.config position market now) :
    ∃ result, (engine.closePosition env position.trader positionId now).2 = some (.ok result) ∧
      ((result.realizedPnl.toInt = position.profit market.markPrice
            + promisedAdjustment engine.config position market now ∧
          ∀ mirrorId mirror mirrorResult, engine.positions.lookup mirrorId = some mirror →
            position.Mirrors mirror → FundingFits engine.config mirror market now →
            (engine.closePosition env mirror.trader mirrorId now).2 = some (.ok mirrorResult) →
            result.realizedPnl.toInt - position.profit market.markPrice +
              (mirrorResult.realizedPnl.toInt - mirror.profit market.markPrice) = 0) ↔
        position.value market.markPrice * market.fundingRate.toInt.natAbs *
          fundingPeriods engine.config position now < 10000) := by
  obtain ⟨result, hresult, hrealized⟩ := closePosition_exact env hposition hmarket hfits
  refine ⟨result, hresult, ?_⟩
  rw [← promisedAdjustment_eq_zero, hrealized]
  constructor
  · intro h
    have hdirection := h.1
    omega
  · intro hzero
    refine ⟨by omega, ?_⟩
    intro mirrorId mirror mirrorResult hmirror hside hmirrorFits hmirrorResult
    rw [← hrealized]
    exact adjustment_add_mirror env hposition hmirror hside hmarket hfits hmirrorFits hresult
      hmirrorResult

/-! ### A sample -/

/-- More is held long than short, so the rate is positive. -/
def fundedMarket : PerpetualMarket where
  id := .replicate 32 1
  baseToken := .replicate 32 8
  quoteToken := .replicate 32 9
  indexPrice := 100
  markPrice := 100
  openInterestLong := 1000
  openInterestShort := 0
  maxLeverage := 10
  maintenanceMarginRatio := 250
  initialMarginRatio := 500
  fundingRate := 100
  nextFundingTime := 57600
  isActive := true

def fundedPosition : Position where
  id := .replicate 32 2
  trader := .replicate 20 1
  marketId := .replicate 32 1
  size := 1000
  collateral := 10000
  entryPrice := 100
  leverage := 10
  isLong := true
  realizedPnl := 0
  unrealizedPnl := 0
  fundingPaid := 0
  liquidationPrice := 90
  createdAt := 0
  lastFundingUpdate := 0

def fundedEngine : PerpetualEngine :=
  { new ⟨500, 28800⟩ with
    markets := AList.singleton (.replicate 32 1) fundedMarket
    positions := AList.singleton (.replicate 32 2) fundedPosition }

/-- One funding period after the position was opened. -/
def fundedNow : Seconds := ⟨28800, by decide⟩

theorem fundedPosition_fits :
    FundingFits fundedEngine.config fundedPosition fundedMarket fundedNow where
  elapsed := by decide
  interval := by decide
  entryValue := by decide
  currentValue := by decide
  scaled := by decide
  product := by decide
  negated := fun _ => by decide
  finalPnl := by decide
  collateral := by decide
  returned := by decide

/-- The long position gains 1000 by a positive rate. -/
theorem fundedPosition_gains : ¬ ∀ result,
    (fundedEngine.closePosition (sampleKeccakEnv true).toEnv fundedPosition.trader
      (.replicate 32 2) fundedNow).2 = some (.ok result) →
    result.realizedPnl.toInt = fundedPosition.profit fundedMarket.markPrice
      + promisedAdjustment fundedEngine.config fundedPosition fundedMarket fundedNow := by
  intro h
  obtain ⟨result, hresult, hrealized⟩ := @closePosition_exact fundedEngine fundedPosition
    fundedMarket (.replicate 32 2) fundedNow (sampleKeccakEnv true).toEnv rfl rfl
    fundedPosition_fits
  have hpromised := h result hresult
  rw [hrealized, show promisedAdjustment fundedEngine.config fundedPosition fundedMarket fundedNow
    = -1000 by decide] at hpromised
  omega

theorem funding_direction_iff_sample :
    ∃ result, (fundedEngine.closePosition (sampleKeccakEnv true).toEnv fundedPosition.trader
        (.replicate 32 2) fundedNow).2 = some (.ok result) ∧
      ((result.realizedPnl.toInt = fundedPosition.profit fundedMarket.markPrice
            + promisedAdjustment fundedEngine.config fundedPosition fundedMarket fundedNow ∧
          ∀ mirrorId mirror mirrorResult, fundedEngine.positions.lookup mirrorId = some mirror →
            fundedPosition.Mirrors mirror →
            FundingFits fundedEngine.config mirror fundedMarket fundedNow →
            (fundedEngine.closePosition (sampleKeccakEnv true).toEnv mirror.trader mirrorId
              fundedNow).2 = some (.ok mirrorResult) →
            result.realizedPnl.toInt - fundedPosition.profit fundedMarket.markPrice +
              (mirrorResult.realizedPnl.toInt - mirror.profit fundedMarket.markPrice) = 0) ↔
        fundedPosition.value fundedMarket.markPrice * fundedMarket.fundingRate.toInt.natAbs *
          fundingPeriods fundedEngine.config fundedPosition fundedNow < 10000) :=
  funding_direction_iff (sampleKeccakEnv true).toEnv fundedEngine (.replicate 32 2) fundedPosition
    fundedMarket fundedNow rfl rfl fundedPosition_fits

end PerpetualEngine

end InterBit.Defi
