import InterBit.Defi.ProfitAndLoss

/-!
# The price at which a position is liquidated

`calculate_liquidation_price` is called once, when a position is opened. It counts the maintenance
ratio, which is in basis points, as hundredths of it: `ratio * 100 / 10000` goes into a factor of
basis points. So there are prices at which a position has less than its maintenance margin and
counts as healthy.

What a position is short of its margin is affine in the price. So the threshold is right for all
healthy prices exactly if it is right at the ends of their range (`liquidation_threshold_iff`).
-/

namespace InterBit.Defi

/-- The collateral of a new position. -/
def openingCollateral (size entry leverage initialRatio : Nat) : Nat :=
  max (size * entry / leverage) (size * entry * initialRatio / 10000)

/-- The liquidation price of a new position. -/
def thresholdPrice (isLong : Bool) (entry leverage maintenanceRatio : Nat) : Nat :=
  if isLong then entry * (10000 - 10000 / leverage + maintenanceRatio * 100 / 10000) / 10000
  else entry * (10000 + 10000 / leverage - maintenanceRatio * 100 / 10000) / 10000

/-- The highest price at which the value of a position is an `i128`. -/
def lastPrice (size : Nat) : Nat := (2 ^ 127 - 1) / size

/-- At a price a long position is short of its margin by a basis point of the entry value at most.
-/
def LongCovered (size entry collateral maintenanceRatio price : Nat) : Prop :=
  9999 * (size * entry) + size * price * maintenanceRatio
    ≤ 10000 * collateral + 10000 * (size * price)

/-- The same for a short position. -/
def ShortCovered (size entry collateral maintenanceRatio price : Nat) : Prop :=
  size * price * (10000 + maintenanceRatio) ≤ 10000 * collateral + 10001 * (size * entry)

/-- The same for a position on either side. -/
def Covered (isLong : Bool) (size entry collateral maintenanceRatio price : Nat) : Prop :=
  if isLong then LongCovered size entry collateral maintenanceRatio price
  else ShortCovered size entry collateral maintenanceRatio price

instance (isLong : Bool) (size entry collateral maintenanceRatio price : Nat) :
    Decidable (Covered isLong size entry collateral maintenanceRatio price) :=
  match isLong with
  | true => inferInstanceAs (Decidable (_ ≤ _))
  | false => inferInstanceAs (Decidable (_ ≤ _))

/-- The position is covered at both ends of the range of its healthy prices. -/
def ThresholdCovers (isLong : Bool) (size entry leverage initialRatio maintenanceRatio : Nat) :
    Prop :=
  let collateral := openingCollateral size entry leverage initialRatio
  let threshold := thresholdPrice isLong entry leverage maintenanceRatio
  if isLong then
    threshold < lastPrice size →
      Covered isLong size entry collateral maintenanceRatio (threshold + 1) ∧
        Covered isLong size entry collateral maintenanceRatio (lastPrice size)
  else
    0 < threshold →
      Covered isLong size entry collateral maintenanceRatio (min (threshold - 1) (lastPrice size))

/-- The collateral and the profit are below the maintenance margin by more than a basis point of
the entry value. -/
def UnderMargin (env : Env) (position : Position) (maintenanceRatio : U32) (price : U256) : Prop :=
  ∃ pnl, calculatePnl env position price = some pnl ∧
    10000 * (position.collateral.toNat + pnl.toInt) + position.value position.entryPrice
      < position.value price * maintenanceRatio.toNat

/-! ### Between the ends -/

/-- For a long, the covered prices have no gap. -/
theorem LongCovered.between {size entry collateral ratio low high price : Nat}
    (hlow : LongCovered size entry collateral ratio low)
    (hhigh : LongCovered size entry collateral ratio high) (hle : low ≤ price)
    (hge : price ≤ high) : LongCovered size entry collateral ratio price := by
  unfold LongCovered at hlow hhigh ⊢
  have hlowvalue : size * low ≤ size * price := Nat.mul_le_mul_left size hle
  have hhighvalue : size * price ≤ size * high := Nat.mul_le_mul_left size hge
  rcases Nat.le_total ratio 10000 with hratio | hratio
  · -- the margin grows slower than the value
    obtain ⟨k, hk⟩ := Nat.exists_eq_add_of_le hratio
    have hgap := Nat.mul_le_mul_right k hlowvalue
    have hlowsum : size * low * ratio + size * low * k = 10000 * (size * low) := by
      rw [← Nat.mul_add, ← hk, Nat.mul_comm]
    have hsum : size * price * ratio + size * price * k = 10000 * (size * price) := by
      rw [← Nat.mul_add, ← hk, Nat.mul_comm]
    omega
  · -- the margin grows faster than the value
    obtain ⟨k, hk⟩ := Nat.exists_eq_add_of_le hratio
    have hgap := Nat.mul_le_mul_right k hhighvalue
    have hhighsum : size * high * ratio = 10000 * (size * high) + size * high * k := by
      rw [hk, Nat.mul_add, Nat.mul_comm (size * high) 10000]
    have hsum : size * price * ratio = 10000 * (size * price) + size * price * k := by
      rw [hk, Nat.mul_add, Nat.mul_comm (size * price) 10000]
    omega

theorem ShortCovered.below {size entry collateral ratio high price : Nat}
    (hhigh : ShortCovered size entry collateral ratio high) (hle : price ≤ high) :
    ShortCovered size entry collateral ratio price :=
  (Nat.mul_le_mul_right _ (Nat.mul_le_mul_left size hle)).trans hhigh

/-- At a price a position does not count as liquidatable. -/
def Healthy (isLong : Bool) (threshold price : Nat) : Prop :=
  if isLong then threshold < price else price < threshold

theorem covered_of_size_zero (isLong : Bool) (entry collateral maintenanceRatio price : Nat) :
    Covered isLong 0 entry collateral maintenanceRatio price := by
  unfold Covered LongCovered ShortCovered
  simp only [Nat.zero_mul, Nat.mul_zero, Nat.zero_add, Nat.zero_le, ite_self]

theorem le_lastPrice_iff {size price : Nat} (hsize : 0 < size) :
    price ≤ lastPrice size ↔ size * price < 2 ^ 127 := by
  rw [lastPrice, Nat.le_div_iff_mul_le hsize, Nat.mul_comm]
  omega

theorem lastPrice_lt (size : Nat) : lastPrice size < 2 ^ 256 :=
  Nat.lt_of_le_of_lt (Nat.div_le_self ..) (by decide)

/-- Being covered at the ends is being covered at all healthy prices. -/
theorem thresholdCovers_iff (isLong : Bool)
    (size entry leverage initialRatio maintenanceRatio : Nat) :
    (∀ price < 2 ^ 256, size * price < 2 ^ 127 →
        Healthy isLong (thresholdPrice isLong entry leverage maintenanceRatio) price →
        Covered isLong size entry (openingCollateral size entry leverage initialRatio)
          maintenanceRatio price) ↔
      ThresholdCovers isLong size entry leverage initialRatio maintenanceRatio := by
  unfold ThresholdCovers
  generalize openingCollateral size entry leverage initialRatio = collateral
  generalize thresholdPrice isLong entry leverage maintenanceRatio = threshold
  rcases Nat.eq_zero_or_pos size with rfl | hsize
  · refine iff_of_true (fun price _ _ _ => covered_of_size_zero ..) ?_
    dsimp only
    split
    next => exact fun _ => ⟨covered_of_size_zero .., covered_of_size_zero ..⟩
    next => exact fun _ => covered_of_size_zero ..
  unfold Healthy Covered
  cases isLong with
  | true =>
    simp only [if_true]
    constructor
    · intro h hlt
      have hprice : ∀ price, threshold < price → price ≤ lastPrice size →
          LongCovered size entry collateral maintenanceRatio price := by
        intro price habove hle
        exact h price (Nat.lt_of_le_of_lt hle (lastPrice_lt size))
          ((le_lastPrice_iff hsize).mp hle) habove
      -- for a long the two ends of the healthy prices decide
      exact ⟨hprice _ (Nat.lt_succ_self _) hlt, hprice _ hlt le_rfl⟩
    · intro h price _ hfits habove
      have hle := (le_lastPrice_iff hsize).mpr hfits
      obtain ⟨hlow, hhigh⟩ := h (Nat.lt_of_lt_of_le habove hle)
      exact hlow.between hhigh habove hle
  | false =>
    simp only [Bool.false_eq_true, if_false]
    constructor
    · intro h hpos
      have hle : min (threshold - 1) (lastPrice size) ≤ lastPrice size := Nat.min_le_right ..
      have hbelow : min (threshold - 1) (lastPrice size) ≤ threshold - 1 := Nat.min_le_left ..
      -- for a short the highest healthy price does
      exact h _ (Nat.lt_of_le_of_lt hle (lastPrice_lt size)) ((le_lastPrice_iff hsize).mp hle)
        (by omega)
    · intro h price _ hfits hbelow
      have hle := (le_lastPrice_iff hsize).mpr hfits
      exact (h (by omega)).below (Nat.le_min.mpr ⟨by omega, hle⟩)

/-! ### Opening and liquidating -/

theorem calculateRequiredCollateral_eq {size price collateral : U256} {leverage ratio : U32}
    (h : calculateRequiredCollateral size price leverage ratio = some collateral) :
    0 < leverage.toNat ∧ collateral.toNat
      = openingCollateral size.toNat price.toNat leverage.toNat ratio.toNat := by
  obtain ⟨value, hvalue, h⟩ := Option.bind_eq_some_iff.mp h
  obtain ⟨minCollateral, hmin, h⟩ := Option.bind_eq_some_iff.mp h
  obtain ⟨initialMargin, hinitial, h⟩ := Option.bind_eq_some_iff.mp h
  have hvalueval := mulU256_eq.mp hvalue
  obtain ⟨hpos, hminval⟩ := divU256_eq.mp hmin
  have hinitialval := (mulDivU256_eq.mp hinitial).2
  rw [BitVec.toNat_setWidth_of_le (by decide)] at hpos hminval hinitialval
  rw [hvalueval] at hminval hinitialval
  refine ⟨hpos, ?_⟩
  have hcollateral : (if minCollateral ≤ initialMargin then initialMargin else minCollateral)
      = collateral := Option.some.inj h
  rw [← hcollateral, openingCollateral, ← hminval]
  rw [show (10000 : U256).toNat = 10000 from rfl] at hinitialval
  rw [← hinitialval]
  split
  next hle => exact (Nat.max_eq_right (BitVec.le_def.mp hle)).symm
  next hlt => exact (Nat.max_eq_left (Nat.le_of_not_le fun h => hlt (BitVec.le_def.mpr h))).symm

/-- The stored threshold in natural numbers, likewise. -/
theorem calculateLiquidationPrice_eq {entryPrice price : U256} {leverage ratio : U32}
    {isLong : Bool} (h : calculateLiquidationPrice entryPrice leverage isLong ratio = some price) :
    price.toNat = thresholdPrice isLong entryPrice.toNat leverage.toNat ratio.toNat := by
  obtain ⟨maintenance, hmaintenance, h⟩ := Option.bind_eq_some_iff.mp h
  obtain ⟨share, hshare, h⟩ := Option.bind_eq_some_iff.mp h
  have hmaintenanceval := (mulDivU256_eq.mp hmaintenance).2
  have hshareval := (divU256_eq.mp hshare).2
  rw [BitVec.toNat_setWidth_of_le (by decide)] at hmaintenanceval hshareval
  unfold thresholdPrice
  split at h
  next hlong =>
    obtain ⟨rest, hrest, h⟩ := Option.bind_eq_some_iff.mp h
    obtain ⟨factor, hfactor, h⟩ := Option.bind_eq_some_iff.mp h
    have hfactorval : factor.toNat
        = 10000 - 10000 / leverage.toNat + ratio.toNat * 100 / 10000 := by
      have hrestval := subU256_eq.mp hrest
      rw [hshareval] at hrestval
      rw [addU256_eq.mp hfactor, hmaintenanceval]
      exact congrArg (· + _) (Nat.eq_sub_of_add_eq hrestval)
    rw [if_pos hlong, (mulDivU256_eq.mp h).2, hfactorval]
    rfl
  next hshort =>
    obtain ⟨sum, hsum, h⟩ := Option.bind_eq_some_iff.mp h
    obtain ⟨factor, hfactor, h⟩ := Option.bind_eq_some_iff.mp h
    have hfactorval : factor.toNat
        = 10000 + 10000 / leverage.toNat - ratio.toNat * 100 / 10000 := by
      have hval := subU256_eq.mp hfactor
      rw [addU256_eq.mp hsum, hshareval, hmaintenanceval] at hval
      exact Nat.eq_sub_of_add_eq hval
    rw [if_neg hshort, (mulDivU256_eq.mp h).2, hfactorval]
    rfl

namespace PerpetualEngine

/-- What a position that has been opened is. -/
structure Opened (market : PerpetualMarket) (marketId : H256) (size : U256) (leverage : U32)
    (isLong : Bool) (position : Position) : Prop where
  marketId_eq : position.marketId = marketId
  size_eq : position.size = size
  entryPrice_eq : position.entryPrice = market.markPrice
  isLong_eq : position.isLong = isLong
  collateral_eq : position.collateral.toNat = openingCollateral size.toNat market.markPrice.toNat
    leverage.toNat market.initialMarginRatio.toNat
  liquidationPrice_eq : position.liquidationPrice.toNat = thresholdPrice isLong
    market.markPrice.toNat leverage.toNat market.maintenanceMarginRatio.toNat

variable {market : PerpetualMarket} {position : Position}

theorem positionIn_opened {trader : Address} {marketId : H256} {size : U256} {leverage : U32}
    {isLong : Bool} {draw : OpenDraw}
    (h : positionIn market trader marketId size leverage isLong draw = some position) :
    Opened market marketId size leverage isLong position := by
  obtain ⟨collateral, hcollateral, h⟩ := Option.bind_eq_some_iff.mp h
  obtain ⟨liquidationPrice, hprice, h⟩ := Option.bind_eq_some_iff.mp h
  cases h
  exact ⟨rfl, rfl, rfl, rfl, (calculateRequiredCollateral_eq hcollateral).2,
    calculateLiquidationPrice_eq hprice⟩

/-- An opened position is in the books. -/
theorem openPosition_opened {env : Env} {engine opened : PerpetualEngine} {trader : Address}
    {marketId positionId : H256} {size : U256} {leverage : U32} {isLong : Bool} {draw : OpenDraw}
    (hmarket : engine.markets.lookup marketId = some market)
    (h : engine.openPosition env trader marketId size leverage isLong draw
      = (opened, some (.ok positionId))) :
    ∃ position, opened.positions.lookup positionId = some position ∧
      Opened market marketId size leverage isLong position := by
  unfold openPosition at h
  split at h
  next => cases h
  next => cases h
  next position hnew =>
    split at h
    next => cases h
    next raised _ =>
      -- the funding update comes after the position is stored, and keeps it
      have hkeeps := keeps_updateFundingRate env
        { raised with positions := raised.positions.insert draw.positionId position }
        marketId draw.rateId draw.now
      refine ⟨position, ?_, ?_⟩
      · dsimp only at h
        split at h
        next => cases h
        next => cases h
        next after hafter =>
          cases h
          rw [hafter] at hkeeps
          rw [hkeeps.positions_eq]
          exact AList.lookup_insert _
      · unfold newPosition at hnew
        rw [hmarket] at hnew
        dsimp only at hnew
        split at hnew
        next => cases hnew
        next =>
          split at hnew
          next => cases hnew
          next =>
            obtain ⟨made, hmade, hok⟩ := Option.map_eq_some_iff.mp hnew
            cases hok
            exact positionIn_opened hmade

/-- When the answer of a liquidation is that the position is healthy. -/
theorem liquidatePosition_healthy_iff {engine : PerpetualEngine} {positionId : H256}
    (hposition : engine.positions.lookup positionId = some position)
    (hmarket : engine.markets.lookup position.marketId = some market) (liquidator : Address) :
    (engine.liquidatePosition liquidator positionId).2 = some (.error .positionHealthy) ↔
      if position.isLong then position.liquidationPrice < market.markPrice
      else market.markPrice < position.liquidationPrice := by
  have hside : (if position.isLong then position.liquidationPrice < market.markPrice
      else market.markPrice < position.liquidationPrice) ↔
      ¬ if position.isLong then market.markPrice ≤ position.liquidationPrice
        else position.liquidationPrice ≤ market.markPrice := by
    split
    next => exact BitVec.not_le.symm
    next => exact BitVec.not_le.symm
  rw [hside]
  unfold liquidatePosition liquidation
  rw [hposition]
  dsimp only
  rw [hmarket]
  dsimp only
  by_cases hliquidatable : if position.isLong then market.markPrice ≤ position.liquidationPrice
      else position.liquidationPrice ≤ market.markPrice
  · rw [if_pos hliquidatable]
    refine iff_of_false ?_ (not_not.mpr hliquidatable)
    cases liquidationShares engine.config position with
    | none => exact nofun
    | some shares =>
      dsimp only [Option.map_some]
      split <;> exact nofun
  · rw [if_neg hliquidatable]
    exact iff_of_true rfl hliquidatable

/-- What it is to be short of the margin, in whole numbers. -/
theorem underMargin_iff (env : Env) {maintenanceRatio : U32} {price : U256}
    (hentry : position.value position.entryPrice < 2 ^ 127)
    (hprice : position.value price < 2 ^ 127) :
    UnderMargin env position maintenanceRatio price ↔
      ¬ Covered position.isLong position.size.toNat position.entryPrice.toNat
        position.collateral.toNat maintenanceRatio.toNat price.toNat := by
  obtain ⟨pnl, hpnl, hpnlInt⟩ := calculatePnl_exact env hentry hprice
  have hunder : UnderMargin env position maintenanceRatio price ↔
      10000 * (position.collateral.toNat + position.profit price)
        + position.value position.entryPrice < position.value price * maintenanceRatio.toNat := by
    constructor
    · intro h
      obtain ⟨pnl', hpnl', hless⟩ := h
      obtain rfl := Option.some.inj (hpnl.symm.trans hpnl')
      rwa [hpnlInt] at hless
    · intro h
      exact ⟨pnl, hpnl, by rwa [hpnlInt]⟩
  rw [hunder, Position.profit, Covered, LongCovered, ShortCovered]
  unfold Position.value
  generalize position.size.toNat * position.entryPrice.toNat = entryValue
  generalize position.size.toNat * price.toNat = value
  generalize position.collateral.toNat = collateral
  generalize maintenanceRatio.toNat = ratio
  have hmargin : ((value : Int) * ratio) = ((value * ratio : Nat) : Int) := (Nat.cast_mul ..).symm
  rw [hmargin]
  split
  next => omega
  next =>
    rw [Nat.mul_add, Nat.mul_comm value 10000]
    omega

namespace Opened

variable {market : PerpetualMarket} {marketId : H256} {size : U256} {leverage : U32} {isLong : Bool}
  {position : Position}

/-- The answer is that the position is healthy exactly at the prices beyond the threshold. -/
theorem healthy_iff (h : Opened market marketId size leverage isLong position) (price : U256) :
    (if position.isLong then position.liquidationPrice < price
      else price < position.liquidationPrice) ↔
      Healthy isLong (thresholdPrice isLong market.markPrice.toNat leverage.toNat
        market.maintenanceMarginRatio.toNat) price.toNat := by
  rw [← h.liquidationPrice_eq, h.isLong_eq]
  unfold Healthy
  split
  next => exact BitVec.lt_def
  next => exact BitVec.lt_def

theorem value_entryPrice (h : Opened market marketId size leverage isLong position) :
    position.value position.entryPrice = size.toNat * market.markPrice.toNat := by
  rw [Position.value, h.size_eq, h.entryPrice_eq]

/-- It is short of its margin exactly at the prices that its collateral does not cover. -/
theorem underMargin_iff (h : Opened market marketId size leverage isLong position) (env : Env)
    (hfits : size.toNat * market.markPrice.toNat < 2 ^ 127) {price : U256}
    (hprice : position.value price < 2 ^ 127) :
    UnderMargin env position market.maintenanceMarginRatio price ↔
      ¬ Covered isLong size.toNat market.markPrice.toNat
        (openingCollateral size.toNat market.markPrice.toNat leverage.toNat
          market.initialMarginRatio.toNat) market.maintenanceMarginRatio.toNat price.toNat := by
  rw [PerpetualEngine.underMargin_iff env (h.value_entryPrice ▸ hfits) hprice, h.isLong_eq,
    h.size_eq, h.entryPrice_eq, h.collateral_eq]

end Opened

/-- Wherever the price goes, a position that has been opened and is short of its margin can be
liquidated, if and only if the threshold covers it. -/
theorem liquidation_threshold_iff (env : Env) (engine opened : PerpetualEngine) (trader : Address)
    (marketId positionId : H256) (size : U256) (leverage : U32) (isLong : Bool) (draw : OpenDraw)
    (market : PerpetualMarket) (hmarket : engine.markets.lookup marketId = some market)
    (hopen : engine.openPosition env trader marketId size leverage isLong draw
      = (opened, some (.ok positionId)))
    (hfits : size.toNat * market.markPrice.toNat < 2 ^ 127) :
    ∃ position, opened.positions.lookup positionId = some position ∧
      ((∀ (later : PerpetualEngine) (market' : PerpetualMarket) (liquidator : Address),
          later.positions.lookup positionId = some position →
          later.markets.lookup marketId = some market' →
          position.value market'.markPrice < 2 ^ 127 →
          UnderMargin env position market.maintenanceMarginRatio market'.markPrice →
          (later.liquidatePosition liquidator positionId).2 ≠ some (.error .positionHealthy)) ↔
        ThresholdCovers isLong size.toNat market.markPrice.toNat leverage.toNat
          market.initialMarginRatio.toNat market.maintenanceMarginRatio.toNat) := by
  obtain ⟨position, hposition, hopened⟩ := openPosition_opened hmarket hopen
  refine ⟨position, hposition, ?_⟩
  rw [← thresholdCovers_iff]
  constructor
  · intro h price hlt hvalue habove
    -- The market moves to this price.
    have hpriceval : (BitVec.ofNat 256 price).toNat = price := by
      rw [BitVec.toNat_ofNat, Nat.mod_eq_of_lt hlt]
    have hvalue' : position.value (BitVec.ofNat 256 price) < 2 ^ 127 := by
      rw [Position.value, hopened.size_eq, hpriceval]
      exact hvalue
    obtain ⟨later, hlater, hmoved⟩ : ∃ later : PerpetualEngine,
        later.positions.lookup positionId = some position ∧
        later.markets.lookup marketId
          = some { market with markPrice := BitVec.ofNat 256 price } :=
      ⟨opened.setMarket marketId { market with markPrice := BitVec.ofNat 256 price }, hposition,
        AList.lookup_insert _⟩
    by_contra huncovered
    have hless := (hopened.underMargin_iff env hfits hvalue').mpr (by rwa [hpriceval])
    refine h later _ trader hlater hmoved hvalue' hless ?_
    refine (liquidatePosition_healthy_iff hlater (hopened.marketId_eq ▸ hmoved) trader).mpr ?_
    exact (hopened.healthy_iff _).mpr (by rwa [hpriceval])
  · intro h later market' liquidator hlater hmarket' hvalue hless hanswer
    have habove := (hopened.healthy_iff _).mp ((liquidatePosition_healthy_iff hlater
      (hopened.marketId_eq ▸ hmarket') liquidator).mp hanswer)
    refine (hopened.underMargin_iff env hfits hvalue).mp hless (h _ (BitVec.isLt _) ?_ habove)
    rw [Position.value, hopened.size_eq] at hvalue
    exact hvalue

/-! ### A sample -/

/-- The ratios are those of a new market. -/
def thresholdMarket (markPrice : U256) : PerpetualMarket where
  id := .replicate 32 1
  baseToken := .replicate 32 8
  quoteToken := .replicate 32 9
  indexPrice := 1000
  markPrice
  openInterestLong := 0
  openInterestShort := 0
  maxLeverage := 10
  maintenanceMarginRatio := 250
  initialMarginRatio := 500
  fundingRate := 0
  nextFundingTime := 28800
  isActive := true

def thresholdEngine : PerpetualEngine :=
  { new ⟨500, 28800⟩ with
    markets := AList.singleton (.replicate 32 1) (thresholdMarket 1000) }

/-- After a long position of size 1000 is opened with leverage 10. -/
def thresholdOpened : PerpetualEngine :=
  (thresholdEngine.openPosition sampleEnv (.replicate 20 1) (.replicate 32 1) 1000 10 true
    sampleDraw).1

theorem thresholdEngine_opens :
    thresholdEngine.openPosition sampleEnv (.replicate 20 1) (.replicate 32 1) 1000 10 true
      sampleDraw = (thresholdOpened, some (.ok sampleDraw.positionId)) := rfl

/-- On a market it has. -/
theorem thresholdMarket_there : thresholdEngine.markets.lookup (.replicate 32 1)
    = some (thresholdMarket 1000) := rfl

/-- At a price of 910 it has 10000 left of a maintenance margin of 22750, and is healthy. -/
theorem thresholdOpened_unprotected : ¬ ∀ position,
    thresholdOpened.positions.lookup sampleDraw.positionId = some position →
    ∀ (later : PerpetualEngine) (market' : PerpetualMarket) (liquidator : Address),
      later.positions.lookup sampleDraw.positionId = some position →
      later.markets.lookup (.replicate 32 1) = some market' →
      position.value market'.markPrice < 2 ^ 127 →
      UnderMargin sampleEnv position 250 market'.markPrice →
      (later.liquidatePosition liquidator sampleDraw.positionId).2
        ≠ some (.error .positionHealthy) := by
  intro h
  obtain ⟨position, hposition, hopened⟩ :=
    openPosition_opened thresholdMarket_there thresholdEngine_opens
  have hvalue : position.value position.entryPrice < 2 ^ 127 := by
    rw [Position.value, hopened.size_eq, hopened.entryPrice_eq]
    decide
  have hvalue' : position.value 910 < 2 ^ 127 := by
    rw [Position.value, hopened.size_eq]
    decide
  obtain ⟨later, hlater, hmoved⟩ : ∃ later : PerpetualEngine,
      later.positions.lookup sampleDraw.positionId = some position ∧
      later.markets.lookup (.replicate 32 1) = some (thresholdMarket 910) :=
    ⟨thresholdOpened.setMarket (.replicate 32 1) (thresholdMarket 910), hposition,
      AList.lookup_insert _⟩
  refine h position hposition later (thresholdMarket 910) (.replicate 20 2) hlater hmoved hvalue'
    ?_ ?_
  · refine (underMargin_iff sampleEnv hvalue hvalue').mpr ?_
    rw [hopened.isLong_eq, hopened.size_eq, hopened.entryPrice_eq, hopened.collateral_eq]
    decide
  · refine (liquidatePosition_healthy_iff hlater (hopened.marketId_eq ▸ hmoved) _).mpr ?_
    rw [hopened.isLong_eq, if_pos rfl, BitVec.lt_def, hopened.liquidationPrice_eq]
    decide

/-- The theorem at the sample position, a long at ten times leverage. -/
theorem liquidation_threshold_iff_sample :
    ∃ position, thresholdOpened.positions.lookup sampleDraw.positionId = some position ∧
      ((∀ (later : PerpetualEngine) (market' : PerpetualMarket) (liquidator : Address),
          later.positions.lookup sampleDraw.positionId = some position →
          later.markets.lookup (.replicate 32 1) = some market' →
          position.value market'.markPrice < 2 ^ 127 →
          UnderMargin sampleEnv position (thresholdMarket 1000).maintenanceMarginRatio
            market'.markPrice →
          (later.liquidatePosition liquidator sampleDraw.positionId).2
            ≠ some (.error .positionHealthy)) ↔
        ThresholdCovers true (1000 : U256).toNat (thresholdMarket 1000).markPrice.toNat
          (10 : U32).toNat (thresholdMarket 1000).initialMarginRatio.toNat
          (thresholdMarket 1000).maintenanceMarginRatio.toNat) :=
  liquidation_threshold_iff sampleEnv thresholdEngine thresholdOpened (.replicate 20 1)
    (.replicate 32 1) sampleDraw.positionId 1000 10 true sampleDraw (thresholdMarket 1000)
    thresholdMarket_there thresholdEngine_opens (by decide)

end PerpetualEngine

end InterBit.Defi
