import InterBit.Defi.Perpetual
import InterBit.Lib.Assoc
import InterBit.Lib.Trace

/-!
# The open interest of a market

Opening a position raises the open interest of its market, and closing it lowers it again, by what
is there exactly, so that the saturating subtraction does not matter. But a liquidation removes the
position only. `open_interest_iff`: along a run the open interest is the sum of the sizes of the
open positions exactly if only empty positions are liquidated, and the ids that are drawn do not hit
a position or a market that is in use.
-/

namespace InterBit.Defi

open InterBit.Lib

/-- What a position counts for on one side of a market. -/
def sizeOn (marketId : H256) (isLong : Bool) (position : Position) : Nat :=
  if position.marketId = marketId ∧ position.isLong = isLong then position.size.toNat else 0

theorem sizeOn_self (position : Position) :
    sizeOn position.marketId position.isLong position = position.size.toNat := if_pos ⟨rfl, rfl⟩

namespace PerpetualEngine

/-- The open interest on one side of a market. -/
def interest (engine : PerpetualEngine) (marketId : H256) (isLong : Bool) : Option Nat :=
  (engine.markets.lookup marketId).map fun market => (market.openInterest isLong).toNat

/-- The sum of the sizes of the open positions on one side of a market. -/
def openSize (engine : PerpetualEngine) (marketId : H256) (isLong : Bool) : Nat :=
  weigh (sizeOn marketId isLong) engine.positions

/-- The open interest of each market is the sum of the sizes of its open positions. -/
def Balanced (engine : PerpetualEngine) : Prop :=
  ∀ marketId market, engine.markets.lookup marketId = some market →
    market.openInterestLong.toNat = engine.openSize marketId true ∧
    market.openInterestShort.toNat = engine.openSize marketId false

/-- The market of each position is there. -/
def Hosted (engine : PerpetualEngine) : Prop :=
  ∀ positionId position, engine.positions.lookup positionId = some position →
    (engine.interest position.marketId position.isLong).isSome

/-- The books are the same. -/
structure Keeps (engine engine' : PerpetualEngine) : Prop where
  positions_eq : engine'.positions = engine.positions
  interest_eq : ∀ marketId isLong, engine'.interest marketId isLong
    = engine.interest marketId isLong

variable {engine engine' : PerpetualEngine}

/-- Being balanced, spelt out by market and side. -/
theorem balanced_iff : engine.Balanced ↔ ∀ marketId isLong n,
    engine.interest marketId isLong = some n → n = engine.openSize marketId isLong := by
  constructor
  · intro h marketId isLong n hinterest
    obtain ⟨market, hlookup, rfl⟩ := Option.map_eq_some_iff.mp hinterest
    obtain ⟨hlong, hshort⟩ := h marketId market hlookup
    cases isLong with
    | true => exact hlong
    | false => exact hshort
  · intro h marketId market hlookup
    have hinterest : ∀ isLong, engine.interest marketId isLong
        = some (market.openInterest isLong).toNat :=
      fun isLong => Option.map_eq_some_iff.mpr ⟨market, hlookup, rfl⟩
    exact ⟨h marketId true _ (hinterest true), h marketId false _ (hinterest false)⟩

theorem Keeps.balanced_iff (h : Keeps engine engine') : engine'.Balanced ↔ engine.Balanced := by
  have hsize : engine'.openSize = engine.openSize := by
    unfold openSize
    rw [h.positions_eq]
  rw [PerpetualEngine.balanced_iff, PerpetualEngine.balanced_iff, hsize]
  exact forall_congr' fun marketId => forall_congr' fun isLong => by rw [h.interest_eq]

theorem Keeps.hosted (h : Keeps engine engine') (hhosted : engine.Hosted) : engine'.Hosted := by
  intro positionId position hlookup
  rw [h.positions_eq] at hlookup
  rw [h.interest_eq]
  exact hhosted positionId position hlookup

theorem interest_setMarket (engine : PerpetualEngine) (marketId : H256) (market : PerpetualMarket)
    (id : H256) (isLong : Bool) : (engine.setMarket marketId market).interest id isLong =
      if id = marketId then some (market.openInterest isLong).toNat
      else engine.interest id isLong := by
  unfold interest setMarket
  dsimp only
  split
  next hid => rw [hid, AList.lookup_insert, Option.map_some]
  next hid => rw [AList.lookup_insert_ne hid]

/-- A market is replaced by one with the same open interest. -/
theorem keeps_of_setMarket {marketId : H256} {market market' : PerpetualMarket}
    (hlookup : engine.markets.lookup marketId = some market)
    (hpositions : engine'.positions = engine.positions)
    (hmarkets : engine'.markets = engine.markets.insert marketId market')
    (hsame : ∀ isLong, market'.openInterest isLong = market.openInterest isLong) :
    Keeps engine engine' := by
  refine ⟨hpositions, fun id isLong => ?_⟩
  have hset := interest_setMarket engine marketId market' id isLong
  unfold interest at hset ⊢
  rw [hmarkets]
  refine hset.trans ?_
  split
  next hid => rw [hid, hlookup, Option.map_some, hsame]
  next => rfl

/-- The funding rate changes, and the books stay. -/
theorem keeps_updateFundingRate (env : Env) (engine : PerpetualEngine) (marketId rateId : H256)
    (now : Seconds) : Keeps engine (engine.updateFundingRate env marketId rateId now).1 := by
  unfold updateFundingRate
  split
  next => exact ⟨rfl, fun _ _ => rfl⟩
  next market hlookup =>
    split
    next =>
      split
      next => exact ⟨rfl, fun _ _ => rfl⟩
      next =>
        split
        next => exact keeps_of_setMarket hlookup rfl rfl fun _ => rfl
        next => exact keeps_of_setMarket hlookup rfl rfl fun _ => rfl
    next => exact ⟨rfl, fun _ _ => rfl⟩

/-! ## Accounting -/

/-- Only a position without size can go unnoticed. -/
theorem Hosted.weightless_iff (h : engine.Hosted) (positionId : H256) :
    (∀ marketId isLong, (engine.interest marketId isLong).isSome →
      weightAt (sizeOn marketId isLong) engine.positions positionId = 0) ↔
      ∀ old, engine.positions.lookup positionId = some old → old.size = 0 := by
  constructor
  · intro hweight old hold
    have hzero := hweight old.marketId old.isLong (h positionId old hold)
    rw [weightAt, hold] at hzero
    exact BitVec.eq_of_toNat_eq ((sizeOn_self old).symm.trans hzero)
  · intro hsize marketId isLong _
    unfold weightAt
    cases hold : engine.positions.lookup positionId with
    | none => rfl
    | some old =>
      show sizeOn marketId isLong old = 0
      rw [sizeOn, hsize old hold]
      exact ite_self _

/-- What is at one id is replaced, and the open interest goes up by the size of the new one. -/
theorem Balanced.replaced_iff (h : engine.Balanced) (hhosted : engine.Hosted) {positionId : H256}
    (added : H256 → Bool → Nat)
    (hsize : ∀ marketId isLong, engine'.openSize marketId isLong =
      added marketId isLong + weigh (sizeOn marketId isLong) (engine.positions.erase positionId))
    (hinterest : ∀ marketId isLong, engine'.interest marketId isLong =
      (engine.interest marketId isLong).map (· + added marketId isLong)) :
    engine'.Balanced ↔ ∀ old, engine.positions.lookup positionId = some old → old.size = 0 := by
  rw [← hhosted.weightless_iff, balanced_iff]
  refine forall_congr' fun marketId => forall_congr' fun isLong => ?_
  rw [hsize, hinterest]
  cases hbefore : engine.interest marketId isLong with
  | none => exact iff_of_true (fun _ => nofun) nofun
  | some n =>
    -- before, the sum also counts what is at the id
    have hn : n = _ := balanced_iff.mp h marketId isLong n hbefore
    rw [openSize, weigh_eq_weightAt _ _ positionId] at hn
    constructor
    · intro hafter _
      have heq : n + added marketId isLong = _ := hafter _ rfl
      omega
    · intro hzero n' hn'
      have hweight := hzero rfl
      have heq : n + added marketId isLong = n' := Option.some.inj hn'
      omega

variable {position : Position} {market : PerpetualMarket}

/-- A position is closed: the open interest goes down by its size. -/
theorem Balanced.closed (h : engine.Balanced) {positionId : H256}
    (hlookup : engine.positions.lookup positionId = some position)
    (hpositions : engine'.positions = engine.positions.erase positionId)
    (hinterest : ∀ marketId isLong, engine'.interest marketId isLong =
      (engine.interest marketId isLong).map (· - sizeOn marketId isLong position)) :
    engine'.Balanced := by
  rw [balanced_iff]
  intro marketId isLong n hn
  rw [hinterest] at hn
  obtain ⟨n', hbefore, rfl⟩ := Option.map_eq_some_iff.mp hn
  have hsum := balanced_iff.mp h marketId isLong n' hbefore
  rw [openSize, weigh_erase hlookup] at hsum
  rw [openSize, hpositions, hsum, Nat.add_sub_cancel_left]

/-! ## What the calls do -/

theorem openInterest_setOpenInterest (market : PerpetualMarket) (isLong isLong' : Bool)
    (interest : U256) : (market.setOpenInterest isLong interest).openInterest isLong' =
      if isLong' = isLong then interest else market.openInterest isLong' := by
  unfold PerpetualMarket.setOpenInterest PerpetualMarket.openInterest
  cases isLong <;> cases isLong' <;> rfl

/-- A new position carries the arguments it was opened with. -/
theorem newPosition_fields {trader : Address} {marketId : H256} {size : U256} {leverage : U32}
    {isLong : Bool} {draw : OpenDraw}
    (h : engine.newPosition trader marketId size leverage isLong draw = some (.ok position)) :
    position.marketId = marketId ∧ position.isLong = isLong ∧ position.size = size ∧
      ∃ market, engine.markets.lookup marketId = some market := by
  unfold newPosition at h
  split at h
  next => cases h
  next market hlookup =>
    split at h
    next => cases h
    next =>
      split at h
      next => cases h
      next =>
        obtain ⟨made, hmade, hok⟩ := Option.map_eq_some_iff.mp h
        cases hok
        unfold positionIn at hmade
        obtain ⟨_, _, hmade⟩ := Option.bind_eq_some_iff.mp hmade
        obtain ⟨_, _, hmade⟩ := Option.bind_eq_some_iff.mp hmade
        cases hmade
        exact ⟨rfl, rfl, rfl, market, hlookup⟩

/-- A position counts for its side of its market only. -/
theorem sizeOn_eq (position : Position) (marketId : H256) (isLong : Bool) :
    sizeOn marketId isLong position =
      if marketId = position.marketId then
        if isLong = position.isLong then position.size.toNat else 0
      else 0 := by
  unfold sizeOn
  rw [ite_and]
  simp only [eq_comm]

/-- The open interest changes by `f` on the side and in the market of a position. -/
theorem interest_setOpenInterest {amount : U256}
    {f : Nat → Nat → Nat} (hf : ∀ n, f n 0 = n)
    (hlookup : engine.markets.lookup position.marketId = some market)
    (hamount : amount.toNat
      = f (market.openInterest position.isLong).toNat position.size.toNat)
    (marketId : H256) (isLong : Bool) :
    (engine.setMarket position.marketId
      (market.setOpenInterest position.isLong amount)).interest marketId isLong =
      (engine.interest marketId isLong).map fun n => f n (sizeOn marketId isLong position) := by
  rw [interest_setMarket, sizeOn_eq]
  by_cases hid : marketId = position.marketId
  · rw [if_pos hid, if_pos hid, hid, interest, hlookup, Option.map_some, Option.map_some,
      openInterest_setOpenInterest]
    by_cases hside : isLong = position.isLong
    · rw [if_pos hside, if_pos hside, hside, hamount]
    · rw [if_neg hside, if_neg hside, hf]
  · rw [if_neg hid, if_neg hid]
    simp only [hf, Option.map_id']

/-- The open interest goes up by the size of a position. -/
theorem addInterest_spec (hlookup : engine.markets.lookup position.marketId = some market)
    (h : engine.addInterest position.marketId position.isLong position.size = some engine') :
    engine'.positions = engine.positions ∧ ∀ marketId isLong, engine'.interest marketId isLong =
      (engine.interest marketId isLong).map (· + sizeOn marketId isLong position) := by
  unfold addInterest at h
  rw [hlookup] at h
  dsimp only at h
  split at h
  next => cases h
  next interest hadd =>
    cases h
    exact ⟨rfl, interest_setOpenInterest (f := (· + ·)) Nat.add_zero hlookup
      (addU256_eq.mp hadd)⟩

/-- The open interest goes down by the size of a position. -/
theorem interest_subInterest (hlookup : engine.markets.lookup position.marketId = some market)
    (marketId : H256) (isLong : Bool) : (engine.subInterest position).interest marketId isLong =
      (engine.interest marketId isLong).map (· - sizeOn marketId isLong position) := by
  unfold subInterest
  rw [hlookup]
  exact interest_setOpenInterest (f := (· - ·)) Nat.sub_zero hlookup (toNat_saturatingSub ..)
    marketId isLong

/-- A call of `open_position` comes to insert the position. -/
def Opens (engine : PerpetualEngine) (trader : Address) (marketId : H256) (size : U256)
    (leverage : U32) (isLong : Bool) (draw : OpenDraw) : Prop :=
  (∃ position, engine.newPosition trader marketId size leverage isLong draw
    = some (.ok position)) ∧ (engine.addInterest marketId isLong size).isSome

theorem openPosition_cases (env : Env) (engine : PerpetualEngine) (trader : Address)
    (marketId : H256) (size : U256) (leverage : U32) (isLong : Bool) (draw : OpenDraw) :
    (¬ engine.Opens trader marketId size leverage isLong draw ∧
      (engine.openPosition env trader marketId size leverage isLong draw).1 = engine) ∨
    engine.Opens trader marketId size leverage isLong draw ∧ ∃ position market raised,
      engine.markets.lookup position.marketId = some market ∧
      engine.addInterest position.marketId position.isLong position.size = some raised ∧
      Keeps { raised with positions := raised.positions.insert draw.positionId position }
        (engine.openPosition env trader marketId size leverage isLong draw).1 := by
  unfold openPosition Opens
  cases hnew : engine.newPosition trader marketId size leverage isLong draw with
  | none => exact Or.inl ⟨fun h => (nomatch h.1), rfl⟩
  | some result =>
    cases result with
    | error error => exact Or.inl ⟨fun h => (nomatch h.1), rfl⟩
    | ok position =>
      obtain ⟨rfl, rfl, rfl, market, hlookup⟩ := newPosition_fields hnew
      dsimp only
      cases hadd : engine.addInterest position.marketId position.isLong position.size with
      | none => exact Or.inl ⟨fun h => (nomatch h.2), rfl⟩
      | some raised =>
        refine Or.inr ⟨⟨⟨position, rfl⟩, rfl⟩, position, market, raised, hlookup, hadd, ?_⟩
        have hkeeps := keeps_updateFundingRate env { raised with
          positions := raised.positions.insert draw.positionId position } position.marketId
          draw.rateId draw.now
        dsimp only
        revert hkeeps
        rcases updateFundingRate env { raised with
          positions := raised.positions.insert draw.positionId position } position.marketId
          draw.rateId draw.now with ⟨engine', _ | error | ⟨⟩⟩ <;> exact id

theorem closePosition_cases (env : Env) (engine : PerpetualEngine) (trader : Address)
    (positionId : H256) (now : Seconds) :
    (∃ o, engine.closePosition env trader positionId now = (engine, o) ∧
      ∀ result, o ≠ some (.ok result)) ∨
    ∃ position market result, engine.positions.lookup positionId = some position ∧
      engine.markets.lookup position.marketId = some market ∧
      engine.closePosition env trader positionId now
        = ((engine.subInterest position).removePosition positionId, some (.ok result)) := by
  unfold closePosition
  split
  next => exact Or.inl ⟨none, rfl, fun _ => nofun⟩
  next error _ => exact Or.inl ⟨some (.error error), rfl, fun _ => nofun⟩
  next position result hclosing =>
    right
    unfold closing at hclosing
    split at hclosing
    next => cases hclosing
    next position' hposition =>
      split at hclosing
      next => cases hclosing
      next =>
        split at hclosing
        next => cases hclosing
        next market hmarket =>
          obtain ⟨_, _, heq⟩ := Option.map_eq_some_iff.mp hclosing
          cases heq
          exact ⟨position, market, result, hposition, hmarket, rfl⟩

/-- A call of `liquidate_position` comes to remove the position. -/
def Liquidates (engine : PerpetualEngine) (positionId : H256) : Prop :=
  ∃ reward contribution, engine.liquidation positionId = some (.ok (reward, contribution)) ∧
    (engine.contribute contribution).2 = some ()

theorem keeps_contribute (engine : PerpetualEngine) (contribution : U256) :
    Keeps engine (engine.contribute contribution).1 := by
  unfold contribute
  split
  next => exact ⟨rfl, fun _ _ => rfl⟩
  next =>
    dsimp only
    split <;> exact ⟨rfl, fun _ _ => rfl⟩

theorem liquidatePosition_cases (engine : PerpetualEngine) (liquidator : Address)
    (positionId : H256) :
    (¬ engine.Liquidates positionId ∧
      Keeps engine (engine.liquidatePosition liquidator positionId).1) ∨
    engine.Liquidates positionId ∧ ∃ paid, Keeps engine paid ∧
      (engine.liquidatePosition liquidator positionId).1 = paid.removePosition positionId := by
  unfold liquidatePosition Liquidates
  cases hcheck : engine.liquidation positionId with
  | none => exact Or.inl ⟨fun ⟨_, _, h, _⟩ => (nomatch h), rfl, fun _ _ => rfl⟩
  | some result =>
    cases result with
    | error error => exact Or.inl ⟨fun ⟨_, _, h, _⟩ => (by cases h), rfl, fun _ _ => rfl⟩
    | ok shares =>
      obtain ⟨reward, contribution⟩ := shares
      dsimp only
      have hkeeps := engine.keeps_contribute contribution
      cases hpay : engine.contribute contribution with
      | mk paid result =>
        rw [hpay] at hkeeps
        cases result with
        | none =>
          refine Or.inl ⟨?_, hkeeps⟩
          rintro ⟨_, _, h, hpaid⟩
          cases h
          rw [hpay] at hpaid
          cases hpaid
        | some =>
          exact Or.inr ⟨⟨reward, contribution, rfl, congrArg Prod.snd hpay⟩, paid, hkeeps, rfl⟩

/-- Only the collateral and the liquidation price of a position change. -/
theorem addCollateral_cases (engine : PerpetualEngine) (trader : Address) (positionId : H256)
    (amount : U256) :
    (engine.addCollateral trader positionId amount).1 = engine ∨ ∃ position position',
      engine.positions.lookup positionId = some position ∧
      position'.marketId = position.marketId ∧ position'.isLong = position.isLong ∧
      position'.size = position.size ∧ (engine.addCollateral trader positionId amount).1
        = { engine with positions := engine.positions.insert positionId position' } := by
  unfold addCollateral
  split
  next => exact Or.inl rfl
  next position hposition =>
    split
    next => exact Or.inl rfl
    next =>
      split
      next => exact Or.inl rfl
      next collateral _ =>
        right
        refine ⟨position, ?_⟩
        dsimp only
        split
        next => exact ⟨{ position with collateral }, hposition, rfl, rfl, rfl, rfl⟩
        next =>
          split
          next => exact ⟨{ position with collateral }, hposition, rfl, rfl, rfl, rfl⟩
          next liquidationPrice _ =>
            rw [AList.insert_insert]
            exact ⟨{ position with collateral, liquidationPrice }, hposition, rfl, rfl, rfl, rfl⟩

/-! ## Runs -/

end PerpetualEngine

/-- A call. -/
inductive PerpetualCall where
  | createMarket (marketId baseToken quoteToken : H256) (maxLeverage : U32) (now : Seconds)
  | openPosition (trader : Address) (marketId : H256) (size : U256) (leverage : U32) (isLong : Bool)
      (draw : OpenDraw)
  | addCollateral (trader : Address) (positionId : H256) (amount : U256)
  | closePosition (trader : Address) (positionId : H256) (now : Seconds)
  | liquidatePosition (liquidator : Address) (positionId : H256)

namespace PerpetualEngine

/-- One call. -/
def next (env : Env) (engine : PerpetualEngine) : PerpetualCall → PerpetualEngine
  | .createMarket marketId baseToken quoteToken maxLeverage now =>
    (engine.createMarket env marketId baseToken quoteToken maxLeverage now).1
  | .openPosition trader marketId size leverage isLong draw =>
    (engine.openPosition env trader marketId size leverage isLong draw).1
  | .addCollateral trader positionId amount => (engine.addCollateral trader positionId amount).1
  | .closePosition trader positionId now => (engine.closePosition env trader positionId now).1
  | .liquidatePosition liquidator positionId => (engine.liquidatePosition liquidator positionId).1

/-- After the call the books are balanced. -/
def StaysBalanced (env : Env) (engine : PerpetualEngine) (call : PerpetualCall) : Prop :=
  (engine.next env call).Balanced

/-- A position that is liquidated has no size, and the ids that are drawn are not those of a
position with a size, or of the market of one. -/
def Accounted (env : Env) (engine : PerpetualEngine) : PerpetualCall → Prop
  | .createMarket marketId baseToken quoteToken maxLeverage now =>
    (newMarket env engine.config marketId baseToken quoteToken maxLeverage now).isSome →
      ∀ isLong, engine.openSize marketId isLong = 0
  | .openPosition trader marketId size leverage isLong draw =>
    engine.Opens trader marketId size leverage isLong draw →
      ∀ old, engine.positions.lookup draw.positionId = some old → old.size = 0
  | .addCollateral _ _ _ => True
  | .closePosition _ _ _ => True
  | .liquidatePosition _ positionId => engine.Liquidates positionId →
    ∀ old, engine.positions.lookup positionId = some old → old.size = 0

variable {engine : PerpetualEngine}

theorem Balanced.createMarket_iff (h : engine.Balanced) (env : Env)
    (marketId baseToken quoteToken : H256) (maxLeverage : U32) (now : Seconds) :
    (engine.createMarket env marketId baseToken quoteToken maxLeverage now).1.Balanced ↔
      ((newMarket env engine.config marketId baseToken quoteToken maxLeverage now).isSome →
        ∀ isLong, engine.openSize marketId isLong = 0) := by
  unfold createMarket
  cases hnew : newMarket env engine.config marketId baseToken quoteToken maxLeverage now with
  | none => exact iff_of_true h nofun
  | some market =>
    have hzero : ∀ isLong, (market.openInterest isLong).toNat = 0 := by
      unfold newMarket at hnew
      obtain ⟨_, _, hnew⟩ := Option.bind_eq_some_iff.mp hnew
      obtain ⟨_, _, hnew⟩ := Option.bind_eq_some_iff.mp hnew
      cases hnew
      intro isLong
      cases isLong <;> rfl
    rw [balanced_iff]
    constructor
    · intro hafter _ isLong
      have hinterest := interest_setMarket engine marketId market marketId isLong
      rw [if_pos rfl, hzero] at hinterest
      exact (hafter marketId isLong 0 hinterest).symm
    · intro hempty id isLong n hn
      rw [interest_setMarket] at hn
      split at hn
      next hid =>
        rw [hzero] at hn
        obtain rfl := Option.some.inj hn
        rw [hid]
        exact (hempty rfl isLong).symm
      next => exact balanced_iff.mp h id isLong n hn

/-- Opening is balanced unless its id replaces a position of some size. -/
theorem Balanced.openPosition_iff (h : engine.Balanced) (hhosted : engine.Hosted) (env : Env)
    (trader : Address) (marketId : H256) (size : U256) (leverage : U32) (isLong : Bool)
    (draw : OpenDraw) :
    (engine.openPosition env trader marketId size leverage isLong draw).1.Balanced ↔
      (engine.Opens trader marketId size leverage isLong draw →
        ∀ old, engine.positions.lookup draw.positionId = some old → old.size = 0) := by
  rcases openPosition_cases env engine trader marketId size leverage isLong draw with
    ⟨hno, hsame⟩ | ⟨hopens, position, market, raised, hlookup, hadd, hkeeps⟩
  · rw [hsame]
    exact iff_of_true h fun hopens => absurd hopens hno
  · obtain ⟨hpositions, hinterest⟩ := addInterest_spec hlookup hadd
    rw [hkeeps.balanced_iff, forall_prop_of_true hopens]
    refine h.replaced_iff hhosted (fun marketId isLong => sizeOn marketId isLong position)
      (fun marketId isLong => ?_) hinterest
    show weigh _ (raised.positions.insert draw.positionId position) = _
    rw [weigh_insert, hpositions]

/-- Closing a position is always balanced. -/
theorem Balanced.closePosition (h : engine.Balanced) (env : Env) (trader : Address)
    (positionId : H256) (now : Seconds) :
    (engine.closePosition env trader positionId now).1.Balanced := by
  rcases closePosition_cases env engine trader positionId now with
    ⟨_, hsame, _⟩ | ⟨position, market, _, hposition, hmarket, hclosed⟩
  · rw [hsame]
    exact h
  · rw [hclosed]
    refine h.closed hposition ?_ (interest_subInterest hmarket)
    unfold removePosition subInterest
    rw [hmarket]
    rfl

/-- A liquidation is balanced only for a position of size zero. -/
theorem Balanced.liquidatePosition_iff (h : engine.Balanced) (hhosted : engine.Hosted)
    (liquidator : Address) (positionId : H256) :
    (engine.liquidatePosition liquidator positionId).1.Balanced ↔
      (engine.Liquidates positionId →
        ∀ old, engine.positions.lookup positionId = some old → old.size = 0) := by
  rcases liquidatePosition_cases engine liquidator positionId with
    ⟨hno, hkeeps⟩ | ⟨hyes, paid, hkeeps, hremoved⟩
  · exact iff_of_true (hkeeps.balanced_iff.mpr h) fun hyes => absurd hyes hno
  · -- nothing takes the place of the position, and the open interest does not change
    rw [hremoved, forall_prop_of_true hyes]
    refine h.replaced_iff hhosted (fun _ _ => 0) (fun marketId isLong => ?_)
      fun marketId isLong => ?_
    · show weigh _ (paid.positions.erase positionId) = _
      rw [hkeeps.positions_eq, Nat.zero_add]
    · exact (hkeeps.interest_eq marketId isLong).trans Option.map_id'.symm

/-- Collateral is not counted, so adding some is balanced. -/
theorem Balanced.addCollateral (h : engine.Balanced) (trader : Address) (positionId : H256)
    (amount : U256) : (engine.addCollateral trader positionId amount).1.Balanced := by
  rcases addCollateral_cases engine trader positionId amount with
    hsame | ⟨position, position', hposition, hmarket, hside, hsize, hadded⟩
  · rw [hsame]
    exact h
  · rw [hadded, balanced_iff]
    intro marketId isLong n hn
    have hsame : sizeOn marketId isLong position' = sizeOn marketId isLong position := by
      unfold sizeOn
      rw [hmarket, hside, hsize]
    have hsum := balanced_iff.mp h marketId isLong n hn
    rw [openSize, weigh_erase hposition, ← hsame] at hsum
    exact hsum

/-- Each position has been hosted before, and no market is removed. -/
theorem Hosted.of_lookup (engine : PerpetualEngine) {engine' : PerpetualEngine}
    (hinterest : ∀ marketId isLong, (engine.interest marketId isLong).isSome →
      (engine'.interest marketId isLong).isSome)
    (hpositions : ∀ positionId position, engine'.positions.lookup positionId = some position →
      (engine.interest position.marketId position.isLong).isSome) : engine'.Hosted :=
  fun positionId position hlookup => hinterest _ _ (hpositions positionId position hlookup)

theorem Hosted.removePosition (h : engine.Hosted) (positionId : H256) :
    (engine.removePosition positionId).Hosted := by
  refine Hosted.of_lookup engine (fun _ _ => id) fun id position hlookup => ?_
  have hne : id ≠ positionId := by
    rintro rfl
    exact nomatch (AList.lookup_erase _ _).symm.trans hlookup
  exact h id position ((AList.lookup_erase_ne hne).symm.trans hlookup)

theorem isSome_interest {marketId : H256} {market : PerpetualMarket}
    (h : engine.markets.lookup marketId = some market) (isLong : Bool) :
    (engine.interest marketId isLong).isSome := by
  rw [interest, h]
  rfl

/-- A position is inserted into a market that is there. -/
theorem Hosted.insert (h : engine.Hosted) {positionId : H256} {position : Position}
    (hmarket : (engine.interest position.marketId position.isLong).isSome) :
    Hosted { engine with positions := engine.positions.insert positionId position } := by
  refine Hosted.of_lookup engine (fun _ _ => id) fun id position' hlookup => ?_
  rcases (lookup_insert_eq_some (m := engine.positions)).mp hlookup with ⟨_, rfl⟩ | ⟨_, hold⟩
  · exact hmarket
  · exact h id position' hold

/-- Writing a market takes none away. -/
theorem Hosted.setMarket (h : engine.Hosted) (marketId : H256) (market : PerpetualMarket) :
    (engine.setMarket marketId market).Hosted := by
  refine Hosted.of_lookup engine (fun id isLong hsome => ?_) h
  rw [interest_setMarket]
  split
  next => rfl
  next => exact hsome

/-- The market of each position stays. -/
theorem Hosted.next (h : engine.Hosted) (env : Env) (call : PerpetualCall) :
    (engine.next env call).Hosted := by
  unfold PerpetualEngine.next
  cases call with
  | createMarket marketId baseToken quoteToken maxLeverage now =>
    dsimp only
    unfold createMarket
    split
    next => exact h
    next market _ => exact h.setMarket marketId market
  | openPosition trader marketId size leverage isLong draw =>
    dsimp only
    rcases openPosition_cases env engine trader marketId size leverage isLong draw with
      ⟨_, hsame⟩ | ⟨_, position, market, raised, hlookup, hadd, hkeeps⟩
    · rw [hsame]
      exact h
    · obtain ⟨hpositions, hinterest⟩ := addInterest_spec hlookup hadd
      -- raising the interest keeps the markets, and the position's own is there
      have hraised : ∀ marketId isLong, (engine.interest marketId isLong).isSome →
          (raised.interest marketId isLong).isSome := by
        intro marketId isLong hsome
        rw [hinterest, Option.isSome_map]
        exact hsome
      have hhosted : raised.Hosted := Hosted.of_lookup engine hraised (hpositions ▸ h)
      exact hkeeps.hosted (hhosted.insert (hraised _ _ (isSome_interest hlookup _)))
  | addCollateral trader positionId amount =>
    dsimp only
    rcases addCollateral_cases engine trader positionId amount with
      hsame | ⟨position, position', hposition, hmarket, hside, _, hadded⟩
    · rw [hsame]
      exact h
    · rw [hadded]
      refine h.insert ?_
      rw [hmarket, hside]
      exact h positionId position hposition
  | closePosition trader positionId now =>
    dsimp only
    rcases closePosition_cases env engine trader positionId now with
      ⟨_, hsame, _⟩ | ⟨position, market, _, _, hmarket, hclosed⟩
    · rw [hsame]
      exact h
    · rw [hclosed, subInterest, hmarket]
      exact (h.setMarket _ _).removePosition positionId
  | liquidatePosition liquidator positionId =>
    dsimp only
    rcases liquidatePosition_cases engine liquidator positionId with
      ⟨_, hkeeps⟩ | ⟨_, paid, hkeeps, hremoved⟩
    · exact hkeeps.hosted h
    · rw [hremoved]
      exact (hkeeps.hosted h).removePosition positionId

/-- The step lemma in both directions, one case for each call. -/
theorem Balanced.staysBalanced_iff (h : engine.Balanced) (hhosted : engine.Hosted) (env : Env)
    (call : PerpetualCall) : engine.StaysBalanced env call ↔ engine.Accounted env call := by
  cases call with
  | createMarket marketId baseToken quoteToken maxLeverage now =>
    exact h.createMarket_iff env marketId baseToken quoteToken maxLeverage now
  | openPosition trader marketId size leverage isLong draw =>
    exact h.openPosition_iff hhosted env trader marketId size leverage isLong draw
  | addCollateral trader positionId amount =>
    exact iff_of_true (h.addCollateral trader positionId amount) trivial
  | closePosition trader positionId now =>
    exact iff_of_true (h.closePosition env trader positionId now) trivial
  | liquidatePosition liquidator positionId =>
    exact h.liquidatePosition_iff hhosted liquidator positionId

/-- Along a run the books stay balanced exactly if no position that has a size is liquidated, and
the ids that are drawn are not in use. -/
theorem open_interest_iff (env : Env) (config : DeFiConfig) (calls : List PerpetualCall) :
    Always (next env) (StaysBalanced env) (new config) calls ↔
      Always (next env) (Accounted env) (new config) calls := by
  refine always_iff (I := fun engine => engine.Balanced ∧ engine.Hosted)
    ⟨fun _ _ => nofun, fun _ _ => nofun⟩ ?_ ?_
  · rintro engine call ⟨h, hhosted⟩ hproper
    exact ⟨(h.staysBalanced_iff hhosted env call).mpr hproper, hhosted.next env call⟩
  · rintro engine call ⟨h, hhosted⟩
    exact h.staysBalanced_iff hhosted env call

/-- A build without overflow checks. -/
def sampleEnv : Env := (sampleKeccakEnv false).toEnv

/-- What is drawn for a first position. -/
def sampleDraw : OpenDraw where
  positionId := Vector.replicate 32 2
  rateId := Vector.replicate 32 3
  created := .ofNat 0
  lastFunding := .ofNat 0
  now := .ofNat 0

/-- A market with a leverage of up to 5000, and a position in it that can be liquidated at once. -/
def sampleCalls : List PerpetualCall :=
  [.createMarket (Vector.replicate 32 1) (Vector.replicate 32 8) (Vector.replicate 32 9) 5000
      (.ofNat 0),
    .openPosition (Vector.replicate 20 1) (Vector.replicate 32 1) 1 5000 true sampleDraw]

/-- The position is liquidated, and the market keeps its open interest. -/
theorem interest_left_over :
    ¬ Always (next sampleEnv) (StaysBalanced sampleEnv) (new ⟨500, 28800⟩)
      (sampleCalls ++ [.liquidatePosition (Vector.replicate 20 2) sampleDraw.positionId]) := by
  rintro ⟨_, _, hbalanced, _⟩
  have heq := balanced_iff.mp hbalanced (Vector.replicate 32 1) true 1 (by decide +kernel)
  revert heq
  decide +kernel

end PerpetualEngine

end InterBit.Defi
