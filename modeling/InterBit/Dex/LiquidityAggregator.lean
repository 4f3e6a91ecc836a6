import InterBit.Dex.Routing
import Mathlib.Data.List.AList

/-!
# Quotes of the liquidity aggregator

`dex/smart_routing/liquidity_aggregator.rs`. What a pool pays for an amount, by protocol: the
amount, the fee and the reserves. The tick of a concentrated pool and the price at a tick are
floating-point numbers that no amount depends on.
-/

namespace InterBit.Dex

open Panicking

/-- `struct LiquiditySource`. -/
structure LiquiditySource where
  reserveA : U256
  reserveB : U256
  deriving DecidableEq

/-- `struct LiquidityAggregator`. -/
structure LiquidityAggregator where
  liquiditySources : AList fun _ : H256 => LiquiditySource

/-- `struct Quote`. -/
structure Quote where
  outputAmount : U256
  deriving DecidableEq

/-- The amount out, the fee and the reserves. -/
abbrev SwapOutput := U256 × U256 × (U256 × U256)

namespace LiquidityAggregator

/-- `get_liquidity_source`. -/
def getLiquiditySource (aggregator : LiquidityAggregator) (poolAddress : H256) :
    Except RoutingError LiquiditySource :=
  match aggregator.liquiditySources.lookup poolAddress with
  | some source => .ok source
  | none => .error .poolNotFound

/-- The part of an amount that is the fee. -/
def feeOf (pool : PoolInfo) (amount : U256) : Panicking U256 := do
  let scaled ← mul amount (pool.feeTier.setWidth 256)
  div scaled 1000000

/-- The smaller number from the larger one. -/
def distance (a b : U256) : Panicking U256 := if b < a then sub a b else sub b a

/-! ### Constant product -/

/-- `calculate_amm_v2_output`. -/
def calculateAmmV2Output (aggregator : LiquidityAggregator) (pool : PoolInfo) (amountIn : U256) :
    Panicking (Except RoutingError SwapOutput) :=
  match aggregator.getLiquiditySource pool.address with
  | .error error => return .error error
  | .ok source => do
    let amountInWithFee ← mul amountIn 997
    let numerator ← mul amountInWithFee source.reserveB
    let scaled ← mul source.reserveA 1000
    let denominator ← add scaled amountInWithFee
    if denominator = 0 then return .error .insufficientLiquidity
    let amountOut ← div numerator denominator
    let tripled ← mul amountIn 3
    let fee ← div tripled 1000
    return .ok (amountOut, fee, (source.reserveA, source.reserveB))

/-! ### Concentrated liquidity, by the square root of the price -/

/-- The loop of `sqrt`. -/
def sqrtLoop (value x y : U256) : Panicking U256 :=
  if y < x then do
    let quotient ← div value y
    let sum ← add y quotient
    let next ← div sum 2
    sqrtLoop value y next
  else return x
termination_by x.toNat
decreasing_by exact BitVec.lt_def.mp ‹_›

/-- `sqrt`. -/
def sqrt (value : U256) : Panicking U256 :=
  if value = 0 then return 0
  else do
    let sum ← add value 1
    let y ← div sum 2
    sqrtLoop value value y

/-- `calculate_sqrt_price`. -/
def calculateSqrtPrice (reserveA reserveB : U256) : Panicking U256 :=
  if reserveA = 0 ∨ reserveB = 0 then return 2 ^ 96
  else do
    let scaled ← mul reserveB (2 ^ 96)
    let ratio ← div scaled reserveA
    sqrt ratio

/-- `calculate_liquidity_v3`. -/
def calculateLiquidityV3 (reserveA reserveB sqrtPrice : U256) : Panicking U256 :=
  if sqrtPrice = 0 then return 0
  else do
    let scaledA ← mul reserveA sqrtPrice
    let liquidityA ← div scaledA (2 ^ 96)
    let scaledB ← mul reserveB (2 ^ 96)
    let liquidityB ← div scaledB sqrtPrice
    return minU256 liquidityA liquidityB

/-- `get_sqrt_price_target`. -/
def getSqrtPriceTarget (sqrtPriceCurrent liquidity amount : U256) (zeroForOne : Bool) :
    Panicking U256 :=
  if liquidity = 0 then return sqrtPriceCurrent
  else do
    let scaled ← mul amount (2 ^ 96)
    let delta ← div scaled liquidity
    if zeroForOne then
      -- `saturating_sub`
      return if delta ≤ sqrtPriceCurrent then sqrtPriceCurrent - delta else 0
    else add sqrtPriceCurrent delta

/-- `calculate_output_from_price_change`. -/
def calculateOutputFromPriceChange (liquidity sqrtPriceStart sqrtPriceEnd : U256) :
    Panicking U256 :=
  if sqrtPriceStart = sqrtPriceEnd then return 0
  else do
    let delta ← distance sqrtPriceStart sqrtPriceEnd
    let scaled ← mul liquidity delta
    div scaled (2 ^ 96)

/-- `calculate_amm_v3_output`. -/
def calculateAmmV3Output (aggregator : LiquidityAggregator) (pool : PoolInfo) (amountIn : U256) :
    Panicking (Except RoutingError SwapOutput) :=
  match aggregator.getLiquiditySource pool.address with
  | .error error => return .error error
  | .ok source => do
    let sqrtPrice ← calculateSqrtPrice source.reserveA source.reserveB
    let liquidity ← calculateLiquidityV3 source.reserveA source.reserveB sqrtPrice
    let sqrtPriceTarget ← getSqrtPriceTarget sqrtPrice liquidity amountIn true
    let amountOut ← calculateOutputFromPriceChange liquidity sqrtPrice sqrtPriceTarget
    let fee ← feeOf pool amountIn
    return .ok (amountOut, fee, (source.reserveA, source.reserveB))

/-! ### Stable swap -/

/-- A loop of `calculate_d` and `calculate_y`: it ends at a denominator of zero, when the value
moves by one at most, or with the rounds. -/
def iterate (next : U256 → Panicking (Option U256)) : Nat → U256 → Panicking U256
  | 0, value => return value
  | rounds + 1, value => do
    match ← next value with
    | none => return value
    | some value' =>
      let moved ← distance value' value
      if moved ≤ 1 then return value' else iterate next rounds value'

/-- A round of `calculate_d`; `none` is a denominator of zero. -/
def nextD (sum amp d : U256) : Panicking (Option U256) := do
  let dSquared ← mul d d
  let dCubed ← mul dSquared d
  let ampSum ← mul amp sum
  let ampSumSquared ← mul ampSum sum
  let numerator ← add dCubed ampSumSquared
  let doubled ← mul 2 dSquared
  let ampSum ← mul amp sum
  let total ← add doubled ampSum
  let denominator ← sub total d
  if denominator = 0 then return none
  let d ← div numerator denominator
  return some d

/-- `calculate_d`. -/
def calculateD (x y amp : U256) : Panicking U256 := do
  let sum ← add x y
  if sum = 0 then return 0
  iterate (nextD sum amp) 255 sum

/-- A round of `calculate_y`; `none` is a denominator of zero. -/
def nextY (x d amp y : U256) : Panicking (Option U256) := do
  let ySquared ← mul y y
  let dSquared ← mul d d
  let doubledX ← mul 2 x
  let quotient ← div dSquared doubledX
  let numerator ← add ySquared quotient
  let doubledY ← mul 2 y
  let dPart ← div d amp
  let total ← add doubledY dPart
  let denominator ← sub total d
  if denominator = 0 then return none
  let y ← div numerator denominator
  return some y

/-- `calculate_y`. -/
def calculateY (x d amp : U256) : Panicking U256 := iterate (nextY x d amp) 255 d

/-- `calculate_stable_swap_output`. -/
def calculateStableSwapOutput (aggregator : LiquidityAggregator) (pool : PoolInfo)
    (amountIn : U256) : Panicking (Except RoutingError SwapOutput) :=
  match aggregator.getLiquiditySource pool.address with
  | .error error => return .error error
  | .ok source => do
    let amp : U256 := 100
    let d ← calculateD source.reserveA source.reserveB amp
    let newReserveA ← add source.reserveA amountIn
    let newReserveB ← calculateY newReserveA d amp
    if source.reserveB ≤ newReserveB then return .error .insufficientLiquidity
    let amountOut ← sub source.reserveB newReserveB
    let scaled ← mul amountOut 4
    let fee ← div scaled 10000
    let amountOut ← sub amountOut fee
    return .ok (amountOut, fee, (source.reserveA, source.reserveB))

/-! ### Concentrated liquidity, by ticks -/

/-- What `calculate_tick_from_price` takes the logarithm of; `none` is the tick zero. -/
def calculateTickFromPrice (reserveA reserveB : U256) : Panicking (Option U128) :=
  if reserveA = 0 ∨ reserveB = 0 then return none
  else do
    let scaled ← mul reserveB (10 ^ 18)
    let priceRatio ← div scaled reserveA
    let ratio ← asU128 priceRatio
    return some ratio

/-- `get_initialized_ticks`. -/
def getInitializedTicks : List Int := [-100, -60, 0, 60, 100]

/-- `get_tick_liquidity`. -/
def getTickLiquidity (_tick : Int) : U256 := 1000000

/-- `calculate_swap_within_tick`. -/
def calculateSwapWithinTick (amount liquidity : U256) : Panicking U256 :=
  if liquidity = 0 then return 0
  else do
    let scaled ← mul amount 997
    div scaled 1000

/-- The loop of `calculate_concentrated_output`. -/
def swapThroughTicks : List Int → U256 → U256 → U256 → Panicking U256
  | [], _, amountOut, _ => return amountOut
  | tick :: ticks, remaining, amountOut, currentLiquidity =>
    if remaining = 0 then return amountOut
    else do
      let tickLiquidity := getTickLiquidity tick
      let swapAmount := minU256 remaining tickLiquidity
      let output ← calculateSwapWithinTick swapAmount currentLiquidity
      let amountOut ← add amountOut output
      let remaining ← sub remaining swapAmount
      let currentLiquidity ← add currentLiquidity tickLiquidity
      swapThroughTicks ticks remaining amountOut currentLiquidity

/-- `calculate_concentrated_output`. -/
def calculateConcentratedOutput (aggregator : LiquidityAggregator) (pool : PoolInfo)
    (amountIn : U256) : Panicking (Except RoutingError SwapOutput) :=
  match aggregator.getLiquiditySource pool.address with
  | .error error => return .error error
  | .ok source => do
    let _ ← calculateTickFromPrice source.reserveA source.reserveB
    let amountOut ← swapThroughTicks getInitializedTicks amountIn 0 pool.liquidity
    let fee ← feeOf pool amountIn
    return .ok (amountOut, fee, (source.reserveA, source.reserveB))

/-! ### Order books and requests for quotes -/

/-- `get_orderbook_asks`: prices and sizes. -/
def getOrderbookAsks : List (U256 × U256) := [(1000, 100000), (1001, 200000), (1002, 300000)]

/-- The loop of `calculate_orderbook_output`: what remains, the output and the cost. -/
def fillAsks : List (U256 × U256) → U256 → U256 → U256 → Panicking (U256 × U256 × U256)
  | [], remaining, totalOutput, totalCost => return (remaining, totalOutput, totalCost)
  | (price, size) :: asks, remaining, totalOutput, totalCost =>
    if remaining = 0 then return (remaining, totalOutput, totalCost)
    else do
      let fillAmount := minU256 remaining size
      let scaled ← mul fillAmount price
      let cost ← div scaled (10 ^ 18)
      let totalOutput ← add totalOutput fillAmount
      let totalCost ← add totalCost cost
      let remaining ← sub remaining fillAmount
      fillAsks asks remaining totalOutput totalCost

/-- `calculate_orderbook_output`. -/
def calculateOrderbookOutput (pool : PoolInfo) (amountIn : U256) :
    Panicking (Except RoutingError SwapOutput) := do
  let (remaining, totalOutput, totalCost) ← fillAsks getOrderbookAsks amountIn 0 0
  if 0 < remaining then return .error .insufficientLiquidity
  let fee ← feeOf pool totalCost
  return .ok (totalOutput, fee, (pool.liquidity, pool.liquidity))

/-- `request_quotes`. -/
def requestQuotes : List Quote := [⟨990000⟩]

/-- `max_by_key`, with `best` for the first element: of those that are equal, the last. -/
def bestQuote (best : Quote) (quotes : List Quote) : Quote :=
  quotes.foldl (fun best quote => if best.outputAmount ≤ quote.outputAmount then quote else best)
    best

/-- `calculate_rfq_output`. -/
def calculateRfqOutput (pool : PoolInfo) (amountIn : U256) :
    Panicking (Except RoutingError SwapOutput) :=
  match requestQuotes with
  | [] => return .error .noPoolsAvailable
  | quote :: quotes => do
    let fee ← feeOf pool amountIn
    return .ok ((bestQuote quote quotes).outputAmount, fee, (pool.liquidity, pool.liquidity))

/-- `calculate_swap_output`. -/
def calculateSwapOutput (aggregator : LiquidityAggregator) (pool : PoolInfo) (amountIn : U256) :
    Panicking (Except RoutingError SwapOutput) :=
  match pool.protocol with
  | .ammV2 => aggregator.calculateAmmV2Output pool amountIn
  | .ammV3 => aggregator.calculateAmmV3Output pool amountIn
  | .stableSwap => aggregator.calculateStableSwapOutput pool amountIn
  | .concentratedLiquidity => aggregator.calculateConcentratedOutput pool amountIn
  | .orderBook => calculateOrderbookOutput pool amountIn
  | .rfqSystem => calculateRfqOutput pool amountIn

/-- The pool at the first address. -/
def samplePool (protocol : Protocol) : PoolInfo where
  address := sampleAddress 1
  protocol
  tokenA := sampleAddress 2
  tokenB := sampleAddress 3
  feeTier := 3000
  liquidity := 1000000

/-- An aggregator that knows the reserves of that pool. -/
def sampleAggregator (reserveA reserveB : U256) : LiquidityAggregator where
  liquiditySources := (∅ : AList _).insert (sampleAddress 1) ⟨reserveA, reserveB⟩

end LiquidityAggregator

end InterBit.Dex
