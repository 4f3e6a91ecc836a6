import InterBit.Core.Panics

/-!
# Pools and errors of the smart router

`dex/smart_routing/mod.rs`: what the path finder and the aggregator read of a pool.
-/

namespace InterBit.Dex

/-- `enum Protocol`. -/
inductive Protocol where
  | orderBook
  | ammV2
  | ammV3
  | stableSwap
  | concentratedLiquidity
  | rfqSystem
  deriving DecidableEq

/-- `struct PoolInfo`. -/
structure PoolInfo where
  address : H256
  protocol : Protocol
  tokenA : H256
  tokenB : H256
  feeTier : BitVec 32
  liquidity : U256
  deriving DecidableEq

/-- `enum RoutingError`. -/
inductive RoutingError where
  | noRouteFound
  | noPoolsAvailable
  | poolNotFound
  | insufficientLiquidity
  | excessivePriceImpact
  | pathTooLong
  | gasOptimizationFailed
  deriving DecidableEq

/-- The token or the pool with this number. -/
def sampleAddress (n : UInt8) : H256 := Vector.replicate 32 n

end InterBit.Dex
