import InterBit.Core.Keccak
import Mathlib.Data.List.AList

/-!
# What the protocols for decentralized finance share

The data of `defi/mod.rs`, and signed integers as bit vectors. As on `u64`, arithmetic on `i128`
wraps around or panics, as the build has overflow checks off or on.
-/

namespace InterBit.Defi

abbrev U32 := BitVec 32
abbrev I64 := BitVec 64
abbrev I128 := BitVec 128

/-- `enum DeFiError`. -/
inductive DeFiError where
  | insufficientBalance
  | insufficientCollateral
  | excessiveLeverage
  | positionNotFound
  | marketClosed
  | invalidExpiry
  | flashLoanNotRepaid
  | positionHealthy
  | oracleError
  | unauthorized
  deriving DecidableEq

/-- How a call ends; `none` is a panic. -/
abbrev Outcome (α : Type) := Option (Except DeFiError α)

/-- `struct DeFiConfig`, as far as the engine of the perpetual contracts uses it. -/
structure DeFiConfig where
  liquidationPenaltyBps : U32
  fundingInterval : U64
  deriving DecidableEq

/-! ## Arithmetic -/

/-- The result of an operation on `i128`; `none` is a panic. -/
def signed (env : Env) (overflow : Bool) (result : I128) : Option I128 :=
  if env.overflowChecks && overflow then none else some result

/-- `a + b` on `i128`. -/
def addI128 (env : Env) (a b : I128) : Option I128 := signed env (a.saddOverflow b) (a + b)

/-- `a - b` on `i128`. -/
def subI128 (env : Env) (a b : I128) : Option I128 := signed env (a.ssubOverflow b) (a - b)

/-- `a * b` on `i128`. -/
def mulI128 (env : Env) (a b : I128) : Option I128 := signed env (a.smulOverflow b) (a * b)

/-- `-a` on `i128`. -/
def negI128 (env : Env) (a : I128) : Option I128 := signed env a.negOverflow (-a)

/-- `U256::as_u128`; `none` is a panic. -/
def asU128 (a : U256) : Option U128 := if a.toNat < 2 ^ 128 then some (a.setWidth 128) else none

/-- `a / b` on `u64`; `none` is a panic. -/
def div64 (a b : U64) : Option U64 := if b = 0 then none else some (a / b)

/-- `U256::saturating_sub`. -/
def saturatingSub (a b : U256) : U256 := if a ≤ b then 0 else a - b

theorem toNat_saturatingSub (a b : U256) : (saturatingSub a b).toNat = a.toNat - b.toNat := by
  unfold saturatingSub
  split
  next hle => exact (Nat.sub_eq_zero_of_le (BitVec.le_def.mp hle)).symm
  next hlt =>
    exact BitVec.toNat_sub_of_le (Nat.le_of_lt (Nat.lt_of_not_le fun hle => hlt hle))

end InterBit.Defi
