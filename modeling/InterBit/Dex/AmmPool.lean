import InterBit.Lib.FloorShare
import InterBit.Lib.Locks
import InterBit.Lib.Settling
import InterBit.Core.Bytes
import Mathlib.Data.List.AList

/-!
# The pools of the automated market maker

`dex/amm.rs`. The calls of `AmmPool` with the locks they take: a guard that `let` binds lives
to the end of the function. As if the locks were re-entrant, a call is what `reentrant` makes
of it, and the theorems about amounts are about that. A panic in the middle of a call leaves
what has been written so far.

The digests are a type of their own, so that a hash without collisions is possible. The
concentrated liquidity and the time window of the oracle have no part in these calls.
-/

namespace InterBit.Dex

open InterBit.Lib

/-- `enum DexError`. -/
inductive DexError where
  | invalidAmount
  | invalidPrice
  | insufficientBalance
  | insufficientLiquidity
  | excessiveSlippage
  | orderNotFound
  | poolNotFound
  | pathNotFound
  | expired
  | unauthorized
  deriving DecidableEq

/-- What the exchange takes from outside the repository; `D` is the type of the digests. -/
structure DexEnv (D : Type) extends Build where
  /-- `Sha256::digest`. -/
  sha256 : List UInt8 → D

/-- `struct AmmPool`, with the `PriceOracle`. -/
structure AmmPool where
  tokenA : H256
  tokenB : H256
  reserveA : U256
  reserveB : U256
  totalSupply : U256
  liquidityProviders : AList fun _ : Address => U256
  /-- In hundredths of a percent. -/
  feeRate : U256
  priceCumulative : U256
  lastUpdate : U64

/-- The locks of a pool. -/
inductive AmmLock where
  | reserveA
  | reserveB
  | totalSupply
  | liquidityProviders
  | priceOracle
  deriving DecidableEq

/-- `struct LiquidityResult`; the share is a quotient of floating-point numbers. -/
structure LiquidityResult (D : Type) where
  poolId : D
  lpTokens : U256
  share : U128 × U128
  deriving DecidableEq

/-- The two tokens of a pool. -/
inductive Side where
  | a
  | b
  deriving DecidableEq

/-- The other token. -/
def Side.other : Side → Side
  | .a => .b
  | .b => .a

namespace AmmPool

/-- The reserve of a side. -/
def reserve (pool : AmmPool) : Side → U256
  | .a => pool.reserveA
  | .b => pool.reserveB

/-- Set the reserve of a side. -/
def setReserve (pool : AmmPool) : Side → U256 → AmmPool
  | .a, reserveA => { pool with reserveA }
  | .b, reserveB => { pool with reserveB }

@[simp] theorem reserve_setReserve_self (pool : AmmPool) (side : Side) (r : U256) :
    (pool.setReserve side r).reserve side = r := by
  cases side <;> rfl

/-- The other reserve stays. -/
@[simp] theorem reserve_setReserve_of_other (pool : AmmPool) (side : Side) (r : U256) :
    (pool.setReserve side.other r).reserve side = pool.reserve side := by
  cases side <;> rfl

@[simp] theorem setReserve_lastUpdate (pool : AmmPool) (side : Side) (r : U256) :
    (pool.setReserve side r).lastUpdate = pool.lastUpdate := by
  cases side <;> rfl

@[simp] theorem setReserve_totalSupply (pool : AmmPool) (side : Side) (r : U256) :
    (pool.setReserve side r).totalSupply = pool.totalSupply := by
  cases side <;> rfl

@[simp] theorem setReserve_liquidityProviders (pool : AmmPool) (side : Side) (r : U256) :
    (pool.setReserve side r).liquidityProviders = pool.liquidityProviders := by
  cases side <;> rfl

/-- `AmmPool::new`. -/
def new (tokenA tokenB : H256) : AmmPool where
  tokenA
  tokenB
  reserveA := 0
  reserveB := 0
  totalSupply := 0
  liquidityProviders := ∅
  feeRate := 30
  priceCumulative := 0
  lastUpdate := 0

/-- A part of a call. -/
abbrev Call (α : Type) := Routine AmmLock AmmPool α

/-- The loop of `sqrt`; `none` is a panic. -/
def sqrtLoop (x z y : U256) : Option U256 :=
  if y < z then do
    let quotient ← divU256 x y
    let sum ← addU256 quotient y
    let next ← divU256 sum 2
    sqrtLoop x y next
  else some z
termination_by z.toNat
decreasing_by exact BitVec.lt_def.mp ‹_›

/-- `sqrt`. -/
def sqrt (x : U256) : Option U256 :=
  if x = 0 then some 0
  else do
    let sum ← addU256 x 1
    let y ← divU256 sum 2
    sqrtLoop x x y

/-- `get_pool_id`. -/
def getPoolId {D : Type} (env : DexEnv D) (pool : AmmPool) : D :=
  env.sha256 (pool.tokenA.toList ++ pool.tokenB.toList)

/-- `as_u128`; `none` is a panic. -/
def asU128 (x : U256) : Option U128 :=
  if x.toNat < 2 ^ 128 then some (x.setWidth 128) else none

/-- `get_price`. -/
def getPrice : Call U256 := do
  let reserveA ← .guarded ⟨.reserveA, .read⟩ (.get (·.reserveA))
  let reserveB ← .guarded ⟨.reserveB, .read⟩ (.get (·.reserveB))
  if reserveA = 0 then return 0
  else
    let scaled ← .orPanic (mulU256 reserveB (10 ^ 18))
    .orPanic (divU256 scaled reserveA)

variable {D : Type} (env : DexEnv D)

/-- `update_oracle` at a time. -/
def updateOracle (now : U64) : Call Unit :=
  .guarded ⟨.priceOracle, .write⟩ do
    let lastUpdate ← .get (·.lastUpdate)
    let elapsed ← .orPanic (env.sub64 now lastUpdate)
    if 0 < elapsed then
      -- The callers still hold the reserves.
      let price ← getPrice
      let area ← .orPanic (mulU256 price (elapsed.setWidth 256))
      let before ← .get (·.priceCumulative)
      let priceCumulative ← .orPanic (addU256 before area)
      .modify fun pool => { pool with priceCumulative, lastUpdate := now }
    else return ()

/-- What `add_liquidity` mints, and how it moves the reserves. -/
def deposit (amountA amountB : U256) : Call U256 := do
  let pool ← .state
  if pool.totalSupply = 0 then
    let product ← .orPanic (mulU256 amountA amountB)
    let initialLiquidity ← .orPanic (sqrt product)
    .modify fun pool =>
      { pool with reserveA := amountA, reserveB := amountB, totalSupply := initialLiquidity }
    return initialLiquidity
  else
    let liquidityA ← .orPanic (mulDivU256 amountA pool.totalSupply pool.reserveA)
    let liquidityB ← .orPanic (mulDivU256 amountB pool.totalSupply pool.reserveB)
    let liquidity := minU256 liquidityA liquidityB
    -- The liquidity has been rounded down, and what is taken for it is rounded down again.
    let actualA ← .orPanic (mulDivU256 liquidity pool.reserveA pool.totalSupply)
    let actualB ← .orPanic (mulDivU256 liquidity pool.reserveB pool.totalSupply)
    let reserveA ← .orPanic (addU256 pool.reserveA actualA)
    .modify fun pool => { pool with reserveA }
    let reserveB ← .orPanic (addU256 pool.reserveB actualB)
    .modify fun pool => { pool with reserveB }
    let totalSupply ← .orPanic (addU256 pool.totalSupply liquidity)
    .modify fun pool => { pool with totalSupply }
    return liquidity

/-- The balance of a provider. -/
def balance (pool : AmmPool) (provider : Address) : U256 :=
  (pool.liquidityProviders.lookup provider).getD 0

/-- Set the balance of a provider. -/
def setBalance (pool : AmmPool) (provider : Address) (balance : U256) : AmmPool :=
  { pool with liquidityProviders := pool.liquidityProviders.insert provider balance }

/-- `add_liquidity`. -/
def addLiquidity (now : U64) (amountA amountB : U256) (provider : Address) :
    Call (Except DexError (LiquidityResult D)) :=
  .guarded ⟨.reserveA, .write⟩ <| .guarded ⟨.reserveB, .write⟩ <|
  .guarded ⟨.totalSupply, .write⟩ <| .guarded ⟨.liquidityProviders, .write⟩ do
    let lpTokens ← deposit amountA amountB
    let before ← .get (·.balance provider)
    -- `or_insert` comes before the addition.
    .modify (·.setBalance provider before)
    let after ← .orPanic (addU256 before lpTokens)
    .modify (·.setBalance provider after)
    updateOracle env now
    let pool ← .state
    let minted ← .orPanic (asU128 lpTokens)
    let total ← .orPanic (asU128 pool.totalSupply)
    return .ok { poolId := pool.getPoolId env, lpTokens, share := (minted, total) }

/-- `remove_liquidity`. -/
def removeLiquidity (now : U64) (lpTokens : U256) (provider : Address) :
    Call (Except DexError (U256 × U256)) :=
  .guarded ⟨.reserveA, .write⟩ <| .guarded ⟨.reserveB, .write⟩ <|
  .guarded ⟨.totalSupply, .write⟩ <| .guarded ⟨.liquidityProviders, .write⟩ do
    let pool ← .state
    if pool.balance provider < lpTokens then return .error .insufficientBalance
    else
      let amountA ← .orPanic (mulDivU256 lpTokens pool.reserveA pool.totalSupply)
      let amountB ← .orPanic (mulDivU256 lpTokens pool.reserveB pool.totalSupply)
      let reserveA ← .orPanic (subU256 pool.reserveA amountA)
      .modify fun pool => { pool with reserveA }
      let reserveB ← .orPanic (subU256 pool.reserveB amountB)
      .modify fun pool => { pool with reserveB }
      let totalSupply ← .orPanic (subU256 pool.totalSupply lpTokens)
      .modify fun pool => { pool with totalSupply }
      -- Nothing is there to unwrap for a provider who has never made a deposit.
      let before ← .orPanic (pool.liquidityProviders.lookup provider)
      let after ← .orPanic (subU256 before lpTokens)
      .modify (·.setBalance provider after)
      updateOracle env now
      return .ok (amountA, amountB)

/-- What a swap gives for an amount. -/
def amountOut (pool : AmmPool) (amountIn reserveIn reserveOut : U256) : Option U256 := do
  let rate ← subU256 10000 pool.feeRate
  let scaled ← mulU256 amountIn rate
  let amountInWithFee ← divU256 scaled 10000
  let numerator ← mulU256 amountInWithFee reserveOut
  let denominator ← addU256 reserveIn amountInWithFee
  divU256 numerator denominator

/-- `swap` of the token of a side. -/
def swapFrom (now : U64) (amountIn : U256) (side : Side) : Call (Except DexError U256) := do
  let pool ← .state
  let reserveIn := pool.reserve side
  let reserveOut := pool.reserve side.other
  let amountOut ← .orPanic (pool.amountOut amountIn reserveIn reserveOut)
  if amountOut = 0 then return .error .insufficientLiquidity
  else
    -- The fee stays in the pool.
    let reserveIn ← .orPanic (addU256 reserveIn amountIn)
    .modify (·.setReserve side reserveIn)
    let reserveOut ← .orPanic (subU256 reserveOut amountOut)
    .modify (·.setReserve side.other reserveOut)
    updateOracle env now
    return .ok amountOut

/-- The side that a token is on. -/
def sideOf (pool : AmmPool) (token : H256) : Option Side :=
  if token = pool.tokenA then some .a else if token = pool.tokenB then some .b else none

/-- `swap`. -/
def swap (now : U64) (amountIn : U256) (tokenIn : H256) : Call (Except DexError U256) :=
  .guarded ⟨.reserveA, .write⟩ <| .guarded ⟨.reserveB, .write⟩ do
    let side ← .get (·.sideOf tokenIn)
    match side with
    | some side => swapFrom env now amountIn side
    | none => return .error .invalidAmount

/-! ## What the calls do to a pool

`reentry` says whether a call may take a lock that it holds. The calls hold the locks of both
reserves when they come to `update_oracle`, which reads them if time has elapsed. -/

variable {env} {reentry : Bool} {held : List (Guard AmmLock)}

/-- The oracle apart, the pools are the same. -/
def SameButOracle (pool pool' : AmmPool) : Prop :=
  ∃ priceCumulative lastUpdate, pool' = { pool with priceCumulative, lastUpdate }

/-- The oracle finds that time has elapsed. -/
def Ticks (env : DexEnv D) (now lastUpdate : U64) : Prop :=
  lastUpdate.toNat < now.toNat ∨ (env.overflowChecks = false ∧ now ≠ lastUpdate)

/-- The oracle is updated if some time has passed since the last update. -/
theorem ticks_iff {now lastUpdate : U64} :
    Ticks env now lastUpdate ↔ ∃ elapsed, env.sub64 now lastUpdate = some elapsed ∧ 0 < elapsed := by
  have hpos : 0 < now - lastUpdate ↔ now ≠ lastUpdate := by
    constructor
    · intro h
      bv_omega
    · intro h
      bv_omega
  unfold Ticks Build.sub64
  split
  next hpanic =>
    simp only [reduceCtorEq, false_and, exists_false, iff_false, not_or, not_and]
    exact ⟨by omega, fun hoff => absurd hpanic.1 (by rw [hoff]; decide)⟩
  next hno =>
    simp only [Option.some.injEq, exists_eq_left', hpos]
    constructor
    · rintro (hlt | ⟨_, hne⟩)
      · bv_omega
      · exact hne
    · intro hne
      cases hchecks : env.overflowChecks with
      | false => exact Or.inr ⟨rfl, hne⟩
      | true =>
        rw [not_and, Nat.not_lt] at hno
        have hle := hno hchecks
        exact Or.inl (by bv_omega)

/-- A call that has come to `update_oracle` ends as `result` says or in a panic, or it waits for a
lock that it holds. -/
def Finishes {α : Type} (reentry : Bool) (ticks : Prop) (result e : Ending AmmLock α) : Prop :=
  ((e = result ∨ e = .panicked) ∧ (reentry = true ∨ ¬ ticks)) ∨
    (e.isBlocked = true ∧ reentry = false ∧ ticks)

/-- `get_price` either goes on, or it waits for the lock of the first reserve. -/
theorem getPrice_spec (pool : AmmPool) (hheld : ⟨.reserveA, .write⟩ ∈ held) :
    Routine.Ensures reentry getPrice held pool fun e pool' => pool' = pool ∧
      ((reentry = true ∧ (e = .panicked ∨ ∃ price, e = .returned price)) ∨
        (reentry = false ∧ e.isBlocked = true)) := by
  have hharm : ¬ Harmless held ⟨AmmLock.reserveA, .read⟩ := fun h => by
    cases (h _ hheld rfl).1
  refine Routine.ensures_peek (fun hfree => ?_) fun hstrict _ => ⟨rfl, Or.inr ⟨hstrict, rfl⟩⟩
  have hreentry : reentry = true := hfree.resolve_right hharm
  refine Routine.ensures_peek (fun _ => ?_) fun hstrict _ => absurd hreentry (by rw [hstrict]; decide)
  split
  next => exact Routine.ensures_ret ⟨rfl, Or.inl ⟨hreentry, Or.inr ⟨_, rfl⟩⟩⟩
  next =>
    refine Routine.ensures_orPanic (fun _ => ⟨rfl, Or.inl ⟨hreentry, Or.inl rfl⟩⟩) fun scaled _ => ?_
    exact Routine.ensures_value (fun _ => ⟨rfl, Or.inl ⟨hreentry, Or.inl rfl⟩⟩) fun price _ =>
      ⟨rfl, Or.inl ⟨hreentry, Or.inr ⟨_, rfl⟩⟩⟩

theorem updateOracle_spec (now : U64) (pool : AmmPool) (hheld : ⟨.reserveA, .write⟩ ∈ held)
    (horacle : Harmless held ⟨.priceOracle, .write⟩) :
    Routine.Ensures reentry (updateOracle env now) held pool fun e pool' =>
      pool.SameButOracle pool' ∧
        Finishes reentry (Ticks env now pool.lastUpdate) (.returned ()) e := by
  have hsame : pool.SameButOracle pool := ⟨_, _, rfl⟩
  refine Routine.ensures_guarded (Or.inr horacle) (Routine.ensures_get ?_)
  refine Routine.ensures_orPanic (fun hnone => ⟨hsame, Or.inl ⟨Or.inr rfl, Or.inr ?_⟩⟩)
    fun elapsed helapsed => ?_
  · rw [ticks_iff, hnone]
    simp
  split
  next hpos =>
    -- time has elapsed
    have hticks : Ticks env now pool.lastUpdate := ticks_iff.mpr ⟨elapsed, helapsed, hpos⟩
    refine (getPrice_spec pool (List.mem_cons_of_mem _ hheld)).bind ?_ ?_ ?_ ?_
    · rintro price _ _ ⟨rfl, ⟨hreentry, _⟩ | ⟨_, hblocked⟩⟩
      · refine Routine.ensures_orPanic
          (fun _ => ⟨hsame, Or.inl ⟨Or.inr rfl, Or.inl hreentry⟩⟩) fun area _ => ?_
        refine Routine.ensures_get (Routine.ensures_orPanic
          (fun _ => ⟨hsame, Or.inl ⟨Or.inr rfl, Or.inl hreentry⟩⟩) fun cumulative _ => ?_)
        exact ⟨⟨_, _, rfl⟩, Or.inl ⟨Or.inl rfl, Or.inl hreentry⟩⟩
      · cases hblocked
    · rintro _ ⟨rfl, ⟨hreentry, _⟩ | ⟨_, hblocked⟩⟩
      · exact ⟨hsame, Or.inl ⟨Or.inr rfl, Or.inl hreentry⟩⟩
      · cases hblocked
    · rintro _ ⟨_, ⟨_, h | ⟨_, h⟩⟩ | ⟨_, h⟩⟩ <;> cases h
    · rintro _ _ ⟨rfl, ⟨_, h | ⟨_, h⟩⟩ | ⟨hstrict, _⟩⟩
      · cases h
      · cases h
      · exact ⟨hsame, Or.inr ⟨rfl, hstrict, hticks⟩⟩
  next hpos =>
    refine Routine.ensures_ret ⟨hsame, Or.inl ⟨Or.inl rfl, Or.inr fun hticks => hpos ?_⟩⟩
    obtain ⟨elapsed', helapsed', hpos'⟩ := ticks_iff.mp hticks
    obtain rfl := Option.some.inj (helapsed.symm.trans helapsed')
    exact hpos'

/-- The rest of a call after `update_oracle` takes no lock. -/
theorem ensures_updateOracle {α : Type} {next : Unit → Call α} {now : U64} {pool : AmmPool}
    {result : Ending AmmLock α} {Q : Ending AmmLock α → AmmPool → Prop}
    (hheld : ⟨.reserveA, .write⟩ ∈ held) (horacle : Harmless held ⟨.priceOracle, .write⟩)
    (hnext : ∀ pool' held', pool.SameButOracle pool' → Routine.Ensures reentry (next ()) held' pool'
      fun e pool'' => pool'' = pool' ∧ (e = result ∨ e = .panicked))
    (hQ : ∀ e pool', pool.SameButOracle pool' →
      Finishes reentry (Ticks env now pool.lastUpdate) result e → Q e pool') :
    Routine.Ensures reentry (updateOracle env now >>= next) held pool Q := by
  refine (updateOracle_spec now pool hheld horacle).bind ?_ ?_ ?_ ?_
  · rintro _ pool' held' ⟨hsame, ⟨_, hmode⟩ | ⟨h, _⟩⟩
    · refine (hnext pool' held' hsame).mono ?_
      rintro e _ ⟨hpool, he⟩
      rw [hpool]
      exact hQ e pool' hsame (Or.inl ⟨he, hmode⟩)
    · cases h
  · rintro pool' ⟨hsame, ⟨_, hmode⟩ | ⟨h, _⟩⟩
    · exact hQ _ pool' hsame (Or.inl ⟨Or.inr rfl, hmode⟩)
    · cases h
  · rintro _ ⟨_, ⟨h | h, _⟩ | ⟨h, _⟩⟩ <;> cases h
  · rintro g pool' ⟨hsame, ⟨h | h, _⟩ | hblocked⟩
    · cases h
    · cases h
    · exact hQ _ pool' hsame (Or.inr hblocked)

/-! ### Swaps -/

/-- The amount without the fee. -/
def net (pool : AmmPool) (amountIn : Nat) : Nat :=
  amountIn * (10000 - pool.feeRate.toNat) / 10000

/-- The quote of an amount needs no number that is too large, and no division by zero. -/
structure Quotable (pool : AmmPool) (amountIn reserveIn reserveOut : Nat) : Prop where
  rate : pool.feeRate.toNat ≤ 10000
  scaled : amountIn * (10000 - pool.feeRate.toNat) < 2 ^ 256
  numerator : pool.net amountIn * reserveOut < 2 ^ 256
  denominator : reserveIn + pool.net amountIn < 2 ^ 256
  positive : 0 < reserveIn + pool.net amountIn

/-- What a swap pays for an amount, rounded down. -/
def quote (pool : AmmPool) (amountIn reserveIn reserveOut : Nat) : Nat :=
  payout (pool.net amountIn) reserveIn reserveOut

variable {pool : AmmPool}

theorem amountOut_eq_some {amountIn reserveIn reserveOut out : U256} :
    pool.amountOut amountIn reserveIn reserveOut = some out ↔
      pool.Quotable amountIn.toNat reserveIn.toNat reserveOut.toNat ∧
        out.toNat = pool.quote amountIn.toNat reserveIn.toNat reserveOut.toNat := by
  have htenth : (10000 : U256).toNat = 10000 := by decide
  simp only [amountOut, quote, payout, Option.bind_eq_bind, Option.bind_eq_some_iff, subU256_eq,
    mulU256_eq, divU256_eq, addU256_eq, htenth]
  constructor
  -- A result shows that each intermediate number has fitted.
  · rintro ⟨rate, hrate, scaled, hscaled, fee, ⟨_, hfee⟩, numerator, hnumerator, denominator,
      hdenominator, hpositive, hout⟩
    have hrate' : rate.toNat = 10000 - pool.feeRate.toNat := by omega
    have hnet : fee.toNat = pool.net amountIn.toNat := by rw [hfee, hscaled, hrate', net]
    rw [hnet] at hnumerator hdenominator
    rw [hnumerator, hdenominator] at hout
    refine ⟨⟨by omega, ?_, ?_, ?_, hdenominator ▸ hpositive⟩, hout⟩
    · exact hrate' ▸ hscaled ▸ scaled.isLt
    · exact hnumerator ▸ numerator.isLt
    · exact hdenominator ▸ denominator.isLt
  · rintro ⟨h, hout⟩
    -- The net amount is a quotient of a number that fits.
    have hnet : pool.net amountIn.toNat < 2 ^ 256 :=
      Nat.lt_of_le_of_lt (Nat.div_le_self ..) h.scaled
    have hrate : 10000 - pool.feeRate.toNat < 2 ^ 256 := by omega
    refine ⟨BitVec.ofNat 256 (10000 - pool.feeRate.toNat), ?_,
      BitVec.ofNat 256 (amountIn.toNat * (10000 - pool.feeRate.toNat)), ?_,
      BitVec.ofNat 256 (pool.net amountIn.toNat), ⟨by decide, ?_⟩,
      BitVec.ofNat 256 (pool.net amountIn.toNat * reserveOut.toNat), ?_,
      BitVec.ofNat 256 (reserveIn.toNat + pool.net amountIn.toNat), ?_, ?_, ?_⟩
    all_goals
      simp only [BitVec.toNat_ofNat, Nat.mod_eq_of_lt hnet, Nat.mod_eq_of_lt hrate,
        Nat.mod_eq_of_lt h.scaled, Nat.mod_eq_of_lt h.numerator, Nat.mod_eq_of_lt h.denominator]
    · exact Nat.sub_add_cancel h.rate
    · rfl
    · exact h.positive
    · exact hout

/-- When that is. -/
theorem amountOut_isSome {amountIn reserveIn reserveOut : U256} :
    (pool.amountOut amountIn reserveIn reserveOut).isSome ↔
      pool.Quotable amountIn.toNat reserveIn.toNat reserveOut.toNat := by
  rw [Option.isSome_iff_exists]
  constructor
  · rintro ⟨out, h⟩
    exact (amountOut_eq_some.mp h).1
  · intro h
    have hlt : pool.quote amountIn.toNat reserveIn.toNat reserveOut.toNat < 2 ^ 256 :=
      Nat.lt_of_le_of_lt (Nat.div_le_self ..) h.numerator
    exact ⟨BitVec.ofNat 256 _, amountOut_eq_some.mpr ⟨h, by
      rw [BitVec.toNat_ofNat, Nat.mod_eq_of_lt hlt]⟩⟩

/-- A swap of the token of a side goes through. -/
structure Swappable (pool : AmmPool) (amountIn : U256) (side : Side) : Prop where
  quotable : pool.Quotable amountIn.toNat (pool.reserve side).toNat (pool.reserve side.other).toNat
  paid : 0 < pool.quote amountIn.toNat (pool.reserve side).toNat (pool.reserve side.other).toNat
  room : (pool.reserve side).toNat + amountIn.toNat < 2 ^ 256

/-- What a swap does to the reserves. -/
structure Swapped (pool : AmmPool) (amountIn : U256) (side : Side) (out : U256)
    (reserveIn reserveOut : U256) : Prop where
  swappable : pool.Swappable amountIn side
  quoted : out.toNat
    = pool.quote amountIn.toNat (pool.reserve side).toNat (pool.reserve side.other).toNat
  reserveIn : reserveIn.toNat = (pool.reserve side).toNat + amountIn.toNat
  reserveOut : reserveOut.toNat + out.toNat = (pool.reserve side.other).toNat

/-- What a swap does to the pool when its side is known. -/
theorem swapFrom_spec (now : U64) (amountIn : U256) (side : Side) (pool : AmmPool)
    (hheld : ⟨.reserveA, .write⟩ ∈ held) (horacle : Harmless held ⟨.priceOracle, .write⟩) :
    Routine.Ensures reentry (swapFrom env now amountIn side) held pool fun e pool' =>
      (¬ pool.Swappable amountIn side ∧ pool' = pool ∧
        (e = .panicked ∨ e = .returned (.error .insufficientLiquidity))) ∨
      ∃ out reserveIn reserveOut, pool.Swapped amountIn side out reserveIn reserveOut ∧
        ((pool.setReserve side reserveIn).setReserve side.other reserveOut).SameButOracle pool' ∧
        Finishes reentry (Ticks env now pool.lastUpdate) (.returned (.ok out)) e := by
  refine Routine.ensures_state (Routine.ensures_checked amountOut_isSome.mpr (fun hno => ?_)
    fun out hout => ?_)
  · exact Or.inl ⟨fun h => hno h.quotable, rfl, Or.inl rfl⟩
  obtain ⟨hquotable, hquoted⟩ := amountOut_eq_some.mp hout
  split
  next hzero =>
    -- a quote of nothing is refused
    refine Routine.ensures_ret (Or.inl ⟨fun h => ?_, rfl, Or.inr rfl⟩)
    have hpaid := h.paid
    rw [← hquoted, hzero] at hpaid
    exact absurd hpaid (by decide)
  next hnonzero =>
    have hpaid : 0 < out.toNat := Nat.pos_of_ne_zero fun h => hnonzero (BitVec.eq_of_toNat_eq h)
    refine Routine.ensures_checked addU256_isSome.mpr
      (fun hno => Or.inl ⟨fun h => hno h.room, rfl, Or.inl rfl⟩) fun reserveIn hin => ?_
    have hin' := addU256_eq.mp hin
    have hswappable : pool.Swappable amountIn side :=
      ⟨hquotable, hquoted ▸ hpaid, hin' ▸ reserveIn.isLt⟩
    -- A swap never pays more than there is.
    refine Routine.ensures_modify (Routine.ensures_checked subU256_isSome.mpr
      (fun hno => absurd (hquoted.trans_le (payout_le ..)) hno) fun reserveOut hsub => ?_)
    have hswapped : pool.Swapped amountIn side out reserveIn reserveOut :=
      ⟨hswappable, hquoted, hin', subU256_eq.mp hsub⟩
    refine Routine.ensures_modify (ensures_updateOracle hheld horacle
      (fun pool' held' _ => Routine.ensures_ret ⟨rfl, Or.inl rfl⟩) fun e pool' hsame hfinish => ?_)
    refine Or.inr ⟨out, reserveIn, reserveOut, hswapped, hsame, ?_⟩
    rw [setReserve_lastUpdate, setReserve_lastUpdate] at hfinish
    exact hfinish

/-- What a swap does to the pool. -/
theorem swap_spec (now : U64) (amountIn : U256) (tokenIn : H256) (pool : AmmPool) :
    Routine.Ensures reentry (swap env now amountIn tokenIn) [] pool fun e pool' =>
      ((∀ side, pool.sideOf tokenIn = some side → ¬ pool.Swappable amountIn side) ∧ pool' = pool ∧
        (e = .panicked ∨ ∃ error, e = .returned (.error error))) ∨
      ∃ side out reserveIn reserveOut, pool.sideOf tokenIn = some side ∧
        pool.Swapped amountIn side out reserveIn reserveOut ∧
        ((pool.setReserve side reserveIn).setReserve side.other reserveOut).SameButOracle pool' ∧
        Finishes reentry (Ticks env now pool.lastUpdate) (.returned (.ok out)) e := by
  refine Routine.ensures_guarded (Or.inr (by decide)) (Routine.ensures_guarded (Or.inr (by decide))
    (Routine.ensures_get ?_))
  cases hside : pool.sideOf tokenIn with
  | none =>
    exact Routine.ensures_ret (Or.inl ⟨fun _ h => (nomatch h), rfl, Or.inr ⟨_, rfl⟩⟩)
  | some side =>
    refine (swapFrom_spec now amountIn side pool (by decide) (by decide)).mono fun e pool' h => ?_
    obtain ⟨hno, hpool, he⟩ | ⟨out, reserveIn, reserveOut, hswapped, hrest⟩ := h
    · refine Or.inl ⟨fun side' hside' => ?_, hpool, he.imp_right fun h => ⟨_, h⟩⟩
      obtain rfl := Option.some.inj hside'
      exact hno
    · exact Or.inr ⟨side, out, reserveIn, reserveOut, rfl, hswapped, hrest⟩

/-! ### The square root -/

/-- From above, the loop goes down to the root: it divides by nothing but positive numbers, and no
sum is too large. -/
theorem sqrtLoop_eq (x : U256) (hpos : 0 < x.toNat) (hx : x.toNat + 1 < 2 ^ 256) (n : Nat) :
    ∀ z y : U256, z.toNat ≤ n → 0 < z.toNat → z.toNat ≤ x.toNat → Nat.sqrt x.toNat ≤ z.toNat →
      y.toNat = sqrtStep x.toNat z.toNat →
      ∃ r, sqrtLoop x z y = some r ∧ r.toNat = Nat.sqrt x.toNat := by
  induction n with
  | zero =>
    intro z y hz hzpos
    omega
  | succ n ih =>
    intro z y hz hzpos hzx habove hy
    have hroot : Nat.sqrt x.toNat ≤ y.toNat := hy ▸ sqrt_le_sqrtStep hzpos
    have hypos : 0 < y.toNat := lt_of_lt_of_le (Nat.sqrt_pos.mpr hpos) hroot
    rw [sqrtLoop]
    split
    next hlt =>
      have hlt := BitVec.lt_def.mp hlt
      obtain ⟨quotient, hquotient⟩ := Option.isSome_iff_exists.mp
        (divU256_isSome.mpr hypos : (divU256 x y).isSome)
      have hquotientval := (divU256_eq.mp hquotient).2
      -- the sum of the quotient and the guess does not overflow
      have hsumle : quotient.toNat + y.toNat ≤ x.toNat + 1 := by
        rw [hquotientval]
        exact div_add_le hypos (by omega)
      obtain ⟨sum, hsum⟩ := Option.isSome_iff_exists.mp
        (addU256_isSome.mpr (by omega) : (addU256 quotient y).isSome)
      have hsumval := addU256_eq.mp hsum
      obtain ⟨next, hnext⟩ := Option.isSome_iff_exists.mp
        (divU256_isSome.mpr (by decide) : (divU256 sum 2).isSome)
      have hnextval := (divU256_eq.mp hnext).2
      rw [show (2 : U256).toNat = 2 from rfl, hsumval, hquotientval] at hnextval
      rw [hquotient, Option.bind_eq_bind, Option.bind_some, hsum, Option.bind_some, hnext,
        Option.bind_some]
      exact ih y next (by omega) hypos (by omega) hroot hnextval
    next hge =>
      have hge : z.toNat ≤ y.toNat := Nat.le_of_not_lt fun h => hge (BitVec.lt_def.mpr h)
      -- the guess does not fall any more, so it is the root
      exact ⟨z, rfl, eq_sqrt_of_le_sqrtStep hzpos habove (hy ▸ hge)⟩

/-- `sqrt` is the root rounded down, of every number but the largest. -/
theorem sqrt_eq (x : U256) (hx : x.toNat + 1 < 2 ^ 256) :
    ∃ r, sqrt x = some r ∧ r.toNat = Nat.sqrt x.toNat := by
  unfold sqrt
  split
  next hzero =>
    rw [hzero]
    exact ⟨0, rfl, by simp⟩
  next hzero =>
    have hpos : 0 < x.toNat := Nat.pos_of_ne_zero fun h => hzero (BitVec.eq_of_toNat_eq h)
    obtain ⟨sum, hsum⟩ := Option.isSome_iff_exists.mp
      (addU256_isSome.mpr hx : (addU256 x 1).isSome)
    have hsumval := addU256_eq.mp hsum
    obtain ⟨y, hy⟩ := Option.isSome_iff_exists.mp
      (divU256_isSome.mpr (by decide) : (divU256 sum 2).isSome)
    have hyval := (divU256_eq.mp hy).2
    rw [show (2 : U256).toNat = 2 from rfl, hsumval, show (1 : U256).toNat = 1 from rfl] at hyval
    rw [hsum, Option.bind_eq_bind, Option.bind_some, hy, Option.bind_some]
    refine sqrtLoop_eq x hpos hx _ x y le_rfl hpos le_rfl (Nat.sqrt_le_self _) ?_
    -- The loop starts with what a step from `x` gives.
    rw [hyval, sqrtStep, Nat.div_self hpos, Nat.add_comm]

/-- `sqrt` fails for the largest number only. -/
theorem sqrt_isSome (x : U256) : (sqrt x).isSome ↔ x.toNat + 1 < 2 ^ 256 := by
  constructor
  · intro h
    by_contra hlarge
    have hsum : addU256 x 1 = none :=
      Option.not_isSome_iff_eq_none.mp fun h => hlarge (addU256_isSome.mp h)
    unfold sqrt at h
    split at h
    next hzero =>
      rw [hzero] at hlarge
      exact hlarge (by decide)
    next =>
      rw [hsum] at h
      cases h
  · intro h
    obtain ⟨r, hr, -⟩ := sqrt_eq x h
    rw [hr]
    rfl

/-! ### Deposits -/

/-- The liquidity that a deposit is worth, rounded down. -/
def liquidityFor (pool : AmmPool) (amountA amountB : Nat) : Nat :=
  min (amountA * pool.totalSupply.toNat / pool.reserveA.toNat)
    (amountB * pool.totalSupply.toNat / pool.reserveB.toNat)

/-- The amount of one token that liquidity is worth, rounded down. -/
def worth (pool : AmmPool) (liquidity : Nat) (side : Side) : Nat :=
  share liquidity (pool.reserve side).toNat pool.totalSupply.toNat

/-- A deposit in proportion to the reserves needs no number that is too large. -/
structure Fits (pool : AmmPool) (amountA amountB : Nat) : Prop where
  shareA : amountA * pool.totalSupply.toNat < 2 ^ 256 ∧ 0 < pool.reserveA.toNat
  shareB : amountB * pool.totalSupply.toNat < 2 ^ 256 ∧ 0 < pool.reserveB.toNat
  worthA : pool.liquidityFor amountA amountB * pool.reserveA.toNat < 2 ^ 256
  worthB : pool.liquidityFor amountA amountB * pool.reserveB.toNat < 2 ^ 256
  roomA : pool.reserveA.toNat + pool.worth (pool.liquidityFor amountA amountB) .a < 2 ^ 256
  roomB : pool.reserveB.toNat + pool.worth (pool.liquidityFor amountA amountB) .b < 2 ^ 256
  supply : pool.totalSupply.toNat + pool.liquidityFor amountA amountB < 2 ^ 256

/-- A deposit goes through. -/
def Mintable (pool : AmmPool) (amountA amountB : Nat) : Prop :=
  if pool.totalSupply = 0 then amountA * amountB + 1 < 2 ^ 256 else pool.Fits amountA amountB

/-- What a deposit does to a pool. -/
inductive Minted (pool : AmmPool) (amountA amountB lp : U256) : AmmPool → Prop
  | initial (product : U256) : pool.totalSupply = 0 → mulU256 amountA amountB = some product →
      sqrt product = some lp →
      Minted pool amountA amountB lp
        { pool with reserveA := amountA, reserveB := amountB, totalSupply := lp }
  | proportional (reserveA reserveB totalSupply : U256) : pool.totalSupply ≠ 0 →
      lp.toNat = pool.liquidityFor amountA.toNat amountB.toNat →
      reserveA.toNat = pool.reserveA.toNat + pool.worth lp.toNat .a →
      reserveB.toNat = pool.reserveB.toNat + pool.worth lp.toNat .b →
      totalSupply.toNat = pool.totalSupply.toNat + lp.toNat →
      Minted pool amountA amountB lp { pool with reserveA, reserveB, totalSupply }

/-- A panic has left the pool with reserves that are at least as large, and without a supply it
has left the pool alone. -/
def Topped (pool pool' : AmmPool) : Prop :=
  ∃ reserveA reserveB, pool' = { pool with reserveA, reserveB } ∧
    pool.reserveA.toNat ≤ reserveA.toNat ∧ pool.reserveB.toNat ≤ reserveB.toNat ∧
    (pool.totalSupply = 0 → pool' = pool)

/-- The first deposit mints the square root of the product. -/
theorem deposit_initial (amountA amountB : U256) (hzero : pool.totalSupply = 0) :
    Routine.Ensures reentry (deposit amountA amountB) held pool fun e pool' =>
      (¬ pool.Mintable amountA.toNat amountB.toNat ∧ e = .panicked ∧ pool' = pool) ∨
      (pool.Mintable amountA.toNat amountB.toNat ∧
        ∃ lp, e = .returned lp ∧ pool.Minted amountA amountB lp pool') := by
  have hmintable : pool.Mintable amountA.toNat amountB.toNat
      ↔ amountA.toNat * amountB.toNat + 1 < 2 ^ 256 := by
    rw [Mintable, if_pos hzero]
  refine Routine.ensures_state ?_
  rw [if_pos hzero, hmintable]
  refine Routine.ensures_checked mulU256_isSome.mpr
    (fun hno => Or.inl ⟨fun h => hno (Nat.lt_of_succ_lt h), rfl, rfl⟩) fun product hproduct => ?_
  have hval := mulU256_eq.mp hproduct
  refine Routine.ensures_checked (sqrt_isSome product).mpr
    (fun hno => Or.inl ⟨fun h => hno (hval ▸ h), rfl, rfl⟩) fun lp hlp => ?_
  have hroom := (sqrt_isSome product).mp (by rw [hlp]; rfl)
  exact Or.inr ⟨hval ▸ hroom, lp, rfl, .initial product hzero hproduct hlp⟩

theorem deposit_proportional (amountA amountB : U256) (hpos : pool.totalSupply ≠ 0) :
    Routine.Ensures reentry (deposit amountA amountB) held pool fun e pool' =>
      (¬ pool.Fits amountA.toNat amountB.toNat ∧ e = .panicked ∧ pool.Topped pool') ∨
      (pool.Fits amountA.toNat amountB.toNat ∧
        ∃ lp, e = .returned lp ∧ pool.Minted amountA amountB lp pool') := by
  have hsupply : 0 < pool.totalSupply.toNat :=
    Nat.pos_of_ne_zero fun h => hpos (BitVec.eq_of_toNat_eq h)
  -- up to the first write a panic leaves the pool as it was
  have hsame : pool.Topped pool := ⟨_, _, rfl, le_rfl, le_rfl, fun _ => rfl⟩
  refine Routine.ensures_state ?_
  rw [if_neg hpos]
  refine Routine.ensures_checked mulDivU256_isSome.mpr
    (fun hno => Or.inl ⟨fun h => hno h.shareA, rfl, hsame⟩) fun liquidityA hliquidityA => ?_
  refine Routine.ensures_checked mulDivU256_isSome.mpr
    (fun hno => Or.inl ⟨fun h => hno h.shareB, rfl, hsame⟩) fun liquidityB hliquidityB => ?_
  obtain ⟨hshareA, hvalA⟩ := mulDivU256_eq.mp hliquidityA
  obtain ⟨hshareB, hvalB⟩ := mulDivU256_eq.mp hliquidityB
  have hlp : (minU256 liquidityA liquidityB).toNat
      = pool.liquidityFor amountA.toNat amountB.toNat := by
    rw [toNat_minU256, hvalA, hvalB, liquidityFor]
  generalize minU256 liquidityA liquidityB = lp at hlp
  refine Routine.ensures_checked mulDivU256_isSome.mpr
    (fun hno => Or.inl ⟨fun h => hno ⟨hlp ▸ h.worthA, hsupply⟩, rfl, hsame⟩)
    fun actualA hactualA => ?_
  refine Routine.ensures_checked mulDivU256_isSome.mpr
    (fun hno => Or.inl ⟨fun h => hno ⟨hlp ▸ h.worthB, hsupply⟩, rfl, hsame⟩)
    fun actualB hactualB => ?_
  obtain ⟨⟨hworthA, _⟩, hactualA⟩ := mulDivU256_eq.mp hactualA
  obtain ⟨⟨hworthB, _⟩, hactualB⟩ := mulDivU256_eq.mp hactualB
  have hactualA : actualA.toNat = pool.worth lp.toNat .a := hactualA
  have hactualB : actualB.toNat = pool.worth lp.toNat .b := hactualB
  refine Routine.ensures_checked addU256_isSome.mpr
    (fun hno => Or.inl ⟨fun h => hno (hactualA ▸ hlp ▸ h.roomA), rfl, hsame⟩)
    fun reserveA hreserveA => ?_
  have hreserveA := addU256_eq.mp hreserveA
  refine Routine.ensures_modify (Routine.ensures_checked addU256_isSome.mpr
    (fun hno => Or.inl ⟨fun h => hno (hactualB ▸ hlp ▸ h.roomB), rfl, ?_⟩)
    fun reserveB hreserveB => ?_)
  -- here the first reserve has been raised already
  · exact ⟨reserveA, _, rfl, hreserveA ▸ Nat.le_add_right .., le_rfl, fun h => absurd h hpos⟩
  have hreserveB := addU256_eq.mp hreserveB
  refine Routine.ensures_modify (Routine.ensures_checked addU256_isSome.mpr
    (fun hno => Or.inl ⟨fun h => hno (hlp ▸ h.supply), rfl, ?_⟩) fun totalSupply htotal => ?_)
  · exact ⟨reserveA, reserveB, rfl, hreserveA ▸ Nat.le_add_right ..,
      hreserveB ▸ Nat.le_add_right .., fun h => absurd h hpos⟩
  have htotal := addU256_eq.mp htotal
  refine Or.inr ⟨⟨hshareA, hshareB, hlp ▸ hworthA, hlp ▸ hworthB, ?_, ?_, ?_⟩, lp, rfl, ?_⟩
  · exact hlp ▸ hactualA ▸ hreserveA ▸ reserveA.isLt
  · exact hlp ▸ hactualB ▸ hreserveB ▸ reserveB.isLt
  · exact hlp ▸ htotal ▸ totalSupply.isLt
  · exact .proportional reserveA reserveB totalSupply hpos hlp (hactualA ▸ hreserveA)
      (hactualB ▸ hreserveB) htotal

theorem deposit_spec (amountA amountB : U256) (pool : AmmPool) :
    Routine.Ensures reentry (deposit amountA amountB) held pool fun e pool' =>
      (¬ pool.Mintable amountA.toNat amountB.toNat ∧ e = .panicked ∧ pool.Topped pool') ∨
      (pool.Mintable amountA.toNat amountB.toNat ∧
        ∃ lp, e = .returned lp ∧ pool.Minted amountA amountB lp pool') := by
  by_cases hzero : pool.totalSupply = 0
  · refine (deposit_initial amountA amountB hzero).mono fun e pool' h => h.imp_left ?_
    rintro ⟨hno, he, rfl⟩
    exact ⟨hno, he, _, _, rfl, le_rfl, le_rfl, fun _ => rfl⟩
  · rw [Mintable, if_neg hzero]
    exact deposit_proportional amountA amountB hzero

theorem Minted.liquidityProviders {pool pool' : AmmPool} {amountA amountB lp : U256}
    (h : pool.Minted amountA amountB lp pool') :
    pool'.liquidityProviders = pool.liquidityProviders := by
  cases h <;> rfl

theorem Minted.lastUpdate {pool pool' : AmmPool} {amountA amountB lp : U256}
    (h : pool.Minted amountA amountB lp pool') : pool'.lastUpdate = pool.lastUpdate := by
  cases h <;> rfl

/-- What `add_liquidity` reports for a pool. -/
def report (env : DexEnv D) (pool : AmmPool) (lpTokens : U256) : LiquidityResult D where
  poolId := pool.getPoolId env
  lpTokens
  share := (lpTokens.setWidth 128, pool.totalSupply.setWidth 128)

/-- A deposit takes no lock. -/
theorem follows_deposit {P : List (Guard AmmLock) → Guard AmmLock → Prop}
    (amountA amountB : U256) (held : List (Guard AmmLock)) :
    (deposit amountA amountB).Follows P held held := by
  refine (Routine.follows_state _).bind fun pool => ?_
  split
  next =>
    refine (Routine.follows_orPanic _ _).bind fun product => ?_
    refine (Routine.follows_orPanic _ _).bind fun initialLiquidity => ?_
    exact (Routine.follows_modify _ _).bind fun _ => rfl
  next =>
    refine (Routine.follows_orPanic _ _).bind fun liquidityA => ?_
    refine (Routine.follows_orPanic _ _).bind fun liquidityB => ?_
    refine (Routine.follows_orPanic _ _).bind fun actualA => ?_
    refine (Routine.follows_orPanic _ _).bind fun actualB => ?_
    refine (Routine.follows_orPanic _ _).bind fun reserveA => ?_
    refine (Routine.follows_modify _ _).bind fun _ => (Routine.follows_orPanic _ _).bind fun _ => ?_
    refine (Routine.follows_modify _ _).bind fun _ => (Routine.follows_orPanic _ _).bind fun _ => ?_
    exact (Routine.follows_modify _ _).bind fun _ => rfl

theorem asU128_eq {x : U256} {y : U128} (h : asU128 x = some y) : y = x.setWidth 128 := by
  unfold asU128 at h
  split at h
  next => exact (Option.some.inj h).symm
  next => cases h

theorem addLiquidity_spec (now : U64) (amountA amountB : U256) (provider : Address)
    (pool : AmmPool) :
    Routine.Ensures reentry (addLiquidity env now amountA amountB provider) [] pool fun e pool' =>
      (¬ pool.Mintable amountA.toNat amountB.toNat ∧ e = .panicked ∧ pool.Topped pool') ∨
      ∃ lp minted, pool.Mintable amountA.toNat amountB.toNat ∧
        pool.Minted amountA amountB lp minted ∧
        ((2 ^ 256 ≤ (pool.balance provider).toNat + lp.toNat ∧ e = .panicked ∧
            pool' = minted.setBalance provider (pool.balance provider)) ∨
          ∃ after : U256, after.toNat = (pool.balance provider).toNat + lp.toNat ∧
            (minted.setBalance provider after).SameButOracle pool' ∧
            Finishes reentry (Ticks env now pool.lastUpdate)
              (.returned (.ok (minted.report env lp))) e) := by
  refine Routine.ensures_guarded (Or.inr (by decide)) ?_
  refine Routine.ensures_guarded (Or.inr (by decide)) ?_
  refine Routine.ensures_guarded (Or.inr (by decide)) ?_
  refine Routine.ensures_guarded (Or.inr (by decide)) ?_
  refine (deposit_spec amountA amountB pool).then
    (@follows_deposit (fun _ _ => True) amountA amountB _) ?_ ?_ ?_ ?_
  · rintro lp minted (⟨_, h, _⟩ | ⟨hmintable, lp', h, hminted⟩)
    · cases h
    obtain rfl := Ending.returned.inj h
    -- the deposit itself credits nobody
    have hbalance : minted.balance provider = pool.balance provider := by
      rw [balance, hminted.liquidityProviders, balance]
    refine Routine.ensures_get (Routine.ensures_modify ?_)
    rw [hbalance]
    refine Routine.ensures_checked addU256_isSome.mpr (fun hno => ?_) fun after hafter => ?_
    · exact Or.inr ⟨lp, minted, hmintable, hminted, Or.inl ⟨Nat.le_of_not_lt hno, rfl, rfl⟩⟩
    -- `or_insert` puts the balance there, and `+=` raises it
    have htwice : (minted.setBalance provider (pool.balance provider)).setBalance provider after
        = minted.setBalance provider after := by
      rw [setBalance, setBalance, AList.insert_insert, setBalance]
    refine Routine.ensures_modify ?_
    rw [htwice]
    refine @ensures_updateOracle _ _ _ _ _ _ _ _ (.returned (.ok (minted.report env lp))) _
      (by decide) (by decide) (fun pool' held' hsame => ?_) fun e pool' hsame hfinish => ?_
    · obtain ⟨_, _, rfl⟩ := hsame
      refine Routine.ensures_state ?_
      refine Routine.ensures_orPanic (fun _ => ⟨rfl, Or.inr rfl⟩) fun narrow hnarrow => ?_
      refine Routine.ensures_orPanic (fun _ => ⟨rfl, Or.inr rfl⟩) fun total htotal => ?_
      refine Routine.ensures_ret ⟨rfl, Or.inl ?_⟩
      rw [asU128_eq hnarrow, asU128_eq htotal]
      rfl
    · refine Or.inr ⟨lp, minted, hmintable, hminted, Or.inr ⟨after, addU256_eq.mp hafter, hsame, ?_⟩⟩
      rw [show (minted.setBalance provider after).lastUpdate = pool.lastUpdate from
        hminted.lastUpdate] at hfinish
      exact hfinish
  · rintro pool' (⟨hno, _, htopped⟩ | ⟨_, _, h, _⟩)
    · exact Or.inl ⟨hno, rfl, htopped⟩
    · cases h
  · rintro _ (⟨_, h, _⟩ | ⟨_, _, h, _⟩) <;> cases h
  · rintro _ _ (⟨_, h, _⟩ | ⟨_, _, h, _⟩) <;> cases h

/-! ### Withdrawals -/

/-- A withdrawal goes through. -/
structure Removable (pool : AmmPool) (lpTokens : U256) (provider : Address) : Prop where
  covered : lpTokens.toNat ≤ (pool.balance provider).toNat
  worthA : lpTokens.toNat * pool.reserveA.toNat < 2 ^ 256 ∧ 0 < pool.totalSupply.toNat
  worthB : lpTokens.toNat * pool.reserveB.toNat < 2 ^ 256 ∧ 0 < pool.totalSupply.toNat
  paidA : pool.worth lpTokens.toNat .a ≤ pool.reserveA.toNat
  paidB : pool.worth lpTokens.toNat .b ≤ pool.reserveB.toNat
  supply : lpTokens.toNat ≤ pool.totalSupply.toNat
  present : (pool.liquidityProviders.lookup provider).isSome

/-- What a withdrawal does to a pool. -/
inductive Removed (pool : AmmPool) (lpTokens amountA amountB : U256) (provider : Address) :
    AmmPool → Prop
  | intro (reserveA reserveB totalSupply after : U256) :
      pool.Removable lpTokens provider →
      amountA.toNat = pool.worth lpTokens.toNat .a → amountB.toNat = pool.worth lpTokens.toNat .b →
      reserveA.toNat + amountA.toNat = pool.reserveA.toNat →
      reserveB.toNat + amountB.toNat = pool.reserveB.toNat →
      totalSupply.toNat + lpTokens.toNat = pool.totalSupply.toNat →
      after.toNat + lpTokens.toNat = (pool.balance provider).toNat →
      Removed pool lpTokens amountA amountB provider
        (setBalance { pool with reserveA, reserveB, totalSupply } provider after)

/-- A provider without an entry takes out nothing. -/
theorem nothing_of_absent {lpTokens : U256} {provider : Address}
    (habsent : ¬ (pool.liquidityProviders.lookup provider).isSome)
    (hcovered : lpTokens.toNat ≤ (pool.balance provider).toNat) :
    lpTokens.toNat = 0 ∧ ∀ side, pool.worth lpTokens.toNat side = 0 := by
  have hnothing : lpTokens.toNat = 0 := by
    rw [balance, Option.not_isSome_iff_eq_none.mp habsent] at hcovered
    exact Nat.le_zero.mp hcovered
  refine ⟨hnothing, fun side => ?_⟩
  rw [worth, hnothing, share, Nat.zero_mul, Nat.zero_div]

/-- What `remove_liquidity` does to the pool. -/
theorem removeLiquidity_spec (now : U64) (lpTokens : U256) (provider : Address) (pool : AmmPool) :
    Routine.Ensures reentry (removeLiquidity env now lpTokens provider) [] pool fun e pool' =>
      (¬ pool.Removable lpTokens provider ∧
        (e = .panicked ∨ (e = .returned (.error .insufficientBalance) ∧
          (pool.balance provider).toNat < lpTokens.toNat)) ∧
        ((pool.balance provider).toNat ≤ pool.totalSupply.toNat → pool' = pool)) ∨
      ∃ amountA amountB removed, pool.Removed lpTokens amountA amountB provider removed ∧
        removed.SameButOracle pool' ∧
        Finishes reentry (Ticks env now pool.lastUpdate) (.returned (.ok (amountA, amountB))) e := by
  refine Routine.ensures_guarded (Or.inr (by decide)) ?_
  refine Routine.ensures_guarded (Or.inr (by decide)) ?_
  refine Routine.ensures_guarded (Or.inr (by decide)) ?_
  refine Routine.ensures_guarded (Or.inr (by decide)) (Routine.ensures_state ?_)
  split
  next hlt =>
    -- the balance is too small
    have hlt := BitVec.lt_def.mp hlt
    refine Routine.ensures_ret (Or.inl ⟨fun h => ?_, Or.inr ⟨rfl, hlt⟩, fun _ => rfl⟩)
    exact absurd h.covered (Nat.not_le_of_lt hlt)
  next hge =>
    have hcovered : lpTokens.toNat ≤ (pool.balance provider).toNat :=
      Nat.le_of_not_lt fun h => hge (BitVec.lt_def.mpr h)
    refine Routine.ensures_checked mulDivU256_isSome.mpr
      (fun hno => Or.inl ⟨fun h => hno h.worthA, Or.inl rfl, fun _ => rfl⟩) fun amountA hamountA => ?_
    refine Routine.ensures_checked mulDivU256_isSome.mpr
      (fun hno => Or.inl ⟨fun h => hno h.worthB, Or.inl rfl, fun _ => rfl⟩) fun amountB hamountB => ?_
    obtain ⟨hworthA, hvalA⟩ := mulDivU256_eq.mp hamountA
    obtain ⟨hworthB, hvalB⟩ := mulDivU256_eq.mp hamountB
    have hvalA : amountA.toNat = pool.worth lpTokens.toNat .a := hvalA
    have hvalB : amountB.toNat = pool.worth lpTokens.toNat .b := hvalB
    -- Liquidity within the supply is worth no more than the reserves.
    have hpaid : ∀ side, lpTokens.toNat ≤ pool.totalSupply.toNat →
        pool.worth lpTokens.toNat side ≤ (pool.reserve side).toNat := fun side => share_le _
    refine Routine.ensures_checked subU256_isSome.mpr (fun hno => Or.inl
      ⟨fun h => hno (hvalA ▸ h.paidA), Or.inl rfl,
        fun hle => absurd (hvalA ▸ hpaid .a (hcovered.trans hle)) hno⟩)
      fun reserveA hreserveA => ?_
    refine Routine.ensures_modify (Routine.ensures_checked subU256_isSome.mpr (fun hno => Or.inl
      ⟨fun h => hno (hvalB ▸ h.paidB), Or.inl rfl,
        fun hle => absurd (hvalB ▸ hpaid .b (hcovered.trans hle)) hno⟩)
      fun reserveB hreserveB => ?_)
    refine Routine.ensures_modify (Routine.ensures_checked subU256_isSome.mpr (fun hno => Or.inl
      ⟨fun h => hno h.supply, Or.inl rfl, fun hle => absurd (hcovered.trans hle) hno⟩)
      fun totalSupply htotal => ?_)
    refine Routine.ensures_modify (Routine.ensures_checked id (fun hno => Or.inl
      ⟨fun h => hno h.present, Or.inl rfl, fun _ => ?_⟩) fun before hbefore => ?_)
    · obtain ⟨hnothing, hzero⟩ := nothing_of_absent hno hcovered
      have hA := subU256_eq.mp hreserveA
      have hB := subU256_eq.mp hreserveB
      have hT := subU256_eq.mp htotal
      rw [hvalA, hzero, Nat.add_zero] at hA
      rw [hvalB, hzero, Nat.add_zero] at hB
      rw [hnothing, Nat.add_zero] at hT
      rw [BitVec.eq_of_toNat_eq hA, BitVec.eq_of_toNat_eq hB, BitVec.eq_of_toNat_eq hT]
    have hbefore : pool.liquidityProviders.lookup provider = some before := hbefore
    have hbalance : pool.balance provider = before := by
      rw [balance, hbefore]
      rfl
    refine Routine.ensures_checked subU256_isSome.mpr
      (fun hno => absurd (hbalance ▸ hcovered) hno) fun after hafter => ?_
    have hafter := subU256_eq.mp hafter
    have hA := subU256_eq.mp hreserveA
    have hB := subU256_eq.mp hreserveB
    have hT := subU256_eq.mp htotal
    have hremovable : pool.Removable lpTokens provider :=
      ⟨hcovered, hworthA, hworthB, hvalA ▸ hA ▸ Nat.le_add_left .., hvalB ▸ hB ▸ Nat.le_add_left ..,
        hT ▸ Nat.le_add_left .., Option.isSome_iff_exists.mpr ⟨before, hbefore⟩⟩
    refine Routine.ensures_modify (ensures_updateOracle (by decide) (by decide)
      (fun pool' held' _ => Routine.ensures_ret ⟨rfl, Or.inl rfl⟩) fun e pool' hsame hfinish => ?_)
    exact Or.inr ⟨amountA, amountB, _, .intro reserveA reserveB totalSupply after hremovable hvalA
      hvalB hA hB hT (hbalance ▸ hafter), hsame, hfinish⟩

/-! ## What the samples share -/

/-- A hash that gives back what it is given. -/
def sampleDexEnv : DexEnv (List UInt8) where
  sha256 := id
  overflowChecks := true

/-- A token or an address. -/
def sampleToken {n : Nat} (byte : UInt8) : Vector UInt8 n := Vector.replicate n byte

end AmmPool

end InterBit.Dex
