import InterBit.Dex.DexEngine
import InterBit.Dex.MarketQuote

/-!
# Quotes of the pools

`get_amount_out` of `dex/amm.rs` is to be the computation of `swap` without the swap, and
`calculate_output` of `dex/mod.rs` follows it along a path. But `get_amount_out` takes a million of
each token for the reserves, whatever the reserves of the pool are. `quotes_agree_iff` says for
which amounts this makes no difference.
-/

namespace InterBit.Dex

open InterBit.Lib

/-- `enum TradeHop`. -/
inductive TradeHop (D : Type) where
  | ammPool (poolId : D)
  | orderBook (pair : H256)

/-- `struct TradePath`. -/
structure TradePath (D : Type) where
  hops : List (TradeHop D)

/-- `get_amount_out`; `none` is a panic. -/
def AmmPool.getAmountOut (pool : AmmPool) (amountIn : U256) : Option (Except DexError U256) := do
  let reserveIn : U256 := 1000000
  let reserveOut : U256 := 1000000
  let rate ← subU256 10000 pool.feeRate
  let scaled ← mulU256 amountIn rate
  let amountInWithFee ← divU256 scaled 10000
  let numerator ← mulU256 amountInWithFee reserveOut
  let denominator ← addU256 reserveIn amountInWithFee
  let amountOut ← divU256 numerator denominator
  return .ok amountOut

namespace DexEngine

variable {D : Type} [DecidableEq D]

/-- The loop of `calculate_output`; `none` is a panic. -/
def outputAlong (engine : DexEngine D) (book : OrderBook) :
    List (TradeHop D) → U256 → Option (Except DexError U256)
  | [], currentAmount => some (.ok currentAmount)
  | .ammPool poolId :: hops, currentAmount =>
    match engine.pool? poolId with
    | none => some (.error .poolNotFound)
    | some pool => do
      match ← pool.getAmountOut currentAmount with
      | .error error => return .error error
      | .ok amount => outputAlong engine book hops amount
  | .orderBook pair :: hops, currentAmount =>
    match ((OrderBook.calculateMarketBuy pair currentAmount).alone book).1 with
    | .returned (.ok amount) => outputAlong engine book hops amount
    | .returned (.error error) => some (.error error)
    | _ => none

/-- `calculate_output`; the order book is a field of the engine of its own. -/
def calculateOutput (engine : DexEngine D) (book : OrderBook) (path : TradePath D)
    (amountIn : U256) : Option (Except DexError U256) :=
  outputAlong engine book path.hops amountIn

/-- Along a path of one pool, the engine says what the pool says. -/
theorem calculateOutput_ammPool {engine : DexEngine D} {poolId : D} {pool : AmmPool}
    (h : engine.pool? poolId = some pool) (book : OrderBook) (amountIn : U256) :
    engine.calculateOutput book ⟨[.ammPool poolId]⟩ amountIn = pool.getAmountOut amountIn := by
  rw [calculateOutput, outputAlong, h]
  dsimp only
  cases pool.getAmountOut amountIn with
  | none => rfl
  | some quote => cases quote <;> rfl

end DexEngine

namespace AmmPool

variable {D : Type} {env : DexEnv D}

theorem getAmountOut_eq (pool : AmmPool) (amountIn : U256) :
    pool.getAmountOut amountIn = (pool.amountOut amountIn 1000000 1000000).map .ok := by
  simp only [getAmountOut, amountOut, Option.map_eq_bind, Option.bind_eq_bind, Option.bind_assoc,
    Option.pure_def, Function.comp_def]

/-- What is paid: nothing if a swap is refused. -/
def paid : Except DexError U256 → U256
  | .ok out => out
  | .error _ => 0

/-- The quote is what a swap of the same amount in the same state pays, whenever it returns. -/
def AgreesWithSwap (env : DexEnv D) (pool : AmmPool) (amountIn : U256) (tokenIn : H256)
    (quote : Option (Except DexError U256)) : Prop :=
  ∀ reentry now result, ((swap env now amountIn tokenIn).run reentry [] pool).1 = .returned result →
    quote = some (.ok (paid result))

/-- No number is too large for a swap, the oracle apart. -/
def Exchangeable (pool : AmmPool) (amountIn : U256) (side : Side) : Prop :=
  pool.Quotable amountIn.toNat (pool.reserve side).toNat (pool.reserve side.other).toNat ∧
    (0 < pool.quote amountIn.toNat (pool.reserve side).toNat (pool.reserve side.other).toNat →
      (pool.reserve side).toNat + amountIn.toNat < 2 ^ 256)

/-- Two quotients are the same when they are rounded down. -/
theorem div_eq_div_iff_whole {m d m' d' : Nat} (hd : 0 < d) (hd' : 0 < d') :
    m / d = m' / d' ↔ ∀ k, k * d ≤ m ↔ k * d' ≤ m' := by
  simp only [← Nat.le_div_iff_mul_le hd, ← Nat.le_div_iff_mul_le hd']
  constructor
  · intro h k
    rw [h]
  · intro h
    exact Nat.le_antisymm ((h _).mp le_rfl) ((h _).mpr le_rfl)

theorem updateOracle_at_rest (pool : AmmPool) :
    (updateOracle env pool.lastUpdate).reentrant pool = (.returned (), pool) := by
  have hzero : env.sub64 pool.lastUpdate pool.lastUpdate = some 0 := by
    rw [Build.sub64, if_neg fun h => Nat.lt_irrefl _ h.2, BitVec.sub_self]
    rfl
  rw [updateOracle, Routine.reentrant_guarded]
  show (Routine.orPanic (env.sub64 pool.lastUpdate pool.lastUpdate) >>= _).reentrant pool = _
  rw [hzero]
  rfl

theorem oracle_goes_on {pool : AmmPool} {lastUpdate : U64} (h : pool.lastUpdate = lastUpdate)
    (now : U64) (held : List (Guard AmmLock)) :
    Routine.Ensures true (updateOracle env now) held pool fun e _ =>
      now = lastUpdate → e = .returned () := by
  rw [Routine.Ensures, Routine.run_true]
  intro hnow
  rw [hnow, ← h, updateOracle_at_rest]

/-- A swap that returns has paid the quote at the reserves of the pool. A swap at the time of the
last update returns unless a number is too large. -/
theorem swap_returns {pool : AmmPool} {tokenIn : H256} {side : Side}
    (hside : pool.sideOf tokenIn = some side) (now : U64) (amountIn : U256) :
    Routine.Ensures true (swap env now amountIn tokenIn) [] pool fun e _ =>
      (∀ result, e = .returned result →
        pool.Exchangeable amountIn side ∧ (paid result).toNat =
          pool.quote amountIn.toNat (pool.reserve side).toNat (pool.reserve side.other).toNat) ∧
      (pool.Exchangeable amountIn side → now = pool.lastUpdate →
        ∃ result, e = .returned result) := by
  refine Routine.ensures_guarded (Or.inl rfl) (Routine.ensures_guarded (Or.inl rfl)
    (Routine.ensures_get ?_))
  rw [hside]
  refine Routine.ensures_state (Routine.ensures_checked amountOut_isSome.mpr (fun hno => ?_)
    fun out hout => ?_)
  · exact ⟨fun _ h => (by cases h), fun h => absurd h.1 hno⟩
  obtain ⟨hquotable, hquoted⟩ := amountOut_eq_some.mp hout
  split
  next hzero =>
    -- a quote of nothing is refused
    rw [hzero] at hquoted
    refine Routine.ensures_ret ⟨fun result hresult => ?_, fun _ _ => ⟨_, rfl⟩⟩
    obtain rfl := Ending.returned.inj hresult
    exact ⟨⟨hquotable, fun hpaid => absurd hpaid (hquoted ▸ Nat.lt_irrefl 0)⟩, hquoted⟩
  next hnonzero =>
    have hpaid : 0 < out.toNat := Nat.pos_of_ne_zero fun h => hnonzero (BitVec.eq_of_toNat_eq h)
    refine Routine.ensures_checked addU256_isSome.mpr (fun hno => ?_) fun reserveIn hin => ?_
    · exact ⟨fun _ h => (by cases h), fun h => absurd (h.2 (hquoted ▸ hpaid)) hno⟩
    have hin := addU256_eq.mp hin
    have hexchangeable : pool.Exchangeable amountIn side :=
      ⟨hquotable, fun _ => hin ▸ reserveIn.isLt⟩
    refine Routine.ensures_modify (Routine.ensures_checked subU256_isSome.mpr
      (fun hno => absurd (hquoted.trans_le (payout_le ..)) hno) fun reserveOut _ => ?_)
    refine Routine.ensures_modify ?_
    have hlast : ((pool.setReserve side reserveIn).setReserve side.other reserveOut).lastUpdate
        = pool.lastUpdate := by
      rw [setReserve_lastUpdate, setReserve_lastUpdate]
    refine (oracle_goes_on hlast now _).bind ?_ ?_ ?_ ?_
    · intro _ _ _ _
      refine Routine.ensures_ret ⟨fun result hresult => ?_, fun _ _ => ⟨_, rfl⟩⟩
      obtain rfl := Ending.returned.inj hresult
      exact ⟨hexchangeable, hquoted⟩
    · intro _ h
      refine ⟨fun _ he => (by cases he), fun _ hnow => ?_⟩
      cases h hnow
    · intro _ h
      refine ⟨fun _ he => (by cases he), fun _ hnow => ?_⟩
      cases h hnow
    · intro _ _ h
      refine ⟨fun _ he => (by cases he), fun _ hnow => ?_⟩
      cases h hnow

/-- For which amounts the quotes at a million of each token are those at the reserves of the pool:
no whole number is above one of the two quotients and not above the other. -/
def MillionEach (pool : AmmPool) (amountIn : Nat) (side : Side) : Prop :=
  pool.net amountIn * 1000000 < 2 ^ 256 ∧
    ∀ k, k * ((pool.reserve side).toNat + pool.net amountIn)
        ≤ pool.net amountIn * (pool.reserve side.other).toNat ↔
      k * (1000000 + pool.net amountIn) ≤ pool.net amountIn * 1000000

theorem getAmountOut_eq_some_iff {pool : AmmPool} {amountIn out : U256} {side : Side}
    (hquotable : pool.Quotable amountIn.toNat (pool.reserve side).toNat
      (pool.reserve side.other).toNat)
    (hout : out.toNat
      = pool.quote amountIn.toNat (pool.reserve side).toNat (pool.reserve side.other).toNat) :
    pool.getAmountOut amountIn = some (.ok out) ↔ pool.MillionEach amountIn.toNat side := by
  have hmillion : (1000000 : U256).toNat = 1000000 := by decide
  have hquotient : out.toNat = pool.quote amountIn.toNat 1000000 1000000 ↔
      ∀ k, k * ((pool.reserve side).toNat + pool.net amountIn.toNat)
          ≤ pool.net amountIn.toNat * (pool.reserve side.other).toNat ↔
        k * (1000000 + pool.net amountIn.toNat) ≤ pool.net amountIn.toNat * 1000000 := by
    rw [hout]
    exact div_eq_div_iff_whole hquotable.positive (Nat.add_pos_left (by decide) _)
  have hmap : pool.getAmountOut amountIn = some (.ok out) ↔
      pool.amountOut amountIn 1000000 1000000 = some out := by
    rw [getAmountOut_eq, Option.map_eq_some_iff]
    constructor
    · intro ⟨out', hout', heq⟩
      rw [← Except.ok.inj heq]
      exact hout'
    · exact fun h => ⟨out, h, rfl⟩
  rw [hmap, amountOut_eq_some, hmillion, hquotient, MillionEach]
  refine and_congr_left fun _ => ⟨fun h => h.numerator, fun h => ?_⟩
  exact ⟨hquotable.rate, hquotable.scaled, h, by omega, Nat.add_pos_left (by decide) _⟩

/-- `get_amount_out`, and so `calculate_output`, says what `swap` pays exactly if a number is too
large for the swap, or the reserves make no difference to the quotient. -/
theorem quotes_agree_iff [DecidableEq D] (env : DexEnv D) (pool : AmmPool) (amountIn : U256)
    {tokenIn : H256} {side : Side} (hside : pool.sideOf tokenIn = some side) :
    (pool.AgreesWithSwap env amountIn tokenIn (pool.getAmountOut amountIn) ∧
      ∀ (engine : DexEngine D) (poolId : D) (book : OrderBook), engine.pool? poolId = some pool →
        pool.AgreesWithSwap env amountIn tokenIn
          (engine.calculateOutput book ⟨[.ammPool poolId]⟩ amountIn)) ↔
      (pool.Exchangeable amountIn side → pool.MillionEach amountIn.toNat side) := by
  have hpool : pool.AgreesWithSwap env amountIn tokenIn (pool.getAmountOut amountIn) ↔
      (pool.Exchangeable amountIn side → pool.MillionEach amountIn.toNat side) := by
    constructor
    · intro h hexchangeable
      -- At rest, the oracle does not get in the way.
      have hrun := @swap_returns _ env pool tokenIn side hside pool.lastUpdate amountIn
      obtain ⟨result, hresult⟩ := hrun.2 hexchangeable rfl
      have hpaid := (hrun.1 result hresult).2
      exact (getAmountOut_eq_some_iff hexchangeable.1 hpaid).mp (h true _ result hresult)
    · intro h reentry now result hresult
      have hrun := @swap_returns _ env pool tokenIn side hside now amountIn
      have hreentrant := Routine.run_eq_reentrant (by rw [hresult]; rfl :
        ((swap env now amountIn tokenIn).run reentry [] pool).1.isBlocked = false)
      rw [hreentrant] at hresult
      obtain ⟨hexchangeable, hpaid⟩ := hrun.1 result hresult
      exact (getAmountOut_eq_some_iff hexchangeable.1 hpaid).mpr (h hexchangeable)
  rw [← hpool, and_iff_left_iff_imp]
  intro h engine poolId book hengine
  rw [engine.calculateOutput_ammPool hengine]
  exact h

/-- A pool of two million of one token and a million of the other. -/
def sampleTwoMillion : AmmPool :=
  { new (sampleToken 0) (sampleToken 1) with reserveA := 2000000, reserveB := 1000000 }

/-- A swap of 1000 pays 498, but the quote is 996. -/
theorem quote_exceeds_swap :
    sampleTwoMillion.Funded ∧
      ((swap sampleDexEnv 0 1000 (sampleToken 0)).reentrant sampleTwoMillion).1
        = .returned (.ok 498) ∧
      sampleTwoMillion.getAmountOut 1000 = some (.ok 996) ∧
      ¬ sampleTwoMillion.AgreesWithSwap sampleDexEnv 1000 (sampleToken 0)
        (sampleTwoMillion.getAmountOut 1000) := by
  have hswap : ((swap sampleDexEnv 0 1000 (sampleToken 0)).reentrant sampleTwoMillion).1
      = .returned (.ok 498) := by decide +kernel
  have hquote : sampleTwoMillion.getAmountOut 1000 = some (.ok 996) := by decide +kernel
  refine ⟨⟨by decide, by decide⟩, hswap, hquote, fun h => ?_⟩
  have hagree := h true 0 _ hswap
  rw [hquote] at hagree
  exact absurd hagree (by decide)

/-- At a million of each token the quote of 1000 is what is paid. -/
theorem quotes_agree_sample :
    { sampleTwoMillion with reserveA := 1000000 }.AgreesWithSwap sampleDexEnv 1000 (sampleToken 0)
      ({ sampleTwoMillion with reserveA := 1000000 }.getAmountOut 1000) := by
  refine ((quotes_agree_iff sampleDexEnv { sampleTwoMillion with reserveA := 1000000 } 1000
    (by decide : _ = some Side.a)).mpr fun _ => ⟨by decide, fun k => Iff.rfl⟩).1

end AmmPool

end InterBit.Dex
