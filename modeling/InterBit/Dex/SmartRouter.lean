import InterBit.Dex.LiquidityAggregator

/-!
# Routes that are split

`evaluate_path` and `calculate_optimal_split` of `dex/smart_routing/mod.rs`. An amount is divided
among the first paths, and the first one gets the remainder too. Quotients in floating point are
kept as their two numbers. The registry does not change in the middle of a call.

A path that cannot be evaluated is left out, and its part of the amount with it:
`split_spends_all_iff` says when nothing is lost.
-/

namespace InterBit.Dex

open Panicking

/-- `struct Hop`. -/
structure Hop where
  protocol : Protocol
  poolAddress : H256
  tokenIn : H256
  tokenOut : H256
  amountIn : U256
  amountOut : U256
  fee : U256
  reserves : U256 × U256
  deriving DecidableEq

/-- `struct Route`; the price impact is a sum of quotients. -/
structure Route where
  path : List Hop
  inputAmount : U256
  outputAmount : U256
  priceImpact : List (U128 × U128)
  gasCost : U256
  executionPrice : U256
  deriving DecidableEq

/-- `struct SplitRoute`. -/
structure SplitRoute where
  routes : List Route
  splitPercentages : List (U128 × U128)
  totalOutput : U256
  averagePrice : U256
  totalGas : U256
  deriving DecidableEq

/-- `struct SmartRouter`. -/
structure SmartRouter where
  aggregator : LiquidityAggregator
  poolRegistry : AList fun _ : H256 => PoolInfo

/-- `GasOptimizer::estimate_gas`. -/
def estimateGas : Protocol → U256
  | .orderBook => 150000
  | .ammV2 => 120000
  | .ammV3 => 180000
  | .stableSwap => 100000
  | .concentratedLiquidity => 200000
  | .rfqSystem => 80000

/-- The loop of `calculate_price_impact`. -/
def priceImpactOf : List Hop → Panicking (List (U128 × U128))
  | [] => return []
  | hop :: hops => do
    let amountIn ← asU128 hop.amountIn
    let reserve ← asU128 hop.reserves.1
    let quotients ← priceImpactOf hops
    return (amountIn, reserve) :: quotients

namespace SmartRouter

/-- `get_pool_info`. -/
def getPoolInfo (router : SmartRouter) (address : H256) : Except RoutingError PoolInfo :=
  match router.poolRegistry.lookup address with
  | some pool => .ok pool
  | none => .error .poolNotFound

/-- The loop of `evaluate_path`: the hops, the last amount and the gas. -/
def followPath (router : SmartRouter) : List H256 → List Hop → U256 → U256 →
    Panicking (Except RoutingError (List Hop × U256 × U256))
  | [], hops, currentAmount, totalGas => return .ok (hops, currentAmount, totalGas)
  | poolAddress :: path, hops, currentAmount, totalGas =>
    match router.getPoolInfo poolAddress with
    | .error error => return .error error
    | .ok poolInfo => do
      match ← router.aggregator.calculateSwapOutput poolInfo currentAmount with
      | .error error => return .error error
      | .ok (amountOut, fee, reserves) =>
        let totalGas ← add totalGas (estimateGas poolInfo.protocol)
        let hop : Hop := ⟨poolInfo.protocol, poolAddress, poolInfo.tokenA, poolInfo.tokenB,
          currentAmount, amountOut, fee, reserves⟩
        followPath router path (hops ++ [hop]) amountOut totalGas

/-- `evaluate_path`. The length of an empty path minus one is a panic; without overflow checks
the first access is. -/
def evaluatePath (router : SmartRouter) (path : List H256) (amountIn : U256) :
    Panicking (Except RoutingError Route) :=
  match path with
  | [] => .error .underflow
  | _ :: _ => do
    match ← router.followPath path.dropLast [] amountIn 0 with
    | .error error => return .error error
    | .ok (hops, currentAmount, totalGas) =>
      let priceImpact ← priceImpactOf hops
      let scaled ← mul currentAmount (10 ^ 18)
      let executionPrice ← div scaled amountIn
      return .ok ⟨hops, amountIn, currentAmount, priceImpact, totalGas, executionPrice⟩

/-- The part of the path with this index. -/
def splitAmount (baseAmount remaining : U256) (i : Nat) : Panicking U256 :=
  if i = 0 then add baseAmount remaining else return baseAmount

/-- The loop of `calculate_optimal_split`. -/
def evaluateSplits (router : SmartRouter) (amountIn baseAmount remaining : U256) :
    Nat → List (List H256) → SplitRoute → Panicking SplitRoute
  | _, [], bestSplit => return bestSplit
  | i, path :: paths, bestSplit => do
    let part ← splitAmount baseAmount remaining i
    match ← router.evaluatePath path part with
    | .error _ => evaluateSplits router amountIn baseAmount remaining (i + 1) paths bestSplit
    | .ok route =>
      let numerator ← asU128 part
      let denominator ← asU128 amountIn
      let totalOutput ← add bestSplit.totalOutput route.outputAmount
      let totalGas ← add bestSplit.totalGas route.gasCost
      evaluateSplits router amountIn baseAmount remaining (i + 1) paths
        { bestSplit with
          routes := bestSplit.routes ++ [route]
          splitPercentages := bestSplit.splitPercentages ++ [(numerator, denominator)]
          totalOutput
          totalGas }

/-- `calculate_optimal_split`. -/
def calculateOptimalSplit (router : SmartRouter) (paths : List (List H256)) (amountIn : U256)
    (maxSplits : U64) : Panicking (Except RoutingError SplitRoute) :=
  let splitCount := min paths.length maxSplits.toNat
  if splitCount = 0 then return .error .noRouteFound
  else do
    let baseAmount ← div amountIn (BitVec.ofNat 256 splitCount)
    let product ← mul baseAmount (BitVec.ofNat 256 splitCount)
    let remaining ← sub amountIn product
    let bestSplit ← router.evaluateSplits amountIn baseAmount remaining 0
      (paths.take splitCount) ⟨[], [], 0, 0, 0⟩
    if bestSplit.routes = [] then return .error .noRouteFound
    let scaled ← mul bestSplit.totalOutput (10 ^ 18)
    let averagePrice ← div scaled amountIn
    return .ok { bestSplit with averagePrice }

/-! ### What is spent -/

variable {router : SmartRouter}

/-- Every token of a path but the last is a registered pool that has a quote for what reaches it. -/
def Quoted (router : SmartRouter) : List H256 → U256 → Prop
  | [], _ => True
  | [_], _ => True
  | poolAddress :: next :: path, amount =>
    ∃ pool out, router.getPoolInfo poolAddress = .ok pool ∧
      router.aggregator.calculateSwapOutput pool amount = .ok (.ok out) ∧
      Quoted router (next :: path) out.1

/-- A path is followed to its end exactly if all of its pools have quotes. -/
theorem followPath_ok {path : List H256} :
    ∀ {hops : List Hop} {amount gas : U256}
      {result : Except RoutingError (List Hop × U256 × U256)},
      router.followPath path.dropLast hops amount gas = .ok result →
        ((∃ r, result = .ok r) ↔ router.Quoted path amount) := by
  induction path with
  | nil =>
    intro hops amount gas result h
    cases h
    exact iff_of_true ⟨_, rfl⟩ trivial
  | cons poolAddress path ih =>
    intro hops amount gas result h
    -- the last pool of the path has no hop after it
    cases path with
    | nil =>
      cases h
      exact iff_of_true ⟨_, rfl⟩ trivial
    | cons next path =>
      rw [List.dropLast_cons_cons, followPath] at h
      cases hpool : router.getPoolInfo poolAddress with
      | error error =>
        rw [hpool] at h
        cases h
        refine iff_of_false nofun fun hquoted => ?_
        obtain ⟨_, _, hfound, _⟩ := hquoted
        cases hpool.symm.trans hfound
      | ok pool =>
        rw [hpool] at h
        obtain ⟨quote, hquote, h⟩ := exists_of_bind_eq_ok h
        cases quote with
        | error error =>
          cases h
          refine iff_of_false nofun fun hquoted => ?_
          obtain ⟨_, _, hfound, hout, _⟩ := hquoted
          cases hpool.symm.trans hfound
          cases hquote.symm.trans hout
        -- the hop succeeds, and the rest of the path decides
        | ok out =>
          obtain ⟨totalGas, _, h⟩ := exists_of_bind_eq_ok h
          rw [ih h]
          constructor
          · exact fun hquoted => ⟨pool, out, hpool, hquote, hquoted⟩
          · intro hquoted
            obtain ⟨_, _, hfound, hout, hquoted⟩ := hquoted
            cases hpool.symm.trans hfound
            cases hquote.symm.trans hout
            exact hquoted

/-- What `evaluate_path` returns: a route for the whole amount, or an error. -/
theorem evaluatePath_ok {path : List H256} {amount : U256} {result : Except RoutingError Route}
    (h : router.evaluatePath path amount = .ok result) :
    (∃ route, result = .ok route ∧ route.inputAmount = amount ∧ router.Quoted path amount) ∨
    ∃ error, result = .error error ∧ ¬ router.Quoted path amount := by
  cases path with
  | nil => cases h
  | cons poolAddress path =>
    obtain ⟨followed, hfollowed, h⟩ := exists_of_bind_eq_ok h
    have hquoted := followPath_ok hfollowed
    cases followed with
    | error error =>
      cases h
      exact Or.inr ⟨error, rfl, fun hno => by obtain ⟨_, hr⟩ := hquoted.mpr hno; cases hr⟩
    | ok r =>
      obtain ⟨_, _, h⟩ := exists_of_bind_eq_ok h
      obtain ⟨_, _, h⟩ := exists_of_bind_eq_ok h
      obtain ⟨_, _, h⟩ := exists_of_bind_eq_ok h
      cases h
      exact Or.inl ⟨_, rfl, rfl, hquoted.mp ⟨r, rfl⟩⟩

/-- What the routes take in. -/
def spent (routes : List Route) : Nat := (routes.map fun route => route.inputAmount.toNat).sum

/-- The part of an amount that goes to the path with an index, if there are `count` of them. -/
def partOf (amountIn : U256) (count i : Nat) : U256 :=
  BitVec.ofNat 256 (amountIn.toNat / count + if i = 0 then amountIn.toNat % count else 0)

/-- Every path that is to get something has quotes for it. -/
def AllQuoted (router : SmartRouter) (part : Nat → U256) (i : Nat) (paths : List (List H256)) :
    Prop :=
  ∀ j path, paths[j]? = some path → part (i + j) ≠ 0 → router.Quoted path (part (i + j))

theorem allQuoted_cons {part : Nat → U256} {i : Nat} {path : List H256}
    {paths : List (List H256)} :
    router.AllQuoted part i (path :: paths) ↔
      (part i ≠ 0 → router.Quoted path (part i)) ∧ router.AllQuoted part (i + 1) paths := by
  constructor
  · intro h
    refine ⟨h 0 path rfl, fun j path' hj => ?_⟩
    rw [Nat.add_right_comm]
    exact h (j + 1) path' hj
  · intro h j path' hj
    cases j with
    | zero =>
      cases hj
      exact h.1
    | succ j =>
      rw [← Nat.add_assoc, Nat.add_right_comm]
      exact h.2 j path' hj

/-- What is lost in the loop is what the paths without quotes would have got. -/
theorem evaluateSplits_spent {amountIn baseAmount remaining : U256} {part : Nat → U256}
    (hpart : ∀ i v, splitAmount baseAmount remaining i = .ok v → v = part i)
    {paths : List (List H256)} :
    ∀ {i : Nat} {before after : SplitRoute},
      router.evaluateSplits amountIn baseAmount remaining i paths before = .ok after →
        ∃ lost, spent after.routes + lost
            = spent before.routes + ((List.range' i paths.length).map fun j => (part j).toNat).sum ∧
          (lost = 0 ↔ router.AllQuoted part i paths) := by
  induction paths with
  | nil =>
    intro i before after h
    cases h
    exact ⟨0, rfl, iff_of_true rfl fun j path hj => by cases hj⟩
  | cons path paths ih =>
    intro i before after h
    obtain ⟨v, hv, h⟩ := exists_of_bind_eq_ok h
    obtain rfl := hpart i v hv
    obtain ⟨result, hresult, h⟩ := exists_of_bind_eq_ok h
    rw [List.length_cons, List.range'_succ, List.map_cons, List.sum_cons, allQuoted_cons]
    rcases evaluatePath_ok hresult with ⟨route, rfl, hinput, hquoted⟩ | ⟨error, rfl, hquoted⟩
    · obtain ⟨_, _, h⟩ := exists_of_bind_eq_ok h
      obtain ⟨_, _, h⟩ := exists_of_bind_eq_ok h
      obtain ⟨_, _, h⟩ := exists_of_bind_eq_ok h
      obtain ⟨_, _, h⟩ := exists_of_bind_eq_ok h
      obtain ⟨lost, hsum, hlost⟩ := ih h
      refine ⟨lost, ?_, hlost.trans (and_iff_right fun _ => hquoted).symm⟩
      rw [hsum, ← hinput]
      simp only [spent, List.map_append, List.sum_append, List.map_singleton, List.sum_singleton]
      omega
    · obtain ⟨lost, hsum, hlost⟩ := ih h
      refine ⟨(part i).toNat + lost, by omega, ?_⟩
      rw [Nat.add_eq_zero_iff, hlost]
      refine and_congr_left fun _ => ⟨fun hzero hne => ?_, fun hpos => ?_⟩
      · exact absurd (BitVec.eq_of_toNat_eq hzero) hne
      · by_contra hne
        exact hquoted (hpos fun hzero => hne (congrArg BitVec.toNat hzero))

theorem toNat_partOf {amountIn : U256} {count : Nat} (hcount : 0 < count) (i : Nat) :
    (partOf amountIn count i).toNat
      = amountIn.toNat / count + if i = 0 then amountIn.toNat % count else 0 := by
  have hlt := amountIn.isLt
  have hdivmod := Nat.div_add_mod amountIn.toNat count
  have hmul : amountIn.toNat / count ≤ count * (amountIn.toNat / count) :=
    Nat.le_mul_of_pos_left _ hcount
  rw [partOf, BitVec.toNat_ofNat, Nat.mod_eq_of_lt]
  split <;> omega

/-- The parts make up the amount. -/
theorem sum_partOf (amountIn : U256) {count : Nat} (hcount : 0 < count) :
    ((List.range' 0 count).map fun i => (partOf amountIn count i).toNat).sum = amountIn.toNat := by
  simp only [toNat_partOf hcount]
  have hdivmod := Nat.div_add_mod amountIn.toNat count
  cases count with
  | zero => exact absurd hcount (Nat.lt_irrefl 0)
  | succ count =>
    have hrest : ((List.range' 1 count).map fun i => amountIn.toNat / (count + 1)
        + if i = 0 then amountIn.toNat % (count + 1) else 0).sum
          = count * (amountIn.toNat / (count + 1)) := by
      rw [List.map_congr_left (g := fun _ => amountIn.toNat / (count + 1)) fun i hi => ?_]
      · rw [List.map_const', List.sum_replicate_nat, List.length_range']
      · rw [if_neg (by have := List.left_le_of_mem_range' hi; omega), Nat.add_zero]
    rw [List.range'_succ, List.map_cons, List.sum_cons, hrest, if_pos rfl]
    rw [Nat.succ_mul] at hdivmod
    omega

/-- What a part is. -/
theorem splitAmount_eq {amountIn baseAmount product remaining : U256} {count : Nat}
    (hlt : count < 2 ^ 256)
    (hbase : div amountIn (BitVec.ofNat 256 count) = .ok baseAmount)
    (hproduct : mul baseAmount (BitVec.ofNat 256 count) = .ok product)
    (hremaining : sub amountIn product = .ok remaining) (i : Nat) (v : U256)
    (hv : splitAmount baseAmount remaining i = .ok v) : v = partOf amountIn count i := by
  obtain ⟨hpos, hbase⟩ := div_eq_ok.mp hbase
  have hproduct := mul_eq_ok.mp hproduct
  have hremaining := sub_eq_ok.mp hremaining
  rw [BitVec.toNat_ofNat, Nat.mod_eq_of_lt hlt] at hpos hbase hproduct
  refine BitVec.eq_of_toNat_eq ?_
  rw [toNat_partOf hpos, ← hbase]
  have hdivmod := Nat.div_add_mod' amountIn.toNat count
  rw [← hbase] at hdivmod
  unfold splitAmount at hv
  split at hv
  next hzero =>
    have hsum := add_eq_ok.mp hv
    rw [if_pos hzero]
    omega
  next hne =>
    cases hv
    rw [if_neg hne, Nat.add_zero]

/-- The routes of a split take in the whole amount exactly if every path that is to get something
has quotes for it. -/
theorem split_spends_all_iff {paths : List (List H256)} {amountIn : U256} {maxSplits : U64}
    {split : SplitRoute}
    (h : router.calculateOptimalSplit paths amountIn maxSplits = .ok (.ok split)) :
    spent split.routes = amountIn.toNat ↔
      router.AllQuoted (partOf amountIn (min paths.length maxSplits.toNat)) 0
        (paths.take (min paths.length maxSplits.toNat)) := by
  have hlt : min paths.length maxSplits.toNat < 2 ^ 256 :=
    (Nat.min_le_right ..).trans_lt (maxSplits.isLt.trans (by decide))
  have hlength : (paths.take (min paths.length maxSplits.toNat)).length
      = min paths.length maxSplits.toNat := by
    rw [List.length_take, Nat.min_eq_left (Nat.min_le_left ..)]
  unfold calculateOptimalSplit at h
  dsimp only at h
  generalize min paths.length maxSplits.toNat = count at h hlt hlength ⊢
  split at h
  next => cases h
  next hcount =>
    obtain ⟨baseAmount, hbase, h⟩ := exists_of_bind_eq_ok h
    obtain ⟨product, hproduct, h⟩ := exists_of_bind_eq_ok h
    obtain ⟨remaining, hremaining, h⟩ := exists_of_bind_eq_ok h
    obtain ⟨bestSplit, hbest, h⟩ := exists_of_bind_eq_ok h
    -- What comes after the loop computes with the outputs and leaves the routes.
    have hroutes : split.routes = bestSplit.routes := by
      split at h
      next => cases h
      next =>
        obtain ⟨_, _, h⟩ := exists_of_bind_eq_ok h
        obtain ⟨_, _, h⟩ := exists_of_bind_eq_ok h
        cases h
        rfl
    -- What is spent and what is lost make up the amount, and nothing is lost if all have quotes.
    obtain ⟨lost, hsum, hlost⟩ :=
      evaluateSplits_spent (splitAmount_eq hlt hbase hproduct hremaining) hbest
    rw [hlength, sum_partOf amountIn (Nat.pos_of_ne_zero hcount)] at hsum
    rw [← hlost, hroutes]
    have hnone : spent ([] : List Route) = 0 := rfl
    rw [hnone] at hsum
    omega

/-- A router that knows one pool. -/
def sampleRouter : SmartRouter where
  aggregator := .sampleAggregator 1000000 1000000
  poolRegistry := (∅ : AList _).insert (sampleAddress 1) (LiquidityAggregator.samplePool .ammV2)

/-- Of 1000 for two paths, the routes take in 500 if the second path has no pool. -/
theorem split_loses_half :
    ∃ split, sampleRouter.calculateOptimalSplit
        [[sampleAddress 1, sampleAddress 3], [sampleAddress 2, sampleAddress 3]] 1000 3
          = .ok (.ok split) ∧
        spent split.routes = 500 ∧ spent split.routes ≠ (1000 : U256).toNat := by
  have hrun : (sampleRouter.calculateOptimalSplit
      [[sampleAddress 1, sampleAddress 3], [sampleAddress 2, sampleAddress 3]] 1000 3).map
        (Except.map fun split => spent split.routes) = .ok (.ok 500) := by decide +kernel
  generalize sampleRouter.calculateOptimalSplit _ 1000 3 = result at hrun ⊢
  match result, hrun with
  | .ok (.ok split), hrun =>
    have hspent : spent split.routes = 500 := Except.ok.inj (Except.ok.inj hrun)
    exact ⟨split, rfl, hspent, by rw [hspent]; decide⟩

/-- If both paths have a pool, the routes take in all of it. -/
theorem split_spends_all_sample :
    ∃ split, sampleRouter.calculateOptimalSplit
        [[sampleAddress 1, sampleAddress 3], [sampleAddress 1, sampleAddress 3]] 1000 3
          = .ok (.ok split) ∧ spent split.routes = (1000 : U256).toNat := by
  have hrun : (sampleRouter.calculateOptimalSplit
      [[sampleAddress 1, sampleAddress 3], [sampleAddress 1, sampleAddress 3]] 1000 3).map
        (Except.map fun split => split.totalOutput) = .ok (.ok 996) := by decide +kernel
  have hquote : sampleRouter.Quoted [sampleAddress 1, sampleAddress 3] 500 :=
    ⟨LiquidityAggregator.samplePool .ammV2, (498, 1, (1000000, 1000000)), by decide +kernel,
      by decide +kernel, trivial⟩
  have hall : sampleRouter.AllQuoted (partOf 1000 2) 0
      [[sampleAddress 1, sampleAddress 3], [sampleAddress 1, sampleAddress 3]] :=
    allQuoted_cons.mpr ⟨fun _ => hquote, allQuoted_cons.mpr ⟨fun _ => hquote, nofun⟩⟩
  cases hresult : sampleRouter.calculateOptimalSplit
      [[sampleAddress 1, sampleAddress 3], [sampleAddress 1, sampleAddress 3]] 1000 3 with
  | error => rw [hresult] at hrun; cases hrun
  | ok returned =>
    cases returned with
    | error => rw [hresult] at hrun; cases hrun
    | ok split => exact ⟨split, rfl, (split_spends_all_iff hresult).mpr hall⟩

end SmartRouter

end InterBit.Dex
