import InterBit.Dex.DexEngine

/-!
# The two orders of a deposit

A pool takes the first amount for its own first token, whichever token the caller names first. The
two ways to ask for the same deposit are the same for a pair that has no pool yet, and else only
if the two amounts come to the same either way (`orientation`).
-/

namespace InterBit.Dex

open InterBit.Lib

namespace AmmPool

variable {D : Type} {env : DexEnv D} {reentry : Bool}

/-- The token of a side. -/
def token (pool : AmmPool) : Side → H256
  | .a => pool.tokenA
  | .b => pool.tokenB

/-- What the pool has of a token, side by side. -/
def reservesOf (pool : AmmPool) (token : H256) : List U256 :=
  ([Side.a, Side.b].filter fun side => pool.token side = token).map pool.reserve

/-- The pools have the same reserves of each token, the same supply, and the same share for a
provider. -/
structure SameBooks (pool pool' : AmmPool) (provider : Address) : Prop where
  reserves : ∀ token, pool.reservesOf token = pool'.reservesOf token
  totalSupply : pool.totalSupply = pool'.totalSupply
  balance : pool.balance provider = pool'.balance provider

/-- It makes no difference to a pool which of two amounts is for which of its tokens. -/
def Symmetric (pool : AmmPool) (x y : U256) : Prop :=
  if pool.totalSupply = 0 then x = y
  else pool.liquidityFor x.toNat y.toNat = pool.liquidityFor y.toNat x.toNat

instance (pool : AmmPool) (x y : U256) : Decidable (pool.Symmetric x y) :=
  inferInstanceAs (Decidable (ite _ _ _))

/-! ## A pool that is there -/

theorem minU256_comm_of_toNat {a b c d : U256} (h : min a.toNat b.toNat = min c.toNat d.toNat) :
    minU256 a b = minU256 c d :=
  BitVec.eq_of_toNat_eq (by rw [toNat_minU256, toNat_minU256, h])

/-- Both orders need the same products. -/
theorem mulDivU256_isSome_swap (x y T Ra Rb : U256) :
    ((mulDivU256 x T Ra).isSome ∧ (mulDivU256 y T Rb).isSome) ↔
      ((mulDivU256 y T Ra).isSome ∧ (mulDivU256 x T Rb).isSome) := by
  rw [mulDivU256_isSome, mulDivU256_isSome, mulDivU256_isSome, mulDivU256_isSome]
  tauto

/-- A panic for one of two values. -/
theorem orPanic_both {α β γ : Type} {o : Option α} {o' : Option β}
    {next : α → β → Call γ} (h : ¬ (o.isSome ∧ o'.isSome)) (held : List (Guard AmmLock))
    (pool : AmmPool) :
    (Routine.orPanic o >>= fun a => Routine.orPanic o' >>= fun b => next a b).run reentry held pool
      = (.panicked, pool) := by
  cases o with
  | none => rfl
  | some a =>
    cases o' with
    | none => rfl
    | some b => exact absurd ⟨rfl, rfl⟩ h

/-- Without a supply or with one, a symmetric pool takes the amounts in either order. -/
theorem deposit_swap {pool : AmmPool} {x y : U256} (h : pool.Symmetric x y)
    (held : List (Guard AmmLock)) :
    (deposit x y).run reentry held pool = (deposit y x).run reentry held pool := by
  unfold Symmetric at h
  split at h
  next => rw [h]
  next hpos =>
    unfold deposit
    simp only [Routine.state, Routine.bind_look, Routine.bind_ret, Routine.run]
    rw [if_neg hpos, if_neg hpos]
    have hswap := mulDivU256_isSome_swap x y pool.totalSupply pool.reserveA pool.reserveB
    by_cases hsome : (mulDivU256 x pool.totalSupply pool.reserveA).isSome ∧
        (mulDivU256 y pool.totalSupply pool.reserveB).isSome
    · obtain ⟨⟨shareA, hshareA⟩, shareB, hshareB⟩ :=
        And.imp Option.isSome_iff_exists.mp Option.isSome_iff_exists.mp hsome
      obtain ⟨⟨shareA', hshareA'⟩, shareB', hshareB'⟩ :=
        And.imp Option.isSome_iff_exists.mp Option.isSome_iff_exists.mp (hswap.mp hsome)
      have hmin : minU256 shareA shareB = minU256 shareA' shareB' := by
        refine minU256_comm_of_toNat ?_
        rw [(mulDivU256_eq.mp hshareA).2, (mulDivU256_eq.mp hshareB).2,
          (mulDivU256_eq.mp hshareA').2, (mulDivU256_eq.mp hshareB').2]
        exact h
      rw [hshareA, hshareB, hshareA', hshareB']
      simp only [Routine.orPanic, Routine.bind_ret, hmin]
    · rw [orPanic_both hsome, orPanic_both fun hsome' => hsome (hswap.mpr hsome')]

theorem addLiquidity_swap {pool : AmmPool} {x y : U256} (h : pool.Symmetric x y) (now : U64)
    (provider : Address) :
    (addLiquidity env now x y provider).run reentry [] pool
      = (addLiquidity env now y x provider).run reentry [] pool := by
  have hbind : ∀ {β : Type} u v held (next : U256 → Call β),
      (deposit u v >>= next).run reentry held pool
        = Routine.andThen ((deposit u v).run reentry held pool) fun lp pool' =>
          (next lp).run reentry held pool' := fun u v held next =>
    (@follows_deposit (fun _ _ => True) u v held).run_bind pool
  simp only [addLiquidity, Routine.run_guarded, hbind, deposit_swap h]

/-! ## A pool that a deposit creates -/

theorem reservesOf_eq (pool : AmmPool) (token : H256) :
    pool.reservesOf token = (if pool.tokenA = token then [pool.reserveA] else [])
      ++ if pool.tokenB = token then [pool.reserveB] else [] := by
  unfold reservesOf
  by_cases hA : pool.tokenA = token <;> by_cases hB : pool.tokenB = token <;>
    simp [AmmPool.token, reserve, hA, hB]

/-- The same reserves in the other order. -/
theorem reservesOf_mirrored {pool pool' : AmmPool} (hne : pool.tokenA ≠ pool.tokenB)
    (htokens : pool'.tokenA = pool.tokenB ∧ pool'.tokenB = pool.tokenA)
    (hreserves : pool'.reserveA = pool.reserveB ∧ pool'.reserveB = pool.reserveA) (token : H256) :
    pool.reservesOf token = pool'.reservesOf token := by
  rw [reservesOf_eq, reservesOf_eq, htokens.1, htokens.2, hreserves.1, hreserves.2]
  by_cases hA : pool.tokenA = token
  · rw [if_pos hA, if_neg fun hB => hne (hA.trans hB.symm)]
    rfl
  · rw [if_neg hA, List.nil_append, List.append_nil]

/-- What the first deposit to a new pool leaves. -/
structure First (tokenA tokenB : H256) (x y lp : U256) (provider : Address) (pool : AmmPool) :
    Prop where
  tokens : pool.tokenA = tokenA ∧ pool.tokenB = tokenB
  reserves : pool.reserveA = x ∧ pool.reserveB = y
  totalSupply : pool.totalSupply = lp
  balance : pool.balance provider = lp

theorem First.sameBooks {tokenA tokenB : H256} {x y lp : U256} {provider : Address}
    {pool pool' : AmmPool} (hne : tokenA ≠ tokenB) (h : First tokenA tokenB x y lp provider pool)
    (h' : First tokenB tokenA y x lp provider pool') : pool.SameBooks pool' provider := by
  refine ⟨reservesOf_mirrored ?_ ⟨?_, ?_⟩ ⟨?_, ?_⟩, ?_, ?_⟩
  · rw [h.tokens.1, h.tokens.2]
    exact hne
  · rw [h'.tokens.1, h.tokens.2]
  · rw [h'.tokens.2, h.tokens.1]
  · rw [h'.reserves.1, h.reserves.2]
  · rw [h'.reserves.2, h.reserves.1]
  · rw [h.totalSupply, h'.totalSupply]
  · rw [h.balance, h'.balance]

theorem addLiquidity_new (now : U64) (tokenA tokenB : H256) (x y : U256) (provider : Address) :
    Routine.Ensures reentry (addLiquidity env now x y provider) [] (new tokenA tokenB)
      fun e pool => ∃ lp : U256,
        ((2 ^ 256 ≤ x.toNat * y.toNat + 1 ∧ e = .panicked ∧
            First tokenA tokenB 0 0 0 provider pool) ∨
          (x.toNat * y.toNat + 1 < 2 ^ 256 ∧
            sqrt (BitVec.ofNat 256 (x.toNat * y.toNat)) = some lp ∧
            First tokenA tokenB x y lp provider pool)) ∧
        ∀ result, e = .returned (.ok result) →
          result.lpTokens = lp ∧ result.share = (lp.setWidth 128, lp.setWidth 128) := by
  refine (addLiquidity_spec now x y provider (new tokenA tokenB)).mono fun e pool h => ?_
  have hmintable : (new tokenA tokenB).Mintable x.toNat y.toNat
      ↔ x.toNat * y.toNat + 1 < 2 ^ 256 := Iff.of_eq (if_pos rfl)
  obtain ⟨hno, he, _, _, _, _, _, hpool⟩ | ⟨lp, minted, hyes, hminted, h⟩ := h
  · -- The product is too large, and the pool stays empty.
    refine ⟨0, Or.inl ⟨Nat.le_of_not_lt fun hlt => hno (hmintable.mpr hlt), he, ?_⟩, ?_⟩
    · rw [hpool rfl]
      exact ⟨⟨rfl, rfl⟩, ⟨rfl, rfl⟩, rfl, rfl⟩
    · intro result hresult
      rw [he] at hresult
      cases hresult
  · cases hminted with
    | proportional _ _ _ hpos => exact absurd rfl hpos
    | initial product _ hproduct hlp =>
      have hzero : ((new tokenA tokenB).balance provider).toNat = 0 := rfl
      rw [hzero, Nat.zero_add] at h
      obtain ⟨hlarge, _⟩ | ⟨after, hafter, ⟨_, _, hpool⟩, hfinish⟩ := h
      · exact absurd lp.isLt (Nat.not_lt_of_le hlarge)
      obtain rfl := BitVec.eq_of_toNat_eq hafter
      refine ⟨after, Or.inr ⟨hmintable.mp hyes, ?_, ?_⟩, fun result hresult => ?_⟩
      · rw [← hlp, ← mulU256_eq.mp hproduct, BitVec.ofNat_toNat, BitVec.setWidth_eq]
      · rw [hpool]
        refine ⟨⟨rfl, rfl⟩, ⟨rfl, rfl⟩, rfl, ?_⟩
        rw [balance, setBalance, AList.lookup_insert, Option.getD_some]
      · obtain ⟨hok | hok, _⟩ | ⟨hblocked, _⟩ := hfinish
        · rw [hresult] at hok
          rw [Except.ok.inj (Ending.returned.inj hok)]
          exact ⟨rfl, rfl⟩
        · rw [hresult] at hok
          cases hok
        · rw [hresult] at hblocked
          cases hblocked

/-- The first deposit is the same whichever token the pool has first. -/
theorem addLiquidity_new_swap (now : U64) {tokenA tokenB : H256} (hne : tokenA ≠ tokenB)
    (x y : U256) (provider : Address) :
    let outcome := (addLiquidity env now x y provider).run reentry [] (new tokenA tokenB)
    let outcome' := (addLiquidity env now y x provider).run reentry [] (new tokenB tokenA)
    outcome.2.SameBooks outcome'.2 provider ∧
      ∀ result result', outcome.1 = .returned (.ok result) → outcome'.1 = .returned (.ok result') →
        result.lpTokens = result'.lpTokens ∧ result.share = result'.share := by
  obtain ⟨lp, h, hresult⟩ := @addLiquidity_new _ env reentry now tokenA tokenB x y provider
  obtain ⟨lp', h', hresult'⟩ := @addLiquidity_new _ env reentry now tokenB tokenA y x provider
  rw [Nat.mul_comm y.toNat x.toNat] at h'
  obtain ⟨hlarge, he, hfirst⟩ | ⟨hfits, hlp, hfirst⟩ := h <;>
    obtain ⟨hlarge', he', hfirst'⟩ | ⟨hfits', hlp', hfirst'⟩ := h'
  · refine ⟨hfirst.sameBooks hne hfirst', fun result _ hok => ?_⟩
    rw [he] at hok
    cases hok
  · exact absurd hfits' (Nat.not_lt_of_le hlarge)
  · exact absurd hfits (Nat.not_lt_of_le hlarge')
  · obtain rfl : lp = lp' := Option.some.inj (hlp.symm.trans hlp')
    refine ⟨hfirst.sameBooks hne hfirst', fun result result' hok hok' => ?_⟩
    obtain ⟨hlp, hshare⟩ := hresult result hok
    obtain ⟨hlp', hshare'⟩ := hresult' result' hok'
    exact ⟨hlp.trans hlp'.symm, hshare.trans hshare'.symm⟩

/-! ## When the two orders come to the same -/

/-- What a deposit that does not overflow leaves of reserves and supply. -/
theorem addLiquidity_mintable {pool : AmmPool} {x y : U256}
    (h : pool.Mintable x.toNat y.toNat) (now : U64) (provider : Address) :
    let pool' := ((addLiquidity env now x y provider).run reentry [] pool).2
    ∃ lp minted, pool.Minted x y lp minted ∧ pool'.totalSupply = minted.totalSupply ∧
      (pool'.tokenA = pool.tokenA ∧ pool'.tokenB = pool.tokenB) ∧
      (pool'.reserveA = minted.reserveA ∧ pool'.reserveB = minted.reserveB) := by
  obtain ⟨hno, _⟩ | ⟨lp, minted, _, hminted, hrest⟩ :=
    @addLiquidity_spec _ env reentry now x y provider pool
  · exact absurd h hno
  have htokens : minted.tokenA = pool.tokenA ∧ minted.tokenB = pool.tokenB := by
    cases hminted <;> exact ⟨rfl, rfl⟩
  refine ⟨lp, minted, hminted, ?_⟩
  obtain ⟨_, _, hpool⟩ | ⟨after, _, ⟨_, _, hpool⟩, _⟩ := hrest
  all_goals
    rw [hpool]
    exact ⟨rfl, htokens, rfl, rfl⟩

theorem symmetric_of_sameBooks {pool : AmmPool} {x y : U256} {now : U64} {provider : Address}
    (hxy : pool.Mintable x.toNat y.toNat) (hyx : pool.Mintable y.toNat x.toNat)
    (h : ((addLiquidity env now x y provider).run reentry [] pool).2.SameBooks
      ((addLiquidity env now y x provider).run reentry [] pool).2 provider) :
    pool.Symmetric x y := by
  obtain ⟨lp, minted, hminted, htotal, htokens, hreserves⟩ :=
    @addLiquidity_mintable _ env reentry _ _ _ hxy now provider
  obtain ⟨lp', minted', hminted', htotal', htokens', hreserves'⟩ :=
    @addLiquidity_mintable _ env reentry _ _ _ hyx now provider
  have hfirst := h.reserves pool.tokenA
  rw [reservesOf_eq, reservesOf_eq, htokens.1, htokens'.1, if_pos rfl, if_pos rfl, hreserves.1,
    hreserves'.1] at hfirst
  have hsupply := h.totalSupply
  rw [htotal, htotal'] at hsupply
  unfold Symmetric
  cases hminted with
  | initial _ hzero =>
    rw [if_pos hzero]
    cases hminted' with
    | initial => exact (List.cons.inj hfirst).1
    | proportional _ _ _ hpos => exact absurd hzero hpos
  | proportional _ _ totalSupply hpos hlp _ _ hsum =>
    rw [if_neg hpos]
    cases hminted' with
    | initial _ hzero => exact absurd hzero hpos
    | proportional _ _ totalSupply' _ hlp' _ _ hsum' =>
      have hsupply : totalSupply = totalSupply' := hsupply
      rw [hsupply] at hsum
      omega

end AmmPool

namespace DexEngine

variable {D : Type} [DecidableEq D] {env : DexEnv D} {reentry : Bool}

/-- The outcomes agree on the pool of an id, on the share of a provider in it, and on what is
returned if both return. -/
structure Agree (poolId : D) (provider : Address)
    (outcome outcome' : Ending AmmLock (Except DexError (LiquidityResult D)) × DexEngine D) :
    Prop where
  pools : ∃ pool pool', outcome.2.pool? poolId = some pool ∧ outcome'.2.pool? poolId = some pool' ∧
    pool.SameBooks pool' provider
  results {result result' : LiquidityResult D} : outcome.1 = .returned (.ok result) →
    outcome'.1 = .returned (.ok result') →
    result.lpTokens = result'.lpTokens ∧ result.share = result'.share

/-- The pair has no pool yet, or its pool takes the amounts in either order. -/
def OrderFree (env : DexEnv D) (engine : DexEngine D) (tokenA tokenB : H256) (x y : U256) : Prop :=
  ∀ pool, engine.pool? (computePoolId env tokenA tokenB) = some pool → pool.Symmetric x y

/-- The sums and products of a deposit in either order stay below `2 ^ 256`. -/
def Roomy (env : DexEnv D) (engine : DexEngine D) (tokenA tokenB : H256) (x y : U256) : Prop :=
  ∀ pool, engine.pool? (computePoolId env tokenA tokenB) = some pool →
    pool.Mintable x.toNat y.toNat ∧ pool.Mintable y.toNat x.toNat

/-- The two ways to ask for a deposit agree if the order of the amounts makes no difference to the
pool, and, as long as nothing overflows, only then. -/
theorem orientation (env : DexEnv D) (reentry : Bool) (engine : DexEngine D) (now : U64)
    {tokenA tokenB : H256} (hne : tokenA ≠ tokenB) (x y : U256) (provider : Address) :
    let outcome := engine.addLiquidity env reentry now tokenA tokenB x y provider
    let outcome' := engine.addLiquidity env reentry now tokenB tokenA y x provider
    (engine.OrderFree env tokenA tokenB x y →
        Agree (computePoolId env tokenA tokenB) provider outcome outcome') ∧
      (engine.Roomy env tokenA tokenB x y →
        Agree (computePoolId env tokenA tokenB) provider outcome outcome' →
          engine.OrderFree env tokenA tokenB x y) := by
  intro outcome outcome'
  have hid : computePoolId env tokenB tokenA = computePoolId env tokenA tokenB :=
    computePoolId_comm env tokenB tokenA
  have hfound := @addLiquidity_pool _ _ env reentry engine now tokenA tokenB x y provider
  have hending := @addLiquidity_ending _ _ env reentry engine now tokenA tokenB x y provider
  have hfound' := @addLiquidity_pool _ _ env reentry engine now tokenB tokenA y x provider
  have hending' := @addLiquidity_ending _ _ env reentry engine now tokenB tokenA y x provider
  rw [hid] at hfound'
  cases hpool : engine.pool? (computePoolId env tokenA tokenB) with
  | none =>
    -- Each order creates its own pool, and one is the mirror of the other.
    have htarget : engine.target env tokenA tokenB = .new tokenA tokenB := by
      rw [target, hpool, Option.getD_none]
    have htarget' : engine.target env tokenB tokenA = .new tokenB tokenA := by
      rw [target, hid, hpool, Option.getD_none]
    rw [htarget] at hfound hending
    rw [htarget'] at hfound' hending'
    obtain ⟨hbooks, hresults⟩ :=
      @AmmPool.addLiquidity_new_swap _ env reentry now tokenA tokenB hne x y provider
    refine ⟨fun _ => ⟨⟨_, _, hfound, hfound', hbooks⟩, fun hok hok' => ?_⟩, fun _ _ pool h => ?_⟩
    · exact hresults _ _ (hending.symm.trans hok) (hending'.symm.trans hok')
    · rw [hpool] at h
      cases h
  | some pool =>
    -- Both orders go to the same pool.
    have htarget : engine.target env tokenA tokenB = pool := by
      rw [target, hpool, Option.getD_some]
    have htarget' : engine.target env tokenB tokenA = pool := by
      rw [target, hid, hpool, Option.getD_some]
    rw [htarget] at hfound hending
    rw [htarget'] at hfound' hending'
    refine ⟨fun hfree => ?_, fun hroomy hagree pool' hpool' => ?_⟩
    · have hswap := @AmmPool.addLiquidity_swap _ env reentry _ _ _ (hfree pool hpool) now provider
      rw [← hswap] at hfound' hending'
      refine ⟨⟨_, _, hfound, hfound', fun _ => rfl, rfl, rfl⟩, fun hok hok' => ?_⟩
      have hsame := Ending.returned.inj (hok.symm.trans (hending.trans (hending'.symm.trans hok')))
      rw [Except.ok.inj hsame]
      exact ⟨rfl, rfl⟩
    · obtain rfl := Option.some.inj (hpool.symm.trans hpool')
      obtain ⟨_, _, h, h', hbooks⟩ := hagree.pools
      obtain rfl := Option.some.inj (hfound.symm.trans h)
      obtain rfl := Option.some.inj (hfound'.symm.trans h')
      obtain ⟨hxy, hyx⟩ := hroomy pool hpool
      exact AmmPool.symmetric_of_sameBooks hxy hyx hbooks

/-- A deposit to an engine of two tokens, in one order or the other. -/
def sampleAdd (engine : DexEngine (List UInt8)) (tokenA tokenB : UInt8) (x y : U256) :
    Ending AmmLock (Except DexError (LiquidityResult (List UInt8))) × DexEngine (List UInt8) :=
  engine.addLiquidity AmmPool.sampleDexEnv true 0 (AmmPool.sampleToken tokenA)
    (AmmPool.sampleToken tokenB) x y (AmmPool.sampleToken 9)

/-- An engine with a pool of 6 and 6. -/
def sampleEven : DexEngine (List UInt8) := (sampleAdd new 1 2 6 6).2

/-- A deposit of 4 and 9 to a pool with equal reserves, which credits 4 in both orders. -/
theorem orientation_sample :
    ((sampleAdd sampleEven 1 2 4 9).2.pool? (List.replicate 32 1 ++ List.replicate 32 2)).map
        (fun pool => (pool.reserveA, pool.reserveB, pool.totalSupply)) = some (10, 10, 10) ∧
      Agree (computePoolId AmmPool.sampleDexEnv (AmmPool.sampleToken 1) (AmmPool.sampleToken 2))
        (AmmPool.sampleToken 9) (sampleAdd sampleEven 1 2 4 9) (sampleAdd sampleEven 2 1 9 4) := by
  refine ⟨by decide +kernel, (orientation AmmPool.sampleDexEnv true sampleEven 0 (by decide) 4 9
    (AmmPool.sampleToken 9)).1 ?_⟩
  have hsymmetric : (sampleEven.pool? (computePoolId AmmPool.sampleDexEnv (AmmPool.sampleToken 1)
      (AmmPool.sampleToken 2))).all (fun pool => decide (pool.Symmetric 4 9)) = true := by
    decide +kernel
  intro pool hpool
  rw [hpool] at hsymmetric
  exact of_decide_eq_true hsymmetric

/-- The same deposit again, in both orders, to the pool that the first one has created. -/
theorem other_order_differs :
    (((sampleAdd (sampleAdd new 1 2 4 9).2 1 2 4 9).2.pool?
          (List.replicate 32 1 ++ List.replicate 32 2)).map
        fun pool => (pool.reserveA, pool.reserveB, pool.totalSupply)) = some (8, 18, 12) ∧
      (((sampleAdd (sampleAdd new 1 2 4 9).2 2 1 9 4).2.pool?
          (List.replicate 32 1 ++ List.replicate 32 2)).map
        fun pool => (pool.reserveA, pool.reserveB, pool.totalSupply)) = some (5, 12, 8) := by
  decide +kernel

end DexEngine

end InterBit.Dex
