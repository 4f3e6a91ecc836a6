import InterBit.Core.Bytes
import Mathlib.Data.List.AList

/-!
# The filter of the risk manager

`ai_trading/risk_manager.rs`. `filter_recommendations` checks the size that is asked for, and
books the size that the risk allows. What floating-point numbers decide is taken from outside:
the percentage of a stop loss, and the adjusted size, of which only is known that it is not
larger than the size before (`adjustPositionSize_le`; the function of the source is
`kellySize`).

`Caps` is what the filter promises. The running totals are those of the list that it has kept
so far (`Tracks`), so a size that passes the checks keeps the caps.
-/

namespace InterBit.AiTrading

/-- `enum TradeAction`. -/
inductive TradeAction where
  | buy
  | sell
  | hold
  | long
  | short
  | closePosition
  deriving DecidableEq

/-- `struct TradeRecommendation`; `F` is the type of the floating-point numbers. -/
structure TradeRecommendation (F : Type) where
  token : H256
  action : TradeAction
  size : U256
  entryPrice : U256
  targetPrice : U256
  stopLoss : U256
  confidence : F
  reasoning : String

/-- `struct RiskManager`, by what it decides with floating-point numbers. -/
structure RiskManager (F : Type) where
  /-- `adjust_position_size`; `none` is a panic. -/
  adjustPositionSize : U256 → F → U256 → Option U256
  /-- `(stop_percentage * 100.0) as u64`. -/
  stopPercentage : F → U64
  adjustPositionSize_le : ∀ size confidence capital adjusted,
    adjustPositionSize size confidence capital = some adjusted → adjusted.toNat ≤ size.toNat

variable {F : Type}

/-- The percentage of an amount. -/
def percentOf (amount percentage : U256) : Option U256 := mulDivU256 amount percentage 100

/-- The function of the source; `fraction` is `(adjusted_fraction * 100.0) as u64`. -/
def kellySize (fraction : F → U64) (size : U256) (confidence : F) (capital : U256) :
    Option U256 := do
  let maxSize ← percentOf capital ((fraction confidence).setWidth 256)
  some (minU256 size maxSize)

theorem kellySize_le (fraction : F → U64) {size capital adjusted : U256} {confidence : F}
    (h : kellySize fraction size confidence capital = some adjusted) :
    adjusted.toNat ≤ size.toNat := by
  obtain ⟨maxSize, -, hmin⟩ := Option.bind_eq_some_iff.mp h
  rw [← Option.some.inj hmin, toNat_minU256]
  exact Nat.min_le_left ..

namespace RiskManager

variable (manager : RiskManager F)

/-- `calculate_stop_loss`. -/
def calculateStopLoss (entryPrice : U256) (action : TradeAction) (confidence : F) :
    Option U256 := do
  let stopAmount ← percentOf entryPrice ((manager.stopPercentage confidence).setWidth 256)
  match action with
  | .buy | .long => subU256 entryPrice stopAmount
  | .sell | .short => addU256 entryPrice stopAmount
  | .hold | .closePosition => some entryPrice

/-- The loop of `filter_recommendations`; `none` is a panic. -/
def filterLoop (capital : U256) :
    List (TradeRecommendation F) → List (TradeRecommendation F) → U256 →
      (AList fun _ : H256 => U256) → Option (List (TradeRecommendation F))
  | [], filtered, _, _ => some filtered
  | recommendation :: rest, filtered, totalExposure, exposureByToken => do
    let wanted ← addU256 totalExposure recommendation.size
    let totalCap ← percentOf capital 95
    if totalCap < wanted then
      filterLoop capital rest filtered totalExposure exposureByToken
    else
      -- `entry(..).or_insert(0)`, which stays when the recommendation is skipped
      let tokenExposure := (exposureByToken.lookup recommendation.token).getD 0
      let exposureByToken := exposureByToken.insert recommendation.token tokenExposure
      let wantedOfToken ← addU256 tokenExposure recommendation.size
      let tokenCap ← percentOf capital 30
      if tokenCap < wantedOfToken then
        filterLoop capital rest filtered totalExposure exposureByToken
      else
        let size ← manager.adjustPositionSize recommendation.size recommendation.confidence capital
        let stopLoss ← manager.calculateStopLoss recommendation.entryPrice recommendation.action
          recommendation.confidence
        let totalExposure ← addU256 totalExposure size
        let tokenExposure ← addU256 tokenExposure size
        let exposureByToken := exposureByToken.insert recommendation.token tokenExposure
        let filtered := filtered ++ [{ recommendation with size, stopLoss }]
        if 10 ≤ filtered.length then some filtered
        else filterLoop capital rest filtered totalExposure exposureByToken

/-- `filter_recommendations`; it returns no error. -/
def filterRecommendations (recommendations : List (TradeRecommendation F)) (capital : U256) :
    Option (List (TradeRecommendation F)) :=
  manager.filterLoop capital recommendations [] 0 ∅

end RiskManager

/-! ### The caps -/

/-- The sizes together. -/
def exposure (list : List (TradeRecommendation F)) : Nat := (list.map (·.size.toNat)).sum

/-- The sizes of a token. -/
def exposureOf (token : H256) (list : List (TradeRecommendation F)) : Nat :=
  exposure (list.filter (·.token = token))

/-- The recommendation without the two fields that the filter writes. -/
def TradeRecommendation.content (recommendation : TradeRecommendation F) : TradeRecommendation F :=
  { recommendation with size := 0, stopLoss := 0 }

/-- What the filter promises of a list. -/
structure Caps (capital : U256) (list : List (TradeRecommendation F)) : Prop where
  length_le : list.length ≤ 10
  total_le : 100 * exposure list ≤ 95 * capital.toNat
  token_le : ∀ token, 100 * exposureOf token list ≤ 30 * capital.toNat

/-- The running totals are those of the list. -/
structure Tracks (list : List (TradeRecommendation F)) (totalExposure : U256)
    (exposureByToken : AList fun _ : H256 => U256) : Prop where
  total : totalExposure.toNat = exposure list
  token : ∀ token, ((exposureByToken.lookup token).getD 0).toNat = exposureOf token list

theorem exposure_append (xs ys : List (TradeRecommendation F)) :
    exposure (xs ++ ys) = exposure xs + exposure ys := by
  rw [exposure, List.map_append, List.sum_append]
  rfl

theorem exposure_singleton (recommendation : TradeRecommendation F) :
    exposure [recommendation] = recommendation.size.toNat := by
  simp [exposure]

theorem exposureOf_append_singleton (token : H256) (list : List (TradeRecommendation F))
    (recommendation : TradeRecommendation F) :
    exposureOf token (list ++ [recommendation])
      = exposureOf token list + if recommendation.token = token then recommendation.size.toNat
          else 0 := by
  rw [exposureOf, List.filter_append, exposure_append]
  split
  next h =>
    rw [List.filter_cons_of_pos (by simpa using h), List.filter_nil, exposure_singleton]
    rfl
  next h => rw [List.filter_cons_of_neg (by simpa using h), List.filter_nil]; rfl

theorem percentOf_le {amount percentage part : U256} (h : percentOf amount percentage = some part) :
    100 * part.toNat ≤ percentage.toNat * amount.toNat := by
  have hpart := (mulDivU256_eq.mp h).2
  rw [show (100 : U256).toNat = 100 from rfl] at hpart
  rw [hpart, Nat.mul_comm percentage.toNat]
  exact Nat.mul_div_le ..

/-- A sum that is not above the cap leaves room for a smaller part. -/
theorem percentOf_room {capital percentage cap total size wanted adjusted : U256}
    (hcap : percentOf capital percentage = some cap) (hwanted : addU256 total size = some wanted)
    (hpass : ¬ cap < wanted) (hle : adjusted.toNat ≤ size.toNat) :
    100 * (total.toNat + adjusted.toNat) ≤ percentage.toNat * capital.toNat := by
  have hpart := percentOf_le hcap
  have hwithin : wanted.toNat ≤ cap.toNat :=
    Nat.le_of_not_lt fun hlt => hpass (BitVec.lt_def.mpr hlt)
  rw [addU256_eq.mp hwanted] at hwithin
  omega

theorem tracks_nil : Tracks ([] : List (TradeRecommendation F)) 0 ∅ where
  total := rfl
  token := fun _ => rfl

theorem caps_nil (capital : U256) : Caps capital ([] : List (TradeRecommendation F)) where
  length_le := Nat.zero_le _
  total_le := Nat.zero_le _
  token_le := fun _ => Nat.zero_le _

variable {list : List (TradeRecommendation F)}

/-- A token that is looked up first counts as before. -/
theorem Tracks.touch {totalExposure : U256} {exposureByToken : AList fun _ : H256 => U256}
    (h : Tracks list totalExposure exposureByToken) (token : H256) :
    Tracks list totalExposure
      (exposureByToken.insert token ((exposureByToken.lookup token).getD 0)) where
  total := h.total
  token := by
    intro other
    by_cases hother : other = token
    · rw [hother, AList.lookup_insert, Option.getD_some]
      exact h.token token
    · rw [AList.lookup_insert_ne hother]
      exact h.token other

/-- The totals after a recommendation is kept. -/
theorem Tracks.push {totalExposure totalExposure' : U256}
    {exposureByToken : AList fun _ : H256 => U256} (h : Tracks list totalExposure exposureByToken)
    {recommendation : TradeRecommendation F} {tokenExposure' : U256}
    (htotal : totalExposure'.toNat = totalExposure.toNat + recommendation.size.toNat)
    (htoken : tokenExposure'.toNat = ((exposureByToken.lookup recommendation.token).getD 0).toNat
      + recommendation.size.toNat) :
    Tracks (list ++ [recommendation]) totalExposure'
      (exposureByToken.insert recommendation.token tokenExposure') where
  total := by rw [htotal, h.total, exposure_append, exposure_singleton]
  token := by
    intro other
    rw [exposureOf_append_singleton]
    by_cases hother : other = recommendation.token
    · rw [hother, AList.lookup_insert, Option.getD_some, htoken, h.token, if_pos rfl]
    · rw [AList.lookup_insert_ne hother, h.token, if_neg (Ne.symm hother), Nat.add_zero]

/-- A size that passes the two checks, or a smaller one, keeps the caps. -/
theorem Caps.push {capital : U256} (h : Caps capital list)
    (hroom : list.length < 10) {recommendation : TradeRecommendation F}
    (htotal : 100 * (exposure list + recommendation.size.toNat) ≤ 95 * capital.toNat)
    (htoken : 100 * (exposureOf recommendation.token list + recommendation.size.toNat)
      ≤ 30 * capital.toNat) :
    Caps capital (list ++ [recommendation]) where
  length_le := by
    rw [List.length_append]
    exact hroom
  total_le := by rwa [exposure_append, exposure_singleton]
  token_le := by
    intro token
    rw [exposureOf_append_singleton]
    split
    next hsame => rwa [← hsame]
    next => exact h.token_le token

namespace RiskManager

variable (manager : RiskManager F)

/-- The loop adds recommendations of the rest of the input, and keeps the caps. -/
theorem filterLoop_spec {capital : U256} (recommendations : List (TradeRecommendation F)) :
    ∀ (filtered : List (TradeRecommendation F)) (totalExposure : U256)
      (exposureByToken : AList fun _ : H256 => U256),
      Tracks filtered totalExposure exposureByToken → Caps capital filtered → filtered.length < 10 →
      ∀ result, manager.filterLoop capital recommendations filtered totalExposure exposureByToken
          = some result →
        Caps capital result ∧ ∃ added, result = filtered ++ added ∧
          (added.map (·.content)).Sublist (recommendations.map (·.content)) := by
  induction recommendations with
  | nil =>
    intro filtered totalExposure exposureByToken _ hcaps _ result h
    rw [filterLoop, Option.some_inj] at h
    exact ⟨h ▸ hcaps, [], by rw [h, List.append_nil], List.nil_sublist _⟩
  | cons recommendation rest ih =>
    intro filtered totalExposure exposureByToken htracks hcaps hroom result h
    -- What a skipped recommendation leaves to show.
    have hskip : ∀ exposureByToken', Tracks filtered totalExposure exposureByToken' →
        manager.filterLoop capital rest filtered totalExposure exposureByToken' = some result →
        Caps capital result ∧ ∃ added, result = filtered ++ added ∧
          (added.map (·.content)).Sublist ((recommendation :: rest).map (·.content)) := by
      intro exposureByToken' htracks' hrest
      obtain ⟨hresult, added, hadded, hsub⟩ :=
        ih filtered totalExposure exposureByToken' htracks' hcaps hroom result hrest
      exact ⟨hresult, added, hadded, hsub.trans (List.sublist_cons_self ..)⟩
    rw [filterLoop] at h
    obtain ⟨wanted, hwanted, h⟩ := Option.bind_eq_some_iff.mp h
    obtain ⟨totalCap, htotalCap, h⟩ := Option.bind_eq_some_iff.mp h
    split at h
    next => exact hskip _ htracks h
    next htotal =>
    obtain ⟨wantedOfToken, hwantedOfToken, h⟩ := Option.bind_eq_some_iff.mp h
    obtain ⟨tokenCap, htokenCap, h⟩ := Option.bind_eq_some_iff.mp h
    split at h
    next => exact hskip _ (htracks.touch _) h
    next htoken =>
    obtain ⟨size, hsize, h⟩ := Option.bind_eq_some_iff.mp h
    obtain ⟨stopLoss, -, h⟩ := Option.bind_eq_some_iff.mp h
    obtain ⟨totalExposure', htotal', h⟩ := Option.bind_eq_some_iff.mp h
    obtain ⟨tokenExposure', htoken', h⟩ := Option.bind_eq_some_iff.mp h
    have hle := manager.adjustPositionSize_le _ _ _ _ hsize
    -- The checks were made on a size that is at least the one that is kept.
    have htotalle : 100 * (exposure filtered + size.toNat) ≤ 95 * capital.toNat := by
      rw [← htracks.total]
      exact percentOf_room htotalCap hwanted htotal hle
    have htokenle : 100 * (exposureOf recommendation.token filtered + size.toNat)
        ≤ 30 * capital.toNat := by
      rw [← htracks.token]
      exact percentOf_room htokenCap hwantedOfToken htoken hle
    have hcaps' : Caps capital (filtered ++ [{ recommendation with size, stopLoss }]) :=
      hcaps.push hroom htotalle htokenle
    have hcontent : TradeRecommendation.content { recommendation with size, stopLoss }
        = recommendation.content := rfl
    dsimp only at h
    split at h
    next =>
      rw [Option.some_inj] at h
      refine ⟨h ▸ hcaps', [{ recommendation with size, stopLoss }], h.symm, ?_⟩
      rw [List.map_singleton, hcontent, List.map_cons, List.singleton_sublist]
      exact List.mem_cons_self ..
    next hmore =>
      have htracks' : Tracks (filtered ++ [{ recommendation with size, stopLoss }]) totalExposure'
          ((exposureByToken.insert recommendation.token
            ((exposureByToken.lookup recommendation.token).getD 0)).insert
              recommendation.token tokenExposure') :=
        (htracks.touch recommendation.token).push (addU256_eq.mp htotal')
          (by rw [addU256_eq.mp htoken', AList.lookup_insert, Option.getD_some])
      obtain ⟨hresult, added, hadded, hsub⟩ :=
        ih _ _ _ htracks' hcaps' (Nat.lt_of_not_le hmore) result h
      refine ⟨hresult, { recommendation with size, stopLoss } :: added, ?_, ?_⟩
      · rw [hadded, List.append_assoc, List.singleton_append]
      · rw [List.map_cons, List.map_cons, hcontent]
        exact hsub.cons_cons _

/-- What the filter returns is within the caps, and is made of recommendations of the input in
their order. -/
theorem filterRecommendations_caps (recommendations filtered : List (TradeRecommendation F))
    (capital : U256)
    (h : manager.filterRecommendations recommendations capital = some filtered) :
    (filtered.map (·.content)).Sublist (recommendations.map (·.content)) ∧
      filtered.length ≤ 10 ∧ 100 * exposure filtered ≤ 95 * capital.toNat ∧
      ∀ token, 100 * exposureOf token filtered ≤ 30 * capital.toNat := by
  obtain ⟨hcaps, added, hadded, hsub⟩ := manager.filterLoop_spec recommendations [] 0 ∅ tracks_nil
    (caps_nil capital) (Nat.zero_lt_succ _) filtered h
  rw [List.nil_append] at hadded
  exact ⟨hadded ▸ hsub, hcaps.length_le, hcaps.total_le, hcaps.token_le⟩

/-- The manager of the source, with a fifth of the capital for a sure trade. -/
def sample : RiskManager Bool where
  adjustPositionSize := kellySize fun sure => if sure then 20 else 5
  stopPercentage := fun sure => if sure then 5 else 7
  adjustPositionSize_le := fun _ _ _ _ h => kellySize_le _ h

/-- A recommendation to buy at 100. -/
def sampleRecommendation (token : UInt8) (size stopLoss : U256) (sure : Bool) :
    TradeRecommendation Bool where
  token := .replicate 32 token
  action := .buy
  size
  entryPrice := 100
  targetPrice := 120
  stopLoss
  confidence := sure
  reasoning := ""

/-- Twice the same token, and another one. -/
def sampleInput : List (TradeRecommendation Bool) :=
  [sampleRecommendation 1 300 0 true, sampleRecommendation 1 150 0 true,
    sampleRecommendation 2 100 0 false]

/-- The first size is adjusted, the second is too much for the token. -/
def sampleFiltered : List (TradeRecommendation Bool) :=
  [sampleRecommendation 1 200 95 true, sampleRecommendation 2 50 93 false]

theorem filterRecommendations_caps_sample :
    sample.filterRecommendations sampleInput 1000 = some sampleFiltered ∧
      (sampleFiltered.map (·.content)).Sublist (sampleInput.map (·.content)) ∧
      sampleFiltered.length ≤ 10 ∧
      100 * exposure sampleFiltered ≤ 95 * (1000 : U256).toNat ∧
      ∀ token, 100 * exposureOf token sampleFiltered ≤ 30 * (1000 : U256).toNat :=
  ⟨rfl, filterRecommendations_caps sample sampleInput sampleFiltered 1000 rfl⟩

end RiskManager

end InterBit.AiTrading
