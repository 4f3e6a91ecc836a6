import InterBit.Defi.OpenInterest

/-!
# Liquidations that race

`liquidate_position` checks a position under read locks, pays into the insurance fund and then
removes the position, and does not look again at what is there in between. Here any number of
liquidations take these sections in any order, with `close_position` between them, which holds the
positions all the time. The insurance fund is held from the payment to the removal.
`settled_once_iff`: a position is settled and paid for once exactly if no liquidation pays after
another one has come to its end, and none removes a position that is not there any more.
-/

namespace InterBit.Defi

open InterBit.Lib

namespace PerpetualEngine

/-- The balance of the fund goes up, whatever becomes of the call then. -/
def receives (engine : PerpetualEngine) (contribution : U256) : Bool :=
  (addU256 engine.insuranceFund.balance contribution).isSome

/-- The balance is the sum of the contributions. -/
def Funded (engine : PerpetualEngine) : Prop :=
  engine.insuranceFund.balance = engine.insuranceFund.totalContributions

/-- As long as the balance is the sum of the contributions, a payment succeeds as a whole or changes
nothing. -/
theorem Funded.contribute_cases {engine : PerpetualEngine} (h : engine.Funded)
    (contribution : U256) :
    (engine.receives contribution = false ∧ engine.contribute contribution = (engine, none)) ∨
      engine.receives contribution = true ∧ ∃ paid,
        engine.contribute contribution = (paid, some ()) ∧ paid.positions = engine.positions ∧
        paid.Funded := by
  unfold receives contribute
  dsimp only
  rw [← show engine.insuranceFund.balance = engine.insuranceFund.totalContributions from h]
  cases addU256 engine.insuranceFund.balance contribution with
  | none => exact Or.inl ⟨rfl, rfl⟩
  | some balance => exact Or.inr ⟨rfl, _, rfl, rfl, rfl⟩

/-- Funding does not touch the insurance fund. -/
theorem insuranceFund_updateFundingRate (env : Env) (engine : PerpetualEngine)
    (marketId rateId : H256) (now : Seconds) :
    (engine.updateFundingRate env marketId rateId now).1.insuranceFund = engine.insuranceFund := by
  unfold updateFundingRate
  split
  next => rfl
  next =>
    split
    next =>
      split
      next => rfl
      next => split <;> rfl
    next => rfl

theorem insuranceFund_addInterest {engine raised : PerpetualEngine} {marketId : H256}
    {isLong : Bool} {size : U256} (h : engine.addInterest marketId isLong size = some raised) :
    raised.insuranceFund = engine.insuranceFund := by
  unfold addInterest at h
  split at h
  next =>
    cases h
    rfl
  next =>
    split at h
    next => cases h
    next =>
      cases h
      rfl

/-- Opening a position does not touch the insurance fund. -/
theorem insuranceFund_openPosition (env : Env) (engine : PerpetualEngine) (trader : Address)
    (marketId : H256) (size : U256) (leverage : U32) (isLong : Bool) (draw : OpenDraw) :
    (engine.openPosition env trader marketId size leverage isLong draw).1.insuranceFund
      = engine.insuranceFund := by
  unfold openPosition
  split
  next => rfl
  next => rfl
  next position _ =>
    split
    next => rfl
    next raised hadd =>
      have hadded := insuranceFund_addInterest hadd
      have hsame := (insuranceFund_updateFundingRate env { raised with
        positions := raised.positions.insert draw.positionId position } marketId draw.rateId
        draw.now).trans hadded
      dsimp only
      revert hsame
      rcases updateFundingRate env { raised with
        positions := raised.positions.insert draw.positionId position } marketId draw.rateId
        draw.now with ⟨engine', _ | error | ⟨⟩⟩ <;> exact id

theorem Funded.next {engine : PerpetualEngine} (h : engine.Funded) (env : Env)
    (call : PerpetualCall) : (engine.next env call).Funded := by
  cases call with
  | createMarket marketId baseToken quoteToken maxLeverage now =>
    unfold PerpetualEngine.next createMarket
    dsimp only
    split <;> exact h
  | openPosition trader marketId size leverage isLong draw =>
    unfold Funded PerpetualEngine.next
    dsimp only
    -- Only a liquidation pays into the fund; the other calls leave it as it is.
    rw [insuranceFund_openPosition]
    exact h
  | addCollateral trader positionId amount =>
    unfold PerpetualEngine.next
    dsimp only
    rcases addCollateral_cases engine trader positionId amount with
      hsame | ⟨_, _, _, _, _, _, hadded⟩
    · rw [hsame]
      exact h
    · rw [hadded]
      exact h
  | closePosition trader positionId now =>
    unfold PerpetualEngine.next
    dsimp only
    rcases closePosition_cases env engine trader positionId now with
      ⟨_, hsame, _⟩ | ⟨position, market, _, _, hmarket, hclosed⟩
    · rw [hsame]
      exact h
    · rw [hclosed, subInterest, hmarket]
      exact h
  | liquidatePosition liquidator positionId =>
    unfold PerpetualEngine.next liquidatePosition
    dsimp only
    split
    next => exact h
    next => exact h
    next reward contribution _ =>
      -- What is paid is added to a fund that has as much already.
      rcases h.contribute_cases contribution with ⟨_, heq⟩ | ⟨_, paid, heq, _, hpaid⟩
      · rw [heq]
        exact h
      · rw [heq]
        exact hpaid

/-- In every state that an engine comes to, the balance is the sum of the contributions. -/
theorem funded_run (env : Env) (config : DeFiConfig) (calls : List PerpetualCall) :
    (calls.foldl (next env) (new config)).Funded := by
  suffices h : ∀ engine : PerpetualEngine, engine.Funded →
      (calls.foldl (next env) engine).Funded from h (new config) rfl
  induction calls with
  | nil => exact fun _ h => h
  | cons call calls ih => exact fun engine h => ih _ (h.next env call)

end PerpetualEngine

/-- A call of `liquidate_position` after its check, and whether another one for the position has
come to its end since. -/
structure LiquidationCall where
  positionId : H256
  reward : U256
  contribution : U256
  overtaken : Bool

/-- An engine with the calls that have been through their check, the call that holds the insurance
fund, the positions for which a call has returned, and those for which the fund has got
something. -/
structure SettlementRace where
  engine : PerpetualEngine
  checked : List LiquidationCall
  holder : Option LiquidationCall
  settled : List H256
  contributed : List H256

/-- A section of a liquidation, or a call of `close_position`. -/
inductive SettlementSection where
  | check (positionId : H256)
  | pay (call : Nat)
  | remove
  | close (trader : Address) (positionId : H256) (now : Seconds)

namespace SettlementRace

open PerpetualEngine

/-- Before the first call. -/
def new (engine : PerpetualEngine) : SettlementRace := ⟨engine, [], none, [], []⟩

/-- The liquidations of a position are overtaken. -/
def overtake (calls : List LiquidationCall) (positionId : H256) : List LiquidationCall :=
  calls.map fun call =>
    if call.positionId = positionId then { call with overtaken := true } else call

/-- One section. -/
def next (env : Env) (race : SettlementRace) : SettlementSection → SettlementRace
  | .check positionId =>
    match race.engine.liquidation positionId with
    | some (.ok (reward, contribution)) =>
      { race with checked := race.checked ++ [⟨positionId, reward, contribution, false⟩] }
    | _ => race
  | .pay i =>
    match race.holder, race.checked[i]? with
    -- the position is not looked at again
    | none, some call =>
      let contributed := if race.engine.receives call.contribution
        then race.contributed ++ [call.positionId] else race.contributed
      match race.engine.contribute call.contribution with
      | (engine, none) =>
        { race with engine, checked := race.checked.eraseIdx i, contributed }
      | (engine, some ()) =>
        { race with engine, checked := race.checked.eraseIdx i, holder := some call, contributed }
    | _, _ => race
  | .remove =>
    match race.holder with
    | some call =>
      { race with
        engine := race.engine.removePosition call.positionId
        checked := overtake race.checked call.positionId
        holder := none
        settled := race.settled ++ [call.positionId] }
    | none => race
  | .close trader positionId now =>
    match race.engine.closePosition env trader positionId now with
    | (engine, some (.ok _)) => { race with engine, settled := race.settled ++ [positionId] }
    | (engine, some (.error _)) => { race with engine }
    | (engine, none) => { race with engine }

/-- The sections of one liquidation, one after the other. -/
theorem engine_alone (env : Env) (engine : PerpetualEngine) (liquidator : Address)
    (positionId : H256) :
    ([.check positionId, .pay 0, .remove].foldl (next env) (new engine)).engine
      = (engine.liquidatePosition liquidator positionId).1 := by
  simp only [List.foldl_cons, List.foldl_nil]
  unfold liquidatePosition
  rcases hcheck : engine.liquidation positionId with _ | error | ⟨reward, contribution⟩
  · have hfirst : (new engine).next env (.check positionId) = new engine := by
      simp only [next, new, hcheck]
    rw [hfirst]
    rfl
  · have hfirst : (new engine).next env (.check positionId) = new engine := by
      simp only [next, new, hcheck]
    rw [hfirst]
    rfl
  · have hfirst : (new engine).next env (.check positionId)
        = ⟨engine, [⟨positionId, reward, contribution, false⟩], none, [], []⟩ := by
      simp only [next, new, hcheck]
      rfl
    rw [hfirst]
    dsimp only
    rcases hpay : engine.contribute contribution with ⟨paid, _ | ⟨⟩⟩
    · simp only [next, List.getElem?_cons_zero, hpay]
    · simp only [next, List.getElem?_cons_zero, hpay]

/-! ## What a section does -/

/-- For each position at most one call has returned, and the fund has got something at most once. -/
def SettlesOnce (env : Env) (race : SettlementRace) (step : SettlementSection) : Prop :=
  (race.next env step).settled.Nodup ∧ (race.next env step).contributed.Nodup

/-- A liquidation that pays has not been overtaken, and one that removes its position finds it. -/
def Fresh (race : SettlementRace) : SettlementSection → Prop
  | .check _ => True
  | .pay i => race.holder = none → ∀ call, race.checked[i]? = some call →
    race.engine.receives call.contribution = true → call.overtaken = false
  | .remove => ∀ call, race.holder = some call →
    (race.engine.positions.lookup call.positionId).isSome
  | .close _ _ _ => True

/-- What a section can do, while the balance of the fund is the sum of the contributions. -/
inductive Steps (race : SettlementRace) : SettlementSection → SettlementRace → Prop
  /-- Nothing that matters. -/
  | idle {step : SettlementSection} : race.Fresh step → Steps race step race
  /-- A liquidation passes the check. -/
  | checked {positionId : H256} {reward contribution : U256} :
      (race.engine.positions.lookup positionId).isSome →
      Steps race (.check positionId)
        { race with checked := race.checked ++ [⟨positionId, reward, contribution, false⟩] }
  /-- A liquidation panics at its payment. -/
  | panicked {i : Nat} {call : LiquidationCall} : race.checked[i]? = some call →
      race.engine.receives call.contribution = false →
      Steps race (.pay i) { race with checked := race.checked.eraseIdx i }
  /-- A liquidation pays. -/
  | paid {i : Nat} {call : LiquidationCall} {engine : PerpetualEngine} :
      race.holder = none → race.checked[i]? = some call →
      race.engine.receives call.contribution = true →
      engine.positions = race.engine.positions →
      engine.insuranceFund.balance = engine.insuranceFund.totalContributions →
      Steps race (.pay i)
        { race with
          engine
          checked := race.checked.eraseIdx i
          holder := some call
          contributed := race.contributed ++ [call.positionId] }
  /-- A liquidation removes its position. -/
  | removed {call : LiquidationCall} : race.holder = some call →
      Steps race .remove
        { race with
          engine := race.engine.removePosition call.positionId
          checked := overtake race.checked call.positionId
          holder := none
          settled := race.settled ++ [call.positionId] }
  /-- A position is closed. -/
  | closed {trader : Address} {positionId : H256} {now : Seconds} {engine : PerpetualEngine} :
      (race.engine.positions.lookup positionId).isSome →
      engine.positions = race.engine.positions.erase positionId →
      engine.insuranceFund = race.engine.insuranceFund →
      Steps race (.close trader positionId now)
        { race with engine, settled := race.settled ++ [positionId] }

variable {engine : PerpetualEngine} {positionId : H256}

theorem isSome_of_liquidation {shares : U256 × U256}
    (h : engine.liquidation positionId = some (.ok shares)) :
    (engine.positions.lookup positionId).isSome := by
  unfold liquidation at h
  split at h
  next => cases h
  next hlookup =>
    rw [hlookup]
    rfl

theorem next_spec (env : Env) {race : SettlementRace} (h : race.engine.Funded)
    (step : SettlementSection) : Steps race step (race.next env step) := by
  cases step with
  | check positionId =>
    unfold next
    dsimp only
    split
    next hcheck => exact .checked (isSome_of_liquidation hcheck)
    next => exact .idle trivial
  | pay i =>
    unfold next
    dsimp only
    split
    next call hholder hcall =>
      rcases h.contribute_cases call.contribution with
        ⟨hno, heq⟩ | ⟨hyes, paid, heq, hpositions, hfunded⟩
      · rw [heq, hno]
        exact .panicked hcall hno
      · rw [heq, hyes]
        exact .paid hholder hcall hyes hpositions hfunded
    -- another liquidation holds the fund, or there is no such call
    next hno => exact .idle fun hholder call hcall => (hno call hholder hcall).elim
  | remove =>
    unfold next
    dsimp only
    split
    next hholder => exact .removed hholder
    next hnone => exact .idle fun call hholder => nomatch hnone.symm.trans hholder
  | close trader positionId now =>
    unfold next
    dsimp only
    rcases closePosition_cases env race.engine trader positionId now with
      ⟨o, heq, hno⟩ | ⟨position, market, result, hposition, hmarket, heq⟩
    · rw [heq]
      rcases o with _ | error | result
      · exact .idle trivial
      · exact .idle trivial
      · exact absurd rfl (hno result)
    · rw [heq]
      refine .closed (Option.isSome_iff_exists.mpr ⟨position, hposition⟩) ?_ ?_
      · rw [subInterest, hmarket]
        rfl
      · rw [subInterest, hmarket]
        rfl

/-! ## What holds of the calls -/

/-- The call that holds the fund is for this position. -/
def HeldFor (race : SettlementRace) (positionId : H256) : Prop :=
  race.holder.map (·.positionId) = some positionId

/-- What is settled is gone, and what the fund has got something for is gone or about to go. -/
structure Tracked (race : SettlementRace) : Prop where
  funded : race.engine.Funded
  gone : ∀ id ∈ race.settled, race.engine.positions.lookup id = none
  known : ∀ call ∈ race.checked, race.engine.positions.lookup call.positionId = none →
    call.positionId ∈ race.settled
  heldKnown : ∀ id, race.HeldFor id → race.engine.positions.lookup id = none → id ∈ race.settled
  flagged : ∀ call ∈ race.checked, call.positionId ∈ race.contributed ↔
    call.overtaken = true ∨ race.HeldFor call.positionId
  held : ∀ id, race.HeldFor id → id ∈ race.contributed
  going : ∀ id ∈ race.contributed, (race.engine.positions.lookup id).isSome → race.HeldFor id
  settledOnce : race.settled.Nodup
  contributedOnce : race.contributed.Nodup

/-- No call is under way at the start. -/
theorem tracked_new (h : engine.Funded) : (new engine).Tracked where
  funded := h
  gone := fun _ hmem => nomatch hmem
  known := fun _ hmem => nomatch hmem
  heldKnown := fun _ hheld => nomatch hheld
  flagged := fun _ hmem => nomatch hmem
  held := fun _ hheld => nomatch hheld
  going := fun _ hmem => nomatch hmem
  settledOnce := List.nodup_nil
  contributedOnce := List.nodup_nil

variable {race : SettlementRace}

/-- A liquidation that passes the check finds its position. -/
theorem Tracked.checked (h : race.Tracked) (reward contribution : U256)
    (hfound : (race.engine.positions.lookup positionId).isSome) :
    Tracked { race with
      checked := race.checked ++ [⟨positionId, reward, contribution, false⟩] } where
  funded := h.funded
  gone := h.gone
  known := by
    intro call hmem hnone
    rcases List.mem_append.mp hmem with hold | hnew
    · exact h.known call hold hnone
    · rw [List.mem_singleton.mp hnew] at hnone
      rw [hnone] at hfound
      cases hfound
  heldKnown := h.heldKnown
  flagged := by
    intro call hmem
    rcases List.mem_append.mp hmem with hold | hnew
    · exact h.flagged call hold
    · rw [List.mem_singleton.mp hnew]
      exact ⟨fun hcontributed => Or.inr (h.going positionId hcontributed hfound),
        fun hor => h.held positionId (hor.resolve_left nofun)⟩
  held := h.held
  going := h.going
  settledOnce := h.settledOnce
  contributedOnce := h.contributedOnce

theorem Tracked.eraseIdx (h : race.Tracked) (i : Nat) :
    Tracked { race with checked := race.checked.eraseIdx i } where
  funded := h.funded
  gone := h.gone
  known := fun call hmem => h.known call (List.mem_of_mem_eraseIdx hmem)
  heldKnown := h.heldKnown
  flagged := fun call hmem => h.flagged call (List.mem_of_mem_eraseIdx hmem)
  held := h.held
  going := h.going
  settledOnce := h.settledOnce
  contributedOnce := h.contributedOnce

/-- A liquidation that has not been overtaken pays. -/
theorem Tracked.paid (h : race.Tracked) {call : LiquidationCall} {engine : PerpetualEngine}
    (hmem : call ∈ race.checked) (hfresh : call.overtaken = false) (hholder : race.holder = none)
    (hpositions : engine.positions = race.engine.positions) (hfunded : engine.Funded) :
    Tracked { race with
      engine
      holder := some call
      contributed := race.contributed ++ [call.positionId] } := by
  have hnobody : ∀ id, ¬ race.HeldFor id := by
    intro id hheld
    rw [HeldFor, hholder] at hheld
    cases hheld
  have hnew : call.positionId ∉ race.contributed := by
    rw [h.flagged call hmem, hfresh]
    exact fun hor => hor.elim Bool.false_ne_true (hnobody _)
  have hheld : ∀ id, some call.positionId = some id ↔ id = call.positionId :=
    fun id => Option.some_inj.trans eq_comm
  refine ⟨hfunded, ?_, ?_, ?_, ?_, ?_, ?_, h.settledOnce,
    List.concat_eq_append ▸ h.contributedOnce.concat hnew⟩
  · exact fun id hid => (congrArg (AList.lookup id) hpositions).trans (h.gone id hid)
  · intro other hother hnone
    exact h.known other hother ((congrArg _ hpositions).symm.trans hnone)
  · intro id hid hnone
    rw [(hheld id).mp hid] at hnone ⊢
    exact h.known call hmem ((congrArg _ hpositions).symm.trans hnone)
  · intro other hother
    -- the others for the position are not overtaken yet, but the fund is held for it
    show other.positionId ∈ race.contributed ++ [call.positionId] ↔
      other.overtaken = true ∨ some call.positionId = some other.positionId
    rw [List.mem_append, List.mem_singleton, hheld, h.flagged other hother,
      or_iff_left (hnobody _)]
  · intro id hid
    rw [(hheld id).mp hid]
    exact List.mem_append_right _ List.mem_cons_self
  · intro id hid hsome
    rcases List.mem_append.mp hid with hold | hlast
    · rw [hpositions] at hsome
      exact absurd (h.going id hold hsome) (hnobody id)
    · exact (hheld id).mpr (List.mem_singleton.mp hlast)

theorem lookup_removed {positions : AList fun _ : H256 => Position}
    (h : engine.positions = positions.erase positionId) (id : H256) :
    engine.positions.lookup id = if id = positionId then none else positions.lookup id := by
  rw [h]
  split
  next hid => rw [hid, AList.lookup_erase]
  next hid => exact AList.lookup_erase_ne hid

/-- A position that is there is removed by a call that returns, and nobody else is affected. -/
theorem Tracked.settle (h : race.Tracked)
    (hfound : (race.engine.positions.lookup positionId).isSome)
    (hpositions : engine.positions = race.engine.positions.erase positionId)
    (hfunded : engine.Funded) :
    Tracked { race with engine, settled := race.settled ++ [positionId] } := by
  have hlookup := lookup_removed hpositions
  have hnone : ∀ id, engine.positions.lookup id = none → (race.engine.positions.lookup id = none →
      id ∈ race.settled) → id ∈ race.settled ++ [positionId] := by
    intro id hid hknown
    rw [hlookup] at hid
    split at hid
    next heq => exact heq ▸ List.mem_append_right _ List.mem_cons_self
    next => exact List.mem_append_left _ (hknown hid)
  have hnew : positionId ∉ race.settled := by
    intro hsettled
    rw [h.gone positionId hsettled] at hfound
    cases hfound
  refine ⟨hfunded, ?_, ?_, ?_, h.flagged, h.held, ?_,
    List.concat_eq_append ▸ h.settledOnce.concat hnew, h.contributedOnce⟩
  · intro id hid
    rw [hlookup]
    split
    next => rfl
    next hne =>
      refine h.gone id ((List.mem_append.mp hid).resolve_right ?_)
      exact fun hlast => hne (List.mem_singleton.mp hlast)
  · exact fun call hmem hcall => hnone _ hcall (h.known call hmem)
  · exact fun id hheld hid => hnone id hid (h.heldKnown id hheld)
  · intro id hid hsome
    rw [hlookup] at hsome
    split at hsome
    next => cases hsome
    next => exact h.going id hid hsome

theorem exists_of_mem_overtake {calls : List LiquidationCall} {call : LiquidationCall}
    (h : call ∈ overtake calls positionId) :
    ∃ old ∈ calls, call.positionId = old.positionId ∧
      (call.overtaken = true ↔ old.overtaken = true ∨ old.positionId = positionId) := by
  obtain ⟨old, hold, rfl⟩ := List.mem_map.mp h
  refine ⟨old, hold, ?_⟩
  by_cases hid : old.positionId = positionId
  · rw [if_pos hid]
    exact ⟨rfl, iff_of_true rfl (Or.inr hid)⟩
  · rw [if_neg hid]
    exact ⟨rfl, (or_iff_left hid).symm⟩

/-- The call that holds the fund has removed its position, and the others for it are overtaken. -/
theorem Tracked.release (h : race.Tracked) {call : LiquidationCall}
    (hholder : race.holder = some call)
    (hgone : race.engine.positions.lookup call.positionId = none) :
    Tracked { race with checked := overtake race.checked call.positionId, holder := none } := by
  have hheld : ∀ id, race.HeldFor id ↔ id = call.positionId := by
    intro id
    rw [HeldFor, hholder]
    exact Option.some_inj.trans eq_comm
  have hpaid : call.positionId ∈ race.contributed := h.held _ ((hheld _).mpr rfl)
  refine ⟨h.funded, h.gone, ?_, fun _ => nofun, ?_, fun _ => nofun, ?_, h.settledOnce,
    h.contributedOnce⟩
  · intro other hmem
    obtain ⟨old, hold, hid, _⟩ := exists_of_mem_overtake hmem
    rw [hid]
    exact h.known old hold
  · intro other hmem
    obtain ⟨old, hold, hid, hflag⟩ := exists_of_mem_overtake hmem
    have hnobody : ¬ (none : Option H256) = some old.positionId := nofun
    show other.positionId ∈ race.contributed ↔ other.overtaken = true ∨
      (none : Option H256) = some other.positionId
    rw [hid, hflag, h.flagged old hold, hheld, or_iff_left hnobody]
  · intro id hid hsome
    rw [(hheld id).mp (h.going id hid hsome), hgone] at hsome
    cases hsome

/-- The step lemma. -/
theorem Tracked.next (h : race.Tracked) (env : Env) {step : SettlementSection}
    (hproper : race.Fresh step) : (race.next env step).Tracked := by
  have hspec := next_spec env h.funded step
  revert hspec
  generalize race.next env step = race'
  intro hspec
  cases hspec with
  | idle => exact h
  | checked hfound => exact h.checked _ _ hfound
  | panicked => exact h.eraseIdx _
  | @paid i call engine hholder hcall hyes hpositions hfunded =>
    have hpaid := h.paid (List.mem_of_getElem? hcall) (hproper hholder call hcall hyes) hholder
      hpositions hfunded
    exact hpaid.eraseIdx i
  | @removed call hholder =>
    have hsettled : Tracked { race with
        engine := race.engine.removePosition call.positionId
        settled := race.settled ++ [call.positionId] } :=
      h.settle (hproper call hholder) rfl h.funded
    exact hsettled.release hholder (AList.lookup_erase _ _)
  | closed hfound hpositions hfund =>
    refine h.settle hfound hpositions ?_
    unfold Funded
    rw [hfund]
    exact h.funded

/-- A section settles and pays once exactly if the call is not too late. -/
theorem Tracked.settlesOnce_iff (h : race.Tracked) (env : Env) (step : SettlementSection) :
    race.SettlesOnce env step ↔ race.Fresh step := by
  constructor
  case mpr =>
    intro hproper
    have hnext := h.next env hproper
    exact ⟨hnext.settledOnce, hnext.contributedOnce⟩
  rintro ⟨hsettled, hcontributed⟩
  have hspec := next_spec env h.funded step
  revert hspec hsettled hcontributed
  generalize race.next env step = race'
  intro hsettled hcontributed hspec
  cases hspec with
  | idle hproper => exact hproper
  | checked => trivial
  | panicked hcall hno =>
    intro _ call hcall' hyes
    -- a payment that panics contributes nothing
    obtain rfl := Option.some.inj (hcall.symm.trans hcall')
    exact absurd (hno.symm.trans hyes) (by decide)
  | @paid _ call _ _ hcall =>
    intro _ call' hcall' _
    cases hcall.symm.trans hcall'
    have hnew : (race.contributed ++ [call.positionId]).Nodup := hcontributed
    -- a second contribution is one of a marked call
    rw [← List.concat_eq_append, List.nodup_concat, h.flagged _ (List.mem_of_getElem? hcall),
      not_or, Bool.not_eq_true] at hnew
    exact hnew.1.1
  | @removed call hholder =>
    intro call' hholder'
    cases hholder.symm.trans hholder'
    have hnew : (race.settled ++ [call.positionId]).Nodup := hsettled
    rw [← List.concat_eq_append, List.nodup_concat] at hnew
    refine Option.isSome_iff_ne_none.mpr fun hnone => hnew.1 (h.heldKnown _ ?_ hnone)
    rw [HeldFor, hholder]
    rfl
  | closed => trivial

/-- On an engine in any state that it comes to, in every order of the sections, each position is
settled and paid for at most once exactly if no call is too late. -/
theorem settled_once_iff (env : Env) (config : DeFiConfig) (calls : List PerpetualCall)
    (sections : List SettlementSection) :
    Always (next env) (SettlesOnce env) (new (calls.foldl (PerpetualEngine.next env) (.new config)))
        sections ↔
      Always (next env) Fresh (new (calls.foldl (PerpetualEngine.next env) (.new config)))
        sections :=
  always_iff (tracked_new (funded_run env config calls)) (fun _ _ h hproper => h.next env hproper)
    fun _ step h => h.settlesOnce_iff env step

/-- Two liquidations of a position have passed the check, and both pay and return. -/
theorem liquidated_twice :
    ¬ Always (next sampleEnv) (SettlesOnce sampleEnv)
      (new (sampleCalls.foldl (PerpetualEngine.next sampleEnv) (.new ⟨500, 28800⟩)))
      [.check sampleDraw.positionId, .check sampleDraw.positionId, .pay 0, .remove, .pay 0,
        .remove] := by
  rintro ⟨_, _, _, _, ⟨_, hcontributed⟩, _⟩
  revert hcontributed
  decide +kernel

end SettlementRace

end InterBit.Defi
