import InterBit.Defi.Types
import InterBit.Lib.Assoc
import InterBit.Lib.Trace

/-!
# Options

`defi/options.rs`: each call of `OptionsProtocol` is one step. The id that is drawn, the readings of
the clock and what the pricing formula comes to are arguments, and a history of what has been done
is added. `told_of_run` says which lives an option can have. The price that all of them rest on is a
product of `u64` that does not fit: with overflow checks it panics, and no option comes into being
(`idle_of_checked`); without them an option is exercised at what is left of the product.
-/

namespace InterBit.Defi

open InterBit.Lib

/-- `enum OptionType`. -/
inductive OptionType where
  | call
  | put
  deriving DecidableEq

/-- `enum OptionStyle`. -/
inductive OptionStyle where
  | european
  | american
  deriving DecidableEq

/-- `struct OptionContract`. -/
structure OptionContract where
  id : H256
  optionType : OptionType
  style : OptionStyle
  underlying : H256
  strikePrice : U256
  expiry : U64
  amount : U256
  writer : Address
  holder : Option Address
  premium : U256
  collateral : U256
  isExercised : Bool
  isExpired : Bool
  deriving DecidableEq

/-- `struct ExerciseResult`. -/
structure ExerciseResult where
  optionId : H256
  payout : U256
  collateralReturned : U256
  deriving DecidableEq

/-- `struct OptionsProtocol`, without the pricing engine. -/
structure OptionsProtocol where
  options : AList fun _ : H256 => OptionContract

/-- What a writer asks for. -/
structure OptionTerms where
  writer : Address
  optionType : OptionType
  underlying : H256
  strikePrice : U256
  expiry : U64
  amount : U256
  deriving DecidableEq

/-- What an option is created with: its id, two readings of the clock, and what the pricing formula
comes to for one unit. -/
structure OptionDraw where
  optionId : H256
  now : Seconds
  later : Seconds
  premiumPerUnit : U128

/-- `10u64.pow(18)`. -/
def oneToken : U64 := 1000000000000000000

/-- `get_spot_price`, which multiplies before it widens; `none` is a panic. -/
def getSpotPrice (env : Env) : Option U256 :=
  (env.mul64 2000 oneToken).map fun price => price.setWidth 256

/-- `calculate_premium`; `none` is a panic. -/
def calculatePremium (env : Env) (terms : OptionTerms) (draw : OptionDraw) : Option U256 := do
  let spotPrice ← getSpotPrice env
  -- the clock is read again after `create_option` has checked the expiry
  let _timeToExpiry ← env.sub64 terms.expiry draw.later.val
  let _spot ← asU128 spotPrice
  let _strike ← asU128 terms.strikePrice
  mulDivU256 (draw.premiumPerUnit.setWidth 256) terms.amount (oneToken.setWidth 256)

/-- The collateral of an option; `none` is a panic. -/
def optionCollateral (terms : OptionTerms) : Option U256 :=
  match terms.optionType with
  | .call => some terms.amount
  | .put => mulDivU256 terms.strikePrice terms.amount (oneToken.setWidth 256)

/-- The option that `create_option` makes; `none` is a panic. -/
def newOption (env : Env) (terms : OptionTerms) (draw : OptionDraw) : Option OptionContract := do
  let premium ← calculatePremium env terms draw
  let collateral ← optionCollateral terms
  return {
    id := draw.optionId
    optionType := terms.optionType
    style := .european
    underlying := terms.underlying
    strikePrice := terms.strikePrice
    expiry := terms.expiry
    amount := terms.amount
    writer := terms.writer
    holder := none
    premium
    collateral
    isExercised := false
    isExpired := false }

/-- Whether one price is above the other, and what the difference is worth on an amount; `none` is a
panic. -/
def gainOn (amount high low : U256) : Option (Bool × U256) :=
  if low < high then do
    let gain ← subU256 high low
    let payout ← mulDivU256 gain amount (oneToken.setWidth 256)
    return (true, payout)
  else some (false, 0)

/-- Whether it is profitable to exercise an option, and its payout; `none` is a panic. -/
def OptionContract.payoutAt (option : OptionContract) (currentPrice : U256) :
    Option (Bool × U256) :=
  match option.optionType with
  | .call => gainOn option.amount currentPrice option.strikePrice
  | .put => gainOn option.amount option.strikePrice currentPrice

namespace OptionsProtocol

/-- `OptionsProtocol::new`. -/
def new : OptionsProtocol := ⟨∅⟩

/-- An option is replaced. -/
def setOption (protocol : OptionsProtocol) (optionId : H256) (option : OptionContract) :
    OptionsProtocol :=
  ⟨protocol.options.insert optionId option⟩

/-- `create_option`. -/
def createOption (env : Env) (protocol : OptionsProtocol) (terms : OptionTerms)
    (draw : OptionDraw) : OptionsProtocol × Outcome H256 :=
  if terms.expiry ≤ draw.now.val then (protocol, some (.error .invalidExpiry))
  else
    match newOption env terms draw with
    | none => (protocol, none)
    | some option => (protocol.setOption draw.optionId option, some (.ok draw.optionId))

/-- `buy_option`. -/
def buyOption (protocol : OptionsProtocol) (buyer : Address) (optionId : H256) :
    OptionsProtocol × Outcome U256 :=
  match protocol.options.lookup optionId with
  | none => (protocol, some (.error .positionNotFound))
  | some option =>
    if option.holder.isSome then (protocol, some (.error .unauthorized))
    else
      (protocol.setOption optionId { option with holder := some buyer },
        some (.ok option.premium))

/-- `exercise_option`. -/
def exerciseOption (env : Env) (protocol : OptionsProtocol) (holder : Address) (optionId : H256)
    (now : Seconds) : OptionsProtocol × Outcome ExerciseResult :=
  match protocol.options.lookup optionId with
  | none => (protocol, some (.error .positionNotFound))
  | some option =>
    if option.holder ≠ some holder then (protocol, some (.error .unauthorized))
    else if option.isExercised || option.isExpired then
      (protocol, some (.error .invalidExpiry))
    else if option.expiry < now.val then
      -- the call fails, and what it has found out stays
      (protocol.setOption optionId { option with isExpired := true },
        some (.error .invalidExpiry))
    else
      match (getSpotPrice env).bind option.payoutAt with
      | none => (protocol, none)
      | some (false, _) => (protocol, some (.error .positionHealthy))
      | some (true, payout) =>
        (protocol.setOption optionId { option with isExercised := true },
          some (.ok ⟨optionId, payout, saturatingSub option.collateral payout⟩))

end OptionsProtocol

/-- A call of the protocol. -/
inductive OptionCall where
  | create (terms : OptionTerms) (draw : OptionDraw)
  | buy (buyer : Address) (optionId : H256)
  | exercise (holder : Address) (optionId : H256) (now : Seconds)

/-- What has been done with an option. -/
inductive OptionEvent where
  | created (option : OptionContract)
  | bought (buyer : Address) (optionId : H256) (premium : U256)
  | exercised (holder : Address) (now : Seconds) (result : ExerciseResult)
  deriving DecidableEq

/-- The option that it has been done with. -/
def OptionEvent.optionId : OptionEvent → H256
  | .created option => option.id
  | .bought _ optionId _ => optionId
  | .exercised _ _ result => result.optionId

/-- The protocol, and what has been done so far. -/
structure OptionSession where
  protocol : OptionsProtocol
  events : List OptionEvent

namespace OptionSession

/-- A new protocol. -/
def start : OptionSession := ⟨.new, []⟩

/-- The session after a call. -/
def next (env : Env) (session : OptionSession) : OptionCall → OptionSession
  | .create terms draw =>
    match session.protocol.createOption env terms draw with
    | (protocol, some (.ok optionId)) =>
      ⟨protocol, session.events ++ (protocol.options.lookup optionId).toList.map .created⟩
    | (protocol, _) => ⟨protocol, session.events⟩
  | .buy buyer optionId =>
    match session.protocol.buyOption buyer optionId with
    | (protocol, some (.ok premium)) =>
      ⟨protocol, session.events ++ [.bought buyer optionId premium]⟩
    | (protocol, _) => ⟨protocol, session.events⟩
  | .exercise holder optionId now =>
    match session.protocol.exerciseOption env holder optionId now with
    | (protocol, some (.ok result)) =>
      ⟨protocol, session.events ++ [.exercised holder now result]⟩
    | (protocol, _) => ⟨protocol, session.events⟩

/-- The id that is drawn for an option is a new one. -/
def Fresh (session : OptionSession) : OptionCall → Prop
  | .create _ draw => session.protocol.options.lookup draw.optionId = none
  | _ => True

/-- What has been done with one option. -/
def about (session : OptionSession) (optionId : H256) : List OptionEvent :=
  session.events.filter fun event => event.optionId = optionId

end OptionSession

/-! ## The price -/

/-- What `u64` leaves of two thousand tokens. -/
def wrappedPrice : Nat := 2000 * 10 ^ 18 % 2 ^ 64

theorem getSpotPrice_eq (env : Env) :
    getSpotPrice env =
      if env.overflowChecks then none else some (BitVec.ofNat 256 wrappedPrice) := by
  unfold getSpotPrice Build.mul64
  cases env.overflowChecks with
  | true => rfl
  | false => rfl

/-- There is a price only where the product wraps around. -/
theorem getSpotPrice_eq_some {env : Env} {price : U256} (h : getSpotPrice env = some price) :
    env.overflowChecks = false ∧ price.toNat = wrappedPrice := by
  rw [getSpotPrice_eq] at h
  split at h
  next => cases h
  next hunchecked =>
    obtain rfl := Option.some.inj h
    exact ⟨Bool.eq_false_of_not_eq_true hunchecked, rfl⟩

theorem gainOn_eq_some {amount high low payout : U256}
    (h : gainOn amount high low = some (true, payout)) :
    low.toNat < high.toNat ∧
      payout.toNat = (high.toNat - low.toNat) * amount.toNat / 10 ^ 18 := by
  unfold gainOn at h
  split at h
  next hlt =>
    obtain ⟨gain, hgain, hrest⟩ := Option.bind_eq_some_iff.mp h
    obtain ⟨payout', hpayout, heq⟩ := Option.bind_eq_some_iff.mp hrest
    obtain rfl : payout' = payout := by
      injection heq with heq
      injection heq
    have hdifference : gain.toNat = high.toNat - low.toNat :=
      Nat.eq_sub_of_add_eq (subU256_eq.mp hgain)
    refine ⟨BitVec.lt_def.mp hlt, ?_⟩
    rw [(mulDivU256_eq.mp hpayout).2, hdifference]
    rfl
  next => cases h

/-! ## What an option pays -/

/-- An option as it is created. -/
structure Written (env : Env) (optionId : H256) (option : OptionContract) : Prop where
  unchecked : env.overflowChecks = false
  id : option.id = optionId
  holder : option.holder = none
  isExercised : option.isExercised = false
  isExpired : option.isExpired = false
  collateral : option.collateral.toNat =
    match option.optionType with
    | .call => option.amount.toNat
    | .put => option.strikePrice.toNat * option.amount.toNat / 10 ^ 18

/-- A new option has the terms and the draw it was made from. -/
theorem written_newOption {env : Env} {terms : OptionTerms} {draw : OptionDraw}
    {option : OptionContract} (h : newOption env terms draw = some option) :
    Written env draw.optionId option := by
  obtain ⟨premium, hpremium, hrest⟩ := Option.bind_eq_some_iff.mp h
  obtain ⟨collateral, hcollateral, heq⟩ := Option.bind_eq_some_iff.mp hrest
  obtain ⟨spotPrice, hprice, -⟩ := Option.bind_eq_some_iff.mp hpremium
  obtain rfl := Option.some.inj heq
  refine ⟨(getSpotPrice_eq_some hprice).1, rfl, rfl, rfl, rfl, ?_⟩
  unfold optionCollateral at hcollateral
  dsimp only
  cases hkind : terms.optionType with
  | call =>
    rw [hkind] at hcollateral
    exact congrArg BitVec.toNat (Option.some.inj hcollateral).symm
  | put =>
    rw [hkind] at hcollateral
    exact (mulDivU256_eq.mp hcollateral).2

/-- What the holder is paid, and what the writer gets back. A put pays out of its collateral; a call
may pay more than it has. -/
def Pays (option : OptionContract) (result : ExerciseResult) : Prop :=
  match option.optionType with
  | .call =>
    option.strikePrice.toNat < wrappedPrice ∧
      result.payout.toNat =
        (wrappedPrice - option.strikePrice.toNat) * option.amount.toNat / 10 ^ 18 ∧
      result.collateralReturned.toNat = option.amount.toNat - result.payout.toNat
  | .put =>
    wrappedPrice < option.strikePrice.toNat ∧
      result.payout.toNat =
        (option.strikePrice.toNat - wrappedPrice) * option.amount.toNat / 10 ^ 18 ∧
      result.payout.toNat + result.collateralReturned.toNat =
        option.strikePrice.toNat * option.amount.toNat / 10 ^ 18

/-- What is paid is what the terms promise at the wrapped price. -/
theorem pays_of_payoutAt {env : Env} {optionId : H256} {option : OptionContract}
    {price payout : U256} (h : Written env optionId option) (hprice : price.toNat = wrappedPrice)
    (hpayout : option.payoutAt price = some (true, payout)) :
    Pays option ⟨optionId, payout, saturatingSub option.collateral payout⟩ := by
  have hcollateral := h.collateral
  unfold OptionContract.payoutAt at hpayout
  unfold Pays
  cases hkind : option.optionType with
  | call =>
    rw [hkind] at hpayout hcollateral
    obtain ⟨hlt, hgain⟩ := gainOn_eq_some hpayout
    rw [hprice] at hlt hgain
    refine ⟨hlt, hgain, ?_⟩
    rw [toNat_saturatingSub, hcollateral]
  | put =>
    rw [hkind] at hpayout hcollateral
    obtain ⟨hlt, hgain⟩ := gainOn_eq_some hpayout
    rw [hprice] at hlt hgain
    have hcovered : payout.toNat ≤ option.collateral.toNat := by
      rw [hgain, hcollateral]
      exact Nat.div_le_div_right (Nat.mul_le_mul_right _ (Nat.sub_le ..))
    refine ⟨hlt, hgain, ?_⟩
    rw [toNat_saturatingSub, Nat.add_sub_cancel' hcovered, hcollateral]

/-! ## The life of an option -/

/-- What is stored of an option, and what has been done with it: it is created, bought once for the
premium, and exercised once by its buyer, not later than its expiry. Only an option that is bought
and not exercised expires. -/
inductive Standing (env : Env) (optionId : H256) : OptionContract → List OptionEvent → Prop
  | created {option : OptionContract} (written : Written env optionId option) :
    Standing env optionId option [.created option]
  | bought {option : OptionContract} (written : Written env optionId option) (isExpired : Bool)
      (buyer : Address) :
    Standing env optionId { option with holder := some buyer, isExpired }
      [.created option, .bought buyer optionId option.premium]
  | exercised {option : OptionContract} (written : Written env optionId option) (buyer : Address)
      {now : Seconds} (intime : now.val ≤ option.expiry) {result : ExerciseResult}
      (named : result.optionId = optionId) (pays : Pays option result) :
    Standing env optionId
      { option with holder := some buyer, isExercised := true, isExpired := false }
      [.created option, .bought buyer optionId option.premium, .exercised buyer now result]

namespace OptionSession

variable {env : Env} {session : OptionSession}

/-- What a call may do. -/
inductive Moves (env : Env) (session : OptionSession) : OptionCall → OptionSession → Prop
  | refused (call : OptionCall) : Moves env session call session
  | created {terms : OptionTerms} {draw : OptionDraw} {option : OptionContract}
      (made : newOption env terms draw = some option) :
    Moves env session (.create terms draw)
      ⟨session.protocol.setOption draw.optionId option, session.events ++ [.created option]⟩
  | bought {buyer : Address} {optionId : H256} {option : OptionContract}
      (found : session.protocol.options.lookup optionId = some option)
      (free : option.holder = none) :
    Moves env session (.buy buyer optionId)
      ⟨session.protocol.setOption optionId { option with holder := some buyer },
        session.events ++ [.bought buyer optionId option.premium]⟩
  | expired {holder : Address} {optionId : H256} {now : Seconds} {option : OptionContract}
      (found : session.protocol.options.lookup optionId = some option)
      (held : option.holder = some holder) (first : option.isExercised = false)
      (late : option.expiry < now.val) :
    Moves env session (.exercise holder optionId now)
      ⟨session.protocol.setOption optionId { option with isExpired := true }, session.events⟩
  | exercised {holder : Address} {optionId : H256} {now : Seconds} {option : OptionContract}
      {price payout : U256} (found : session.protocol.options.lookup optionId = some option)
      (held : option.holder = some holder) (first : option.isExercised = false)
      (valid : option.isExpired = false) (intime : now.val ≤ option.expiry)
      (priced : getSpotPrice env = some price)
      (paid : option.payoutAt price = some (true, payout)) :
    Moves env session (.exercise holder optionId now)
      ⟨session.protocol.setOption optionId { option with isExercised := true },
        session.events ++ [.exercised holder now
          ⟨optionId, payout, saturatingSub option.collateral payout⟩]⟩

/-- Creating writes one option or fails. -/
theorem moves_create (terms : OptionTerms) (draw : OptionDraw) :
    Moves env session (.create terms draw) (session.next env (.create terms draw)) := by
  unfold next OptionsProtocol.createOption
  dsimp only
  by_cases hover : terms.expiry ≤ draw.now.val
  · rw [if_pos hover]
    exact .refused _
  · rw [if_neg hover]
    cases hmade : newOption env terms draw with
    | none => exact .refused _
    | some option =>
      dsimp only
      rw [OptionsProtocol.setOption, AList.lookup_insert]
      exact .created hmade

theorem moves_buy (buyer : Address) (optionId : H256) :
    Moves env session (.buy buyer optionId) (session.next env (.buy buyer optionId)) := by
  unfold next OptionsProtocol.buyOption
  dsimp only
  cases hfound : session.protocol.options.lookup optionId with
  | none => exact .refused _
  | some option =>
    dsimp only
    cases hholder : option.holder with
    | none => exact .bought hfound hholder
    | some holder => exact .refused _

/-- Exercising pays the holder once, in time and in the money, or fails. -/
theorem moves_exercise (holder : Address) (optionId : H256) (now : Seconds) :
    Moves env session (.exercise holder optionId now)
      (session.next env (.exercise holder optionId now)) := by
  unfold next OptionsProtocol.exerciseOption
  dsimp only
  cases hfound : session.protocol.options.lookup optionId with
  | none => exact .refused _
  | some option =>
    dsimp only
    by_cases hheld : option.holder = some holder
    · rw [if_neg (not_not.mpr hheld)]
      by_cases hover : option.isExercised || option.isExpired
      · rw [if_pos hover]
        exact .refused _
      · rw [if_neg hover]
        obtain ⟨hfirst, hvalid⟩ : option.isExercised = false ∧ option.isExpired = false := by
          simpa using hover
        by_cases hlate : option.expiry < now.val
        · rw [if_pos hlate]
          exact .expired hfound hheld hfirst hlate
        · rw [if_neg hlate]
          cases hpaid : (getSpotPrice env).bind option.payoutAt with
          | none => exact .refused _
          | some paid =>
            obtain ⟨profitable, payout⟩ := paid
            cases profitable with
            | false => exact .refused _
            | true =>
              obtain ⟨price, hprice, hpayout⟩ := Option.bind_eq_some_iff.mp hpaid
              exact .exercised hfound hheld hfirst hvalid (BitVec.not_lt.mp hlate) hprice hpayout
    · rw [if_pos hheld]
      exact .refused _

/-- One lemma for all three calls. -/
theorem moves_next (call : OptionCall) : Moves env session call (session.next env call) := by
  cases call with
  | create terms draw => exact moves_create terms draw
  | buy buyer optionId => exact moves_buy buyer optionId
  | exercise holder optionId now => exact moves_exercise holder optionId now

/-! ## Runs -/

/-- What is stored, and what has been done. -/
structure Told (env : Env) (session : OptionSession) : Prop where
  unknown : ∀ optionId, session.protocol.options.lookup optionId = none →
    session.about optionId = []
  known : ∀ optionId option, session.protocol.options.lookup optionId = some option →
    Standing env optionId option (session.about optionId)

/-- What happens to one option leaves the others as they are. -/
theorem Told.set (h : Told env session) {optionId : H256} {option : OptionContract}
    (happened : List OptionEvent) (hnamed : ∀ event ∈ happened, event.optionId = optionId)
    (hstanding : Standing env optionId option (session.about optionId ++ happened)) :
    Told env ⟨session.protocol.setOption optionId option, session.events ++ happened⟩ := by
  have hown : about ⟨session.protocol.setOption optionId option, session.events ++ happened⟩
      optionId = session.about optionId ++ happened := by
    unfold about
    rw [List.filter_append, List.filter_eq_self.mpr fun event hmem =>
      decide_eq_true (hnamed event hmem)]
  have hother : ∀ other, other ≠ optionId →
      about ⟨session.protocol.setOption optionId option, session.events ++ happened⟩ other =
        session.about other := by
    intro other hne
    have hnothing : happened.filter (fun event => event.optionId = other) = [] := by
      refine List.filter_eq_nil_iff.mpr fun event hmem hsame => ?_
      exact hne ((of_decide_eq_true hsame).symm.trans (hnamed event hmem))
    unfold about
    rw [List.filter_append, hnothing, List.append_nil]
  constructor
  · intro other hlookup
    by_cases heq : other = optionId
    · rw [heq, OptionsProtocol.setOption, AList.lookup_insert] at hlookup
      cases hlookup
    · rw [hother other heq]
      exact h.unknown other ((AList.lookup_insert_ne heq).symm.trans hlookup)
  · intro other stored hlookup
    rcases lookup_insert_eq_some.mp hlookup with ⟨rfl, rfl⟩ | ⟨hne, hold⟩
    · rwa [hown]
    · rw [hother other hne]
      exact h.known other stored hold

/-- The step lemma: an option's story goes on from where it stands. -/
theorem Told.next (h : Told env session) {call : OptionCall} (hfresh : session.Fresh call) :
    Told env (session.next env call) := by
  have hmoves : Moves env session call (session.next env call) := moves_next call
  generalize session.next env call = after at hmoves
  cases hmoves with
  | refused => exact h
  | created hmade =>
    have hwritten := written_newOption hmade
    refine h.set _ (fun event hmem => List.mem_singleton.mp hmem ▸ hwritten.id) ?_
    rw [h.unknown _ hfresh]
    exact .created hwritten
  | bought hfound hfree =>
    refine h.set _ (fun event hmem => List.mem_singleton.mp hmem ▸ rfl) ?_
    have hstanding := h.known _ _ hfound
    generalize session.about _ = past at hstanding
    cases hstanding with
    | created hwritten => exact .bought hwritten _ _
    -- who has bought the option holds it from then on
    | bought => cases hfree
    | exercised => cases hfree
  | expired hfound hheld hfirst hlate =>
    rw [← List.append_nil session.events]
    refine h.set [] (fun event hmem => absurd hmem List.not_mem_nil) ?_
    rw [List.append_nil]
    have hstanding := h.known _ _ hfound
    generalize session.about _ = past at hstanding
    cases hstanding with
    -- nobody holds an option that is only created
    | created hwritten => cases hwritten.holder.symm.trans hheld
    | bought hwritten => exact .bought hwritten true _
    | exercised => cases hfirst
  | exercised hfound hheld hfirst hvalid hintime hpriced hpaid =>
    refine h.set _ (fun event hmem => List.mem_singleton.mp hmem ▸ rfl) ?_
    have hstanding := h.known _ _ hfound
    generalize session.about _ = past at hstanding
    cases hstanding with
    | created hwritten => cases hwritten.holder.symm.trans hheld
    | bought hwritten isExpired buyer =>
      obtain rfl := Option.some.inj hheld
      obtain rfl : isExpired = false := hvalid
      exact .exercised hwritten _ hintime rfl
        (pays_of_payoutAt hwritten (getSpotPrice_eq_some hpriced).2 hpaid)
    | exercised => cases hfirst

theorem told_start (env : Env) : Told env start where
  unknown _ _ := rfl
  known _ _ hlookup := by cases hlookup

/-- In every run, what is stored of an option and what has been done with it are the life of an
option so far. -/
theorem told_of_run (env : Env) (calls : List OptionCall)
    (hfresh : Always (OptionSession.next env) Fresh start calls) :
    Told env (calls.foldl (OptionSession.next env) start) :=
  hfresh.invariant (told_start env) fun _ _ h hfresh => h.next hfresh

/-! ## Builds with overflow checks -/

/-- There every creation panics, unless the expiry is over. -/
theorem createOption_checked (hchecked : env.overflowChecks = true) (protocol : OptionsProtocol)
    (terms : OptionTerms) (draw : OptionDraw) :
    protocol.createOption env terms draw =
      (protocol,
        if terms.expiry ≤ draw.now.val then some (.error .invalidExpiry) else none) := by
  have hnone : newOption env terms draw = none := by
    rw [newOption, calculatePremium, getSpotPrice_eq, if_pos hchecked]
    rfl
  unfold OptionsProtocol.createOption
  by_cases hover : terms.expiry ≤ draw.now.val
  · rw [if_pos hover, if_pos hover]
  · rw [if_neg hover, if_neg hover, hnone]

theorem next_start (hchecked : env.overflowChecks = true) (call : OptionCall) :
    start.next env call = start := by
  cases call with
  | create terms draw =>
    unfold next
    dsimp only
    rw [createOption_checked hchecked]
    by_cases hover : terms.expiry ≤ draw.now.val
    · rw [if_pos hover]
    · rw [if_neg hover]
  | buy buyer optionId => rfl
  | exercise holder optionId now => rfl

/-- In every run the protocol stays as it is when it is new, and creates nothing. -/
theorem idle_of_checked (hchecked : env.overflowChecks = true) (calls : List OptionCall) :
    calls.foldl (OptionSession.next env) start = start ∧
      ∀ terms draw, (start.protocol.createOption env terms draw).2 =
        if terms.expiry ≤ draw.now.val then some (.error .invalidExpiry) else none := by
  refine ⟨?_, fun terms draw => by rw [createOption_checked hchecked]⟩
  induction calls with
  | nil => rfl
  | cons call calls ih => rw [List.foldl_cons, next_start hchecked, ih]

/-- A put at eight tokens. -/
def sampleTerms : OptionTerms :=
  ⟨Vector.replicate 20 1, .put, Vector.replicate 32 0, 8000000000000000000, 100,
    1000000000000000000⟩

def sampleDraw : OptionDraw := ⟨Vector.replicate 32 7, .ofNat 0, .ofNat 0, 300000000000000000⟩

/-- It is created, bought and exercised. -/
def sampleCalls : List OptionCall :=
  [.create sampleTerms sampleDraw, .buy (Vector.replicate 20 2) sampleDraw.optionId,
    .exercise (Vector.replicate 20 2) sampleDraw.optionId (.ofNat 50)]

def sampleEnv (overflowChecks : Bool) : Env where
  overflowChecks
  sha256 _ := Vector.replicate 32 0

theorem told_of_run_sample :
    ((sampleCalls.foldl (OptionSession.next (sampleEnv false)) start).about
        sampleDraw.optionId).getLast? =
      some (.exercised (Vector.replicate 20 2) (.ofNat 50)
        ⟨sampleDraw.optionId, 248359960631574528, 7751640039368425472⟩) ∧
      Told (sampleEnv false) (sampleCalls.foldl (OptionSession.next (sampleEnv false)) start) :=
  ⟨by decide +kernel, told_of_run _ _ ⟨rfl, trivial, trivial, trivial⟩⟩

theorem idle_of_checked_sample :
    (sampleCalls.foldl (OptionSession.next (sampleEnv true)) start).events = [] ∧
      (start.protocol.createOption (sampleEnv true) sampleTerms sampleDraw).2 = none := by
  have hidle := @idle_of_checked (sampleEnv true) rfl sampleCalls
  exact ⟨congrArg OptionSession.events hidle.1, (hidle.2 sampleTerms sampleDraw).trans rfl⟩

end OptionSession

end InterBit.Defi
