import InterBit.Layer2.OptimisticRollup
import InterBit.Lib.Trace

/-!
# Challenges that race with finalization

`challenge_state_root` checks the status of a batch under a read lock and writes it later, and does
not look again at what is there in between; so does the resolution of the challenge. Here any number
of challenges take their sections in any order, with `finalize_batch` between them.
`terminal_kept_iff`: what is finalized or invalid stays so exactly if no challenge goes on that has
been overtaken, by `finalize_batch` or by another challenge that is verified.
-/

namespace InterBit.Layer2

open InterBit.Lib

/-- How far a challenge has come: it is checked and inserted, its batch is marked as challenged, the
root that the batch should have is computed. -/
inductive ChallengePhase where
  | checked
  | marked
  | computed (correct : H256)

/-- A call of `challenge_state_root` between its sections, and whether its batch has become
finalized or invalid since the check. -/
structure ChallengeCall where
  batchId : H256
  phase : ChallengePhase
  overtaken : Bool

/-- A rollup, the calls that are between their sections, and the batches of the challenges that have
been resolved as verified. -/
structure ChallengeRace where
  rollup : OptimisticRollup
  calls : List ChallengeCall
  verified : List H256

/-- A section of a challenge, or a call of `finalize_batch`. -/
inductive ChallengeSection where
  | check (batchId : H256) (challenger : Address) (proof : FraudProof) (now : Seconds)
  | mark (call : Nat)
  | read (call : Nat)
  | resolve (call : Nat) (now : Seconds)
  | finalize (batchId : H256) (now : Seconds)

/-- The resolution finds that the batch has another root. -/
def OptimisticRollup.disproves (rollup : OptimisticRollup) (batchId correct : H256) : Bool :=
  match rollup.batches.lookup batchId with
  | some batch => correct ≠ batch.stateRoot
  | none => false

/-- A batch is settled when it is finalized or invalid. -/
def Settled (status : Option BatchState) : Prop :=
  status = some .finalized ∨ status = some .invalid

instance (status : Option BatchState) : Decidable (Settled status) :=
  inferInstanceAs (Decidable (_ ∨ _))

theorem not_settled_map (status : Option BatchState) {state : BatchState}
    (h : ¬ Settled (some state)) : ¬ Settled (status.map fun _ => state) := by
  cases status with
  | none => exact fun hsettled => hsettled.elim nofun nofun
  | some _ => exact h

theorem OptimisticRollup.status_setStatus_of_ne (rollup : OptimisticRollup) {batchId id : H256}
    (status : BatchState) (h : id ≠ batchId) :
    (rollup.setStatus batchId status).status id = rollup.status id := by
  rw [status_setStatus, if_neg h]

theorem OptimisticRollup.status_resolve_of_ne (rollup : OptimisticRollup) {batchId id : H256}
    (correct : H256) (now : Seconds) (h : id ≠ batchId) :
    (rollup.resolve batchId correct now).status id = rollup.status id := by
  rw [status_resolve, if_neg h]

/-- A resolution that does not disprove the batch makes it submitted again. -/
theorem OptimisticRollup.status_resolve_self (rollup : OptimisticRollup) (batchId correct : H256)
    (now : Seconds) : (rollup.resolve batchId correct now).status batchId =
      if rollup.disproves batchId correct then some .invalid
      else (rollup.status batchId).map fun _ => .submitted := by
  rw [status_resolve, if_pos rfl]
  unfold disproves status
  cases rollup.batches.lookup batchId with
  | none => rfl
  | some batch =>
    rw [Option.map_some]
    by_cases hroot : correct = batch.stateRoot
    · simp [hroot]
    · simp [hroot]

theorem not_settled_challenged (rollup : OptimisticRollup) (batchId : H256) :
    ¬ Settled ((rollup.setStatus batchId .challenged).status batchId) := by
  rw [OptimisticRollup.status_setStatus, if_pos rfl]
  exact not_settled_map _ (by decide)

theorem not_settled_rejected {rollup : OptimisticRollup} {batchId correct : H256} (now : Seconds)
    (h : rollup.disproves batchId correct = false) :
    ¬ Settled ((rollup.resolve batchId correct now).status batchId) := by
  rw [OptimisticRollup.status_resolve_self, h]
  exact not_settled_map _ (by decide)

namespace ChallengeRace

open OptimisticRollup

/-- Before the first challenge. -/
def new (rollup : OptimisticRollup) : ChallengeRace := ⟨rollup, [], []⟩

/-- The challenges of a batch are overtaken. -/
def overtake (calls : List ChallengeCall) (batchId : H256) : List ChallengeCall :=
  calls.map fun call => if call.batchId = batchId then { call with overtaken := true } else call

/-- One section. -/
def next (env : RollupEnv) (race : ChallengeRace) : ChallengeSection → ChallengeRace
  | .check batchId challenger proof now =>
    match race.rollup.checkChallenge env batchId proof now with
    | .ok () =>
      { race with
        rollup := race.rollup.insertChallenge batchId challenger proof
        calls := race.calls ++ [⟨batchId, .checked, false⟩] }
    | .error _ => race
  | .mark i =>
    match race.calls[i]? with
    -- the status is not looked at again
    | some ⟨batchId, .checked, overtaken⟩ =>
      { race with
        rollup := race.rollup.setStatus batchId .challenged
        calls := race.calls.set i ⟨batchId, .marked, overtaken⟩ }
    | _ => race
  | .read i =>
    match race.calls[i]? with
    | some ⟨batchId, .marked, overtaken⟩ =>
      match race.rollup.correctStateRoot env batchId with
      | .ok correct =>
        { race with calls := race.calls.set i ⟨batchId, .computed correct, overtaken⟩ }
      | .error _ => { race with calls := race.calls.eraseIdx i }
    | _ => race
  | .resolve i now =>
    match race.calls[i]? with
    | some ⟨batchId, .computed correct, _⟩ =>
      if race.rollup.disproves batchId correct then
        ⟨race.rollup.resolve batchId correct now, overtake (race.calls.eraseIdx i) batchId,
          race.verified ++ [batchId]⟩
      else
        ⟨race.rollup.resolve batchId correct now, race.calls.eraseIdx i, race.verified⟩
    | _ => race
  | .finalize batchId now =>
    match race.rollup.finalizeBatch batchId now with
    | (rollup, .ok ()) => { race with rollup, calls := overtake race.calls batchId }
    | (rollup, .error _) => { race with rollup }

/-- The sections of one challenge, one after the other. -/
theorem rollup_alone (env : RollupEnv) (rollup : OptimisticRollup) (batchId : H256)
    (challenger : Address) (proof : FraudProof) (now resolved : Seconds) :
    ([.check batchId challenger proof now, .mark 0, .read 0, .resolve 0 resolved].foldl (next env)
      (new rollup)).rollup
      = (rollup.challengeStateRoot env batchId challenger proof now resolved).1 := by
  unfold challengeStateRoot
  simp only [List.foldl_cons, List.foldl_nil]
  cases hcheck : rollup.checkChallenge env batchId proof now with
  | error error =>
    have hfirst : (new rollup).next env (.check batchId challenger proof now) = new rollup := by
      simp only [next, new, hcheck]
    rw [hfirst]
    rfl
  | ok =>
    -- from the mark on there is one call, at place 0
    let marked := (rollup.insertChallenge batchId challenger proof).setStatus batchId .challenged
    have hmarked : ((new rollup).next env (.check batchId challenger proof now)).next env (.mark 0)
        = ⟨marked, [⟨batchId, .marked, false⟩], []⟩ := by
      simp only [next, new, hcheck]
      rfl
    rw [hmarked]
    show _ = (marked.executeChallengeResolution env batchId resolved).1
    unfold executeChallengeResolution
    cases hcorrect : marked.correctStateRoot env batchId with
    | error error =>
      have hread : next env ⟨marked, [⟨batchId, .marked, false⟩], []⟩ (.read 0)
          = ⟨marked, [], []⟩ := by
        simp only [next, List.getElem?_cons_zero, hcorrect]
        rfl
      rw [hread]
      rfl
    | ok correct =>
      have hread : next env ⟨marked, [⟨batchId, .marked, false⟩], []⟩ (.read 0)
          = ⟨marked, [⟨batchId, .computed correct, false⟩], []⟩ := by
        simp only [next, List.getElem?_cons_zero, hcorrect]
        rfl
      rw [hread]
      simp only [next, List.getElem?_cons_zero]
      split <;> rfl

/-! ## What a section does -/

/-- What is finalized or invalid stays so, and no batch has two challenges that are verified. -/
def TerminalKept (env : RollupEnv) (race : ChallengeRace) (step : ChallengeSection) : Prop :=
  (∀ id, Settled (race.rollup.status id) →
    (race.next env step).rollup.status id = race.rollup.status id) ∧
  (race.next env step).verified.Nodup

/-- A challenge that marks its batch or resolves has not been overtaken. -/
def NotOvertaken (race : ChallengeRace) : ChallengeSection → Prop
  | .check _ _ _ _ => True
  | .mark i => ∀ batchId overtaken, race.calls[i]? = some ⟨batchId, .checked, overtaken⟩ →
    overtaken = false
  | .read _ => True
  | .resolve i _ => ∀ batchId correct overtaken,
    race.calls[i]? = some ⟨batchId, .computed correct, overtaken⟩ → overtaken = false
  | .finalize _ _ => True

/-- What a section can do. -/
inductive Steps (env : RollupEnv) (race : ChallengeRace) : ChallengeSection → ChallengeRace → Prop
  /-- Nothing, since a check fails or there is no such call. -/
  | idle {step : ChallengeSection} : race.NotOvertaken step → Steps env race step race
  /-- A challenge passes the check. -/
  | checked {batchId : H256} {challenger : Address} {proof : FraudProof} {now : Seconds} :
      race.rollup.status batchId = some .submitted →
      Steps env race (.check batchId challenger proof now)
        { race with
          rollup := race.rollup.insertChallenge batchId challenger proof
          calls := race.calls ++ [⟨batchId, .checked, false⟩] }
  /-- A challenge marks its batch. -/
  | marked {i : Nat} {batchId : H256} {overtaken : Bool} :
      race.calls[i]? = some ⟨batchId, .checked, overtaken⟩ →
      Steps env race (.mark i)
        { race with
          rollup := race.rollup.setStatus batchId .challenged
          calls := race.calls.set i ⟨batchId, .marked, overtaken⟩ }
  /-- A challenge computes the root. -/
  | computed {i : Nat} {batchId correct : H256} {overtaken : Bool} :
      race.calls[i]? = some ⟨batchId, .marked, overtaken⟩ →
      Steps env race (.read i)
        { race with calls := race.calls.set i ⟨batchId, .computed correct, overtaken⟩ }
  /-- A challenge fails to compute the root. -/
  | failed {i : Nat} : Steps env race (.read i) { race with calls := race.calls.eraseIdx i }
  /-- A challenge is verified. -/
  | disproved {i : Nat} {now : Seconds} {batchId correct : H256} {overtaken : Bool} :
      race.calls[i]? = some ⟨batchId, .computed correct, overtaken⟩ →
      race.rollup.disproves batchId correct = true →
      Steps env race (.resolve i now)
        ⟨race.rollup.resolve batchId correct now, overtake (race.calls.eraseIdx i) batchId,
          race.verified ++ [batchId]⟩
  /-- A challenge is rejected. -/
  | upheld {i : Nat} {now : Seconds} {batchId correct : H256} {overtaken : Bool} :
      race.calls[i]? = some ⟨batchId, .computed correct, overtaken⟩ →
      race.rollup.disproves batchId correct = false →
      Steps env race (.resolve i now)
        ⟨race.rollup.resolve batchId correct now, race.calls.eraseIdx i, race.verified⟩
  /-- A batch is finalized. -/
  | finalized {batchId : H256} {now : Seconds} :
      race.rollup.status batchId = some .submitted →
      Steps env race (.finalize batchId now)
        { race with
          rollup := race.rollup.setStatus batchId .finalized
          calls := overtake race.calls batchId }

theorem next_spec (env : RollupEnv) (race : ChallengeRace) (step : ChallengeSection) :
    Steps env race step (race.next env step) := by
  cases step with
  | check batchId challenger proof now =>
    unfold next
    dsimp only
    split
    next hcheck =>
      obtain ⟨batch, hlookup, hstatus, _⟩ := checkChallenge_eq_ok.mp hcheck
      exact .checked (Option.map_eq_some_iff.mpr ⟨batch, hlookup, hstatus⟩)
    next => exact .idle trivial
  -- A call that is not checked, or not there, makes nothing of its section.
  | mark i =>
    unfold next
    dsimp only
    split
    next hcall => exact .marked hcall
    next hno => exact .idle fun batchId overtaken hcall => absurd hcall (hno batchId overtaken)
  | read i =>
    unfold next
    dsimp only
    split
    next hcall =>
      split
      next => exact .computed hcall
      next => exact .failed
    next => exact .idle trivial
  | resolve i now =>
    unfold next
    dsimp only
    split
    next hcall =>
      split
      next hyes => exact .disproved hcall hyes
      next hno => exact .upheld hcall (Bool.eq_false_of_not_eq_true hno)
    next hno =>
      exact .idle fun batchId correct overtaken hcall =>
        absurd hcall (hno batchId correct overtaken)
  | finalize batchId now =>
    unfold next
    dsimp only
    -- `finalize_batch` is one section: it does nothing, or finalizes what was submitted.
    rcases finalizeBatch_cases race.rollup batchId now with
      ⟨_, hsame⟩ | ⟨batch, hlookup, hstatus, _, hfinalize⟩
    · rw [hsame]
      exact .idle trivial
    · rw [hfinalize]
      exact .finalized (Option.map_eq_some_iff.mpr ⟨batch, hlookup, hstatus⟩)

/-! ## What holds of the calls -/

/-- A call is overtaken when its batch is settled, and an invalid batch has had its challenge. -/
structure Seen (rollup : OptimisticRollup) (verified : List H256) (call : ChallengeCall) :
    Prop where
  flagged : call.overtaken = true ↔ Settled (rollup.status call.batchId)
  counted : rollup.status call.batchId = some .invalid → call.batchId ∈ verified

/-- The calls are up to date, and so are the challenges that are verified. -/
structure Tracked (race : ChallengeRace) : Prop where
  seen : ∀ call ∈ race.calls, Seen race.rollup race.verified call
  invalid : ∀ id ∈ race.verified, race.rollup.status id = some .invalid
  nodup : race.verified.Nodup

theorem tracked_new (rollup : OptimisticRollup) : (new rollup).Tracked where
  seen := fun _ hmem => nomatch hmem
  invalid := fun _ hmem => nomatch hmem
  nodup := List.nodup_nil

/-- The phase of a call does not matter. -/
theorem Seen.of_eq {rollup : OptimisticRollup} {verified : List H256} {call call' : ChallengeCall}
    (h : Seen rollup verified call) (hid : call'.batchId = call.batchId)
    (hflag : call'.overtaken = call.overtaken) : Seen rollup verified call' := by
  refine ⟨?_, ?_⟩
  · rw [hid, hflag]
    exact h.flagged
  · rw [hid]
    exact h.counted

/-- A call that goes on keeps its batch and its mark. -/
theorem Tracked.set {race : ChallengeRace} (h : race.Tracked) {i : Nat} {call call' : ChallengeCall}
    (hcall : race.calls[i]? = some call) (hid : call'.batchId = call.batchId)
    (hflag : call'.overtaken = call.overtaken) :
    Tracked { race with calls := race.calls.set i call' } where
  seen := by
    intro other hmem
    rcases List.mem_or_eq_of_mem_set hmem with hold | rfl
    · exact h.seen other hold
    · exact (h.seen call (List.mem_of_getElem? hcall)).of_eq hid hflag
  invalid := h.invalid
  nodup := h.nodup

/-- One that ends drops out. -/
theorem Tracked.eraseIdx {race : ChallengeRace} (h : race.Tracked) (i : Nat) :
    Tracked { race with calls := race.calls.eraseIdx i } where
  seen := fun call hmem => h.seen call (List.mem_of_mem_eraseIdx hmem)
  invalid := h.invalid
  nodup := h.nodup

/-- A batch that is not settled gets a status that does not settle it. -/
theorem Tracked.unsettle {race : ChallengeRace} (h : race.Tracked) {rollup : OptimisticRollup}
    {batchId : H256} (hother : ∀ id, id ≠ batchId → rollup.status id = race.rollup.status id)
    (hbefore : ¬ Settled (race.rollup.status batchId))
    (hafter : ¬ Settled (rollup.status batchId)) : Tracked { race with rollup } where
  seen := by
    intro call hmem
    have hseen := h.seen call hmem
    by_cases hid : call.batchId = batchId
    · refine ⟨?_, fun hinvalid => absurd (Or.inr hinvalid) (hid ▸ hafter)⟩
      rw [hseen.flagged, hid]
      exact iff_of_false hbefore hafter
    · refine ⟨?_, ?_⟩
      · rw [hother _ hid]
        exact hseen.flagged
      · rw [hother _ hid]
        exact hseen.counted
  invalid := by
    intro id hmem
    have hinvalid := h.invalid id hmem
    have hne : id ≠ batchId := fun heq => hbefore (Or.inr (heq ▸ hinvalid))
    exact (hother id hne).trans hinvalid
  nodup := h.nodup

/-- A batch that is not settled becomes settled, and the challenges for it are overtaken. -/
theorem Tracked.settle {race : ChallengeRace} (h : race.Tracked) {rollup : OptimisticRollup}
    {batchId : H256} {verified : List H256}
    (hother : ∀ id, id ≠ batchId → rollup.status id = race.rollup.status id)
    (hbefore : ¬ Settled (race.rollup.status batchId)) (hafter : Settled (rollup.status batchId))
    (hkept : ∀ id ∈ race.verified, id ∈ verified) (hnodup : verified.Nodup)
    (hverified : ∀ id ∈ verified,
      id ∈ race.verified ∨ id = batchId ∧ rollup.status id = some .invalid)
    (hcounted : rollup.status batchId = some .invalid → batchId ∈ verified) :
    Tracked ⟨rollup, overtake race.calls batchId, verified⟩ where
  seen := by
    intro call hmem
    obtain ⟨old, hold, rfl⟩ := List.mem_map.mp hmem
    have hseen := h.seen old hold
    split
    next hid =>
      refine ⟨iff_of_true rfl ?_, ?_⟩
      · exact hid ▸ hafter
      · exact hid ▸ hcounted
    next hid =>
      refine ⟨?_, ?_⟩
      · rw [hother _ hid]
        exact hseen.flagged
      · rw [hother _ hid]
        exact fun hinvalid => hkept _ (hseen.counted hinvalid)
  invalid := by
    intro id hmem
    rcases hverified id hmem with hold | ⟨_, hinvalid⟩
    · have hinvalid := h.invalid id hold
      have hne : id ≠ batchId := fun heq => hbefore (Or.inr (heq ▸ hinvalid))
      exact (hother id hne).trans hinvalid
    · exact hinvalid
  nodup := hnodup

/-- The batch of a call that is not overtaken is not settled. -/
theorem Tracked.not_settled {race : ChallengeRace} (h : race.Tracked) {i : Nat}
    {call : ChallengeCall} (hcall : race.calls[i]? = some call) (hfresh : call.overtaken = false) :
    ¬ Settled (race.rollup.status call.batchId) := by
  rw [← (h.seen call (List.mem_of_getElem? hcall)).flagged, hfresh]
  exact Bool.false_ne_true

variable {env : RollupEnv} {race : ChallengeRace} {step : ChallengeSection}

/-- The step lemma: no section follows that was overtaken. -/
theorem Tracked.next (h : race.Tracked) (hproper : race.NotOvertaken step) :
    (race.next env step).Tracked := by
  have hspec := next_spec env race step
  revert hspec
  generalize race.next env step = race'
  intro hspec
  cases hspec with
  | idle => exact h
  | checked hstatus =>
    refine ⟨?_, h.invalid, h.nodup⟩
    intro call hmem
    -- the new call has just seen the batch submitted
    rcases List.mem_append.mp hmem with hold | hnew
    · have hseen := h.seen call hold
      exact ⟨hseen.flagged, hseen.counted⟩
    · rw [List.mem_singleton.mp hnew]
      refine ⟨iff_of_false nofun ?_, fun hinvalid => nomatch hstatus.symm.trans hinvalid⟩
      show ¬ Settled (race.rollup.status _)
      rw [hstatus]
      decide
  | @marked _ batchId _ hcall =>
    -- the call was not overtaken, so the batch is as the call saw it
    have hbefore := h.not_settled hcall (hproper _ _ hcall)
    exact (h.unsettle (fun _ => status_setStatus_of_ne _ _) hbefore
      (not_settled_challenged _ batchId)).set hcall rfl rfl
  | computed hcall => exact h.set hcall rfl rfl
  | failed => exact h.eraseIdx _
  | @disproved i now batchId correct _ hcall hyes =>
    have hbefore := h.not_settled hcall (hproper _ _ _ hcall)
    have hafter : (race.rollup.resolve batchId correct now).status batchId = some .invalid := by
      rw [status_resolve_self, if_pos hyes]
    -- a batch that has been disproved is settled
    have hnew : batchId ∉ race.verified :=
      fun hmem => hbefore (Or.inr (h.invalid batchId hmem))
    refine (h.eraseIdx i).settle (fun _ => status_resolve_of_ne _ _ _) hbefore
      (hafter ▸ Or.inr rfl) ?_ ?_ ?_ ?_
    · exact fun _ => List.mem_append_left _
    · exact List.concat_eq_append ▸ h.nodup.concat hnew
    · intro id hmem
      refine (List.mem_append.mp hmem).imp_right fun hlast => ?_
      obtain rfl := List.mem_singleton.mp hlast
      exact ⟨rfl, hafter⟩
    · exact fun _ => List.mem_append_right _ List.mem_cons_self
  | @upheld i now batchId correct _ hcall hno =>
    have hbefore := h.not_settled hcall (hproper _ _ _ hcall)
    exact (h.unsettle (fun _ => status_resolve_of_ne _ _ _) hbefore
      (not_settled_rejected now hno)).eraseIdx i
  | @finalized batchId _ hstatus =>
    have hafter : (race.rollup.setStatus batchId .finalized).status batchId = some .finalized := by
      rw [status_setStatus, if_pos rfl, hstatus]
      rfl
    refine h.settle (fun _ => status_setStatus_of_ne _ _) (hstatus ▸ by decide)
      (hafter ▸ Or.inl rfl) (fun _ => id) h.nodup (fun _ => Or.inl) fun hinvalid => ?_
    exact nomatch hafter.symm.trans hinvalid

/-- A section changes the status of its own batch only. -/
theorem Tracked.kept (h : race.Tracked) (hproper : race.NotOvertaken step) (id : H256)
    (hid : Settled (race.rollup.status id)) :
    (race.next env step).rollup.status id = race.rollup.status id := by
  have hspec := next_spec env race step
  revert hspec
  generalize race.next env step = race'
  intro hspec
  cases hspec with
  | idle => rfl
  | checked => rfl
  | marked hcall =>
    refine status_setStatus_of_ne _ _ ?_
    rintro rfl
    exact h.not_settled hcall (hproper _ _ hcall) hid
  | computed => rfl
  | failed => rfl
  | disproved hcall =>
    refine status_resolve_of_ne _ _ _ ?_
    rintro rfl
    exact h.not_settled hcall (hproper _ _ _ hcall) hid
  | upheld hcall =>
    refine status_resolve_of_ne _ _ _ ?_
    rintro rfl
    exact h.not_settled hcall (hproper _ _ _ hcall) hid
  | finalized hstatus =>
    refine status_setStatus_of_ne _ _ ?_
    rintro rfl
    rw [hstatus] at hid
    exact absurd hid (by decide)

/-- A call whose batch is not settled has not been overtaken. -/
theorem Tracked.fresh (h : race.Tracked) {i : Nat} {call : ChallengeCall}
    (hcall : race.calls[i]? = some call) (hnot : ¬ Settled (race.rollup.status call.batchId)) :
    call.overtaken = false := by
  rw [← (h.seen call (List.mem_of_getElem? hcall)).flagged] at hnot
  exact Bool.eq_false_of_not_eq_true hnot

/-- A section keeps what is settled exactly if it is not one of a challenge that has been
overtaken. -/
theorem Tracked.terminalKept_iff (h : race.Tracked) :
    TerminalKept env race step ↔ race.NotOvertaken step := by
  refine ⟨?_, fun hproper => ⟨h.kept hproper, (h.next hproper).nodup⟩⟩
  rintro ⟨hkept, hnodup⟩
  have hspec := next_spec env race step
  revert hspec hkept hnodup
  generalize race.next env step = race'
  intro hkept hnodup hspec
  cases hspec with
  | idle hproper => exact hproper
  | checked => trivial
  | @marked _ batchId _ hcall =>
    intro batchId' overtaken' hcall'
    cases hcall.symm.trans hcall'
    refine h.fresh hcall fun hsettled => not_settled_challenged race.rollup batchId ?_
    exact (hkept batchId hsettled).symm ▸ hsettled
  | computed => trivial
  | failed => trivial
  | @disproved i now batchId correct _ hcall hyes =>
    intro batchId' correct' overtaken' hcall'
    cases hcall.symm.trans hcall'
    refine h.fresh hcall fun hsettled => ?_
    have hsame : (race.rollup.resolve batchId correct now).status batchId
        = race.rollup.status batchId := hkept batchId hsettled
    rw [status_resolve_self, if_pos hyes] at hsame
    -- another challenge has been verified
    have hmem := (h.seen _ (List.mem_of_getElem? hcall)).counted hsame.symm
    exact (List.nodup_append.mp hnodup).2.2 _ hmem _ List.mem_cons_self rfl
  | @upheld i now batchId correct _ hcall hno =>
    intro batchId' correct' overtaken' hcall'
    cases hcall.symm.trans hcall'
    refine h.fresh hcall fun hsettled => not_settled_rejected now hno ?_
    exact (hkept batchId hsettled).symm ▸ hsettled
  | finalized => trivial

/-- In every order of the sections, what is finalized or invalid stays so, and no batch has two
verified challenges, exactly if no challenge that has been overtaken marks its batch or resolves. -/
theorem terminal_kept_iff (env : RollupEnv) (rollup : OptimisticRollup)
    (sections : List ChallengeSection) :
    Always (next env) (TerminalKept env) (new rollup) sections ↔
      Always (next env) NotOvertaken (new rollup) sections :=
  always_iff (tracked_new rollup) (fun _ _ h hproper => h.next hproper)
    fun _ _ h => h.terminalKept_iff

/-- A rollup with one batch, which can be challenged until 1200; the batch has been made of the one
transaction that was pending. -/
def sampleRollup : OptimisticRollup :=
  (((OptimisticRollup.new ⟨2, 100, 1000⟩ samplePlainLayer).push sampleTx).createBatch
    sampleRollupEnv sampleClock).1

/-- A proof with an empty trace. -/
def sampleFraudProof : FraudProof where
  batchId := fromLowU64BE 1
  invalidStateRoot := sampleRollup.sequencer.currentStateRoot
  correctStateRoot := sampleRollupEnv.keccak256 []
  executionTrace := []
  witnessData := []

/-- At the deadline the batch can be both challenged and finalized, and then it is marked. -/
theorem finalized_batch_challenged :
    ¬ Always (next sampleRollupEnv) (TerminalKept sampleRollupEnv) (new sampleRollup)
      [.check (fromLowU64BE 1) (Vector.replicate 20 3) sampleFraudProof ⟨1200, by decide⟩,
        .finalize (fromLowU64BE 1) ⟨1200, by decide⟩, .mark 0] := by
  rintro ⟨_, _, ⟨hkept, _⟩, _⟩
  have hsame := hkept (fromLowU64BE 1) (by decide +kernel)
  revert hsame
  decide +kernel

end ChallengeRace

end InterBit.Layer2
