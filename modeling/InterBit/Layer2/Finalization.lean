import InterBit.Layer2.OptimisticRollup
import InterBit.Lib.Assoc
import InterBit.Lib.Trace

/-!
# Finalization in order

`finalize_batch` looks at the status and at the deadline of its own batch only. No batch with an
invalid ancestor is finalized, since a challenge recomputes the root that the batch has been created
with, and so never makes a batch invalid. But the earlier batches are not looked at. They are
finalized first exactly if each call that gets through finds the batch just before finalized:
`finalized_in_order_iff`.
-/

namespace InterBit.Layer2

open InterBit.Lib

/-- If a property passes from each element to those before it, it is enough to know it of the
element just before. -/
theorem forall_earlier {α : Type} {q : α → Prop} {l : List α} {x : α}
    (hordered : l.Pairwise fun a b => q b → q a) (hprevious : ∀ a, [a, x] <:+: l → q a) :
    ∀ a, [a, x].Sublist l → q a := by
  intro a hsub
  obtain ⟨before, rest, rfl, ha, hx⟩ :=
    List.append_sublist_iff.mp (show ([a] ++ [x]).Sublist l from hsub)
  obtain ⟨between, after, rfl⟩ := List.append_of_mem (List.singleton_sublist.mp hx)
  rw [← List.append_assoc] at hordered hprevious
  have hmem : a ∈ before ++ between := List.mem_append_left _ (List.singleton_sublist.mp ha)
  rcases List.eq_nil_or_concat (before ++ between) with hnil | ⟨front, last, hlast⟩
  · rw [hnil] at hmem
    cases hmem
  · rw [hlast, List.concat_eq_append] at hordered hprevious hmem
    have hq : q last := hprevious last ⟨front, after, by simp⟩
    -- from the element just before, the property goes on to those before it
    rcases List.mem_append.mp hmem with hfront | hsame
    · rw [List.append_assoc] at hordered
      exact (List.pairwise_append.mp hordered).2.2 a hfront last List.mem_cons_self hq
    · rw [List.mem_singleton.mp hsame]
      exact hq

namespace OptimisticRollup

/-- The batch is there, and finalized. -/
def Finalized (rollup : OptimisticRollup) (id : H256) : Prop := rollup.status id = some .finalized

theorem finalized_congr {rollup rollup' : OptimisticRollup} {id : H256}
    (h : rollup'.batches.lookup id = rollup.batches.lookup id) :
    rollup'.Finalized id ↔ rollup.Finalized id := by
  unfold Finalized status
  rw [h]

/-- A new batch is not finalized. -/
theorem finalized_insertBatch {rollup : OptimisticRollup} {batch : Batch}
    (h : batch.status = .submitted) (id : H256) :
    (rollup.insertBatch batch).Finalized id ↔ id ≠ batch.id ∧ rollup.Finalized id := by
  by_cases hid : id = batch.id
  · rw [hid]
    refine iff_of_false (fun hfinal => ?_) fun hne => hne.1 rfl
    obtain ⟨batch', hbatch, hstatus⟩ := Option.map_eq_some_iff.mp hfinal
    obtain rfl := Option.some.inj ((AList.lookup_insert _).symm.trans hbatch)
    rw [h] at hstatus
    cases hstatus
  · rw [and_iff_right hid]
    exact finalized_congr (AList.lookup_insert_ne hid)

/-- The second one is stored, and the first one starts from its root. -/
def Parent (rollup : OptimisticRollup) (batch batch' : Batch) : Prop :=
  (∃ id, rollup.batches.lookup id = some batch') ∧ batch.prevStateRoot = batch'.stateRoot

/-- The chain of the previous roots goes through an invalid batch. -/
def Tainted (rollup : OptimisticRollup) (batch : Batch) : Prop :=
  ∃ ancestor, Relation.TransGen rollup.Parent batch ancestor ∧ ancestor.status = .invalid

end OptimisticRollup

/-! ## Runs -/

/-- A call. -/
inductive HistoryCall where
  | submit (tx : Transaction) (clock : BatchClock)
  | create (clock : BatchClock)
  | challenge (batchId : H256) (challenger : Address) (proof : FraudProof) (now resolved : Seconds)
  | finalize (batchId : H256) (now : Seconds)

/-- A rollup, and the ids of its batches in the order in which they have been created. -/
structure RollupHistory where
  rollup : OptimisticRollup
  order : List H256

namespace RollupHistory

open OptimisticRollup

/-- A new rollup. -/
def new (config : Layer2Config) (daLayer : DataAvailabilityLayer) : RollupHistory :=
  ⟨.new config daLayer, []⟩

/-- `create_batch`. A batch takes the place of one with its id. -/
def create (env : RollupEnv) (history : RollupHistory) (clock : BatchClock) : RollupHistory :=
  match history.rollup.createBatch env clock with
  | (rollup, some (.ok id)) => ⟨rollup, history.order.erase id ++ [id]⟩
  | (rollup, some (.error _)) => { history with rollup }
  | (rollup, none) => { history with rollup }

/-- One call. -/
def next (env : RollupEnv) (history : RollupHistory) : HistoryCall → RollupHistory
  | .submit tx clock =>
    if validateTransaction tx then
      if history.rollup.config.batchSize ≤ history.rollup.pendingTransactions.length + 1 then
        create env { history with rollup := history.rollup.push tx } clock
      else { history with rollup := history.rollup.push tx }
    else history
  | .create clock => history.create env clock
  | .challenge batchId challenger proof now resolved =>
    { history with
      rollup := (history.rollup.challengeStateRoot env batchId challenger proof now resolved).1 }
  | .finalize batchId now => { history with rollup := (history.rollup.finalizeBatch batchId now).1 }

theorem rollup_create (env : RollupEnv) (history : RollupHistory) (clock : BatchClock) :
    (history.create env clock).rollup = (history.rollup.createBatch env clock).1 := by
  unfold create
  split <;> next heq => rw [heq]

/-- The rollup goes on as `submit_transaction` says. -/
theorem rollup_next_submit (env : RollupEnv) (history : RollupHistory) (tx : Transaction)
    (clock : BatchClock) : (history.next env (.submit tx clock)).rollup
      = (history.rollup.submitTransaction env tx clock).1 := by
  rw [submitTransaction_fst]
  unfold next
  dsimp only
  split
  next =>
    split
    next => exact rollup_create ..
    next => rfl
  next => rfl

/-- A batch that becomes finalized has only finalized ones before it, and no invalid ancestor. -/
def FinalizesSafely (env : RollupEnv) (history : RollupHistory) (call : HistoryCall) : Prop :=
  ∀ id batch, (history.next env call).rollup.batches.lookup id = some batch →
    batch.status = .finalized → ¬ history.rollup.Finalized id →
    (∀ earlier, [earlier, id].Sublist (history.next env call).order →
      (history.next env call).rollup.Finalized earlier) ∧
    ¬ (history.next env call).rollup.Tainted batch

/-- If `finalize_batch` gets through, the batch just before is finalized. -/
def InOrder (history : RollupHistory) : HistoryCall → Prop
  | .submit _ _ => True
  | .create _ => True
  | .challenge _ _ _ _ _ => True
  | .finalize batchId now => ∀ batch, history.rollup.batches.lookup batchId = some batch →
    batch.status = .submitted → batch.challengeDeadline ≤ now.val →
    ∀ previous, [previous, batchId] <:+: history.order → history.rollup.Finalized previous

/-- Each batch has the root that it should have, and none is finalized after one that is not. -/
structure Sound (env : RollupEnv) (history : RollupHistory) : Prop where
  nodup : history.order.Nodup
  listed : ∀ id, id ∈ history.order ↔ (history.rollup.batches.lookup id).isSome
  rooted : ∀ id batch, history.rollup.batches.lookup id = some batch →
    batch.stateRoot = computeStateRoot env.toKeccakEnv batch.transactions batch.prevStateRoot
  valid : ∀ id batch, history.rollup.batches.lookup id = some batch → batch.status ≠ .invalid
  ordered : history.order.Pairwise fun a b => history.rollup.Finalized b →
    history.rollup.Finalized a

variable {env : RollupEnv} {history : RollupHistory}

theorem sound_new (config : Layer2Config) (daLayer : DataAvailabilityLayer) :
    Sound env (new config daLayer) where
  nodup := List.nodup_nil
  listed := fun _ => iff_of_false nofun nofun
  rooted := fun _ _ => nofun
  valid := fun _ _ => nofun
  ordered := List.Pairwise.nil

theorem Sound.not_tainted (h : Sound env history) (batch : Batch) :
    ¬ history.rollup.Tainted batch := by
  rintro ⟨ancestor, hpath, hinvalid⟩
  obtain ⟨_, _, ⟨id, hlookup⟩, _⟩ := Relation.TransGen.tail'_iff.mp hpath
  exact h.valid id ancestor hlookup hinvalid

/-- Only what is found matters. -/
theorem Sound.of_lookup (h : Sound env history) {rollup : OptimisticRollup}
    (hsame : ∀ id, rollup.batches.lookup id = history.rollup.batches.lookup id) :
    Sound env { history with rollup } where
  nodup := h.nodup
  listed := fun id => hsame id ▸ h.listed id
  rooted := fun id => hsame id ▸ h.rooted id
  valid := fun id => hsame id ▸ h.valid id
  ordered := by
    refine h.ordered.imp fun {a b} himp => ?_
    show rollup.Finalized b → rollup.Finalized a
    rw [finalized_congr (hsame a), finalized_congr (hsame b)]
    exact himp

theorem Sound.create (h : Sound env history) (clock : BatchClock) :
    Sound env (history.create env clock) := by
  have hspec := createBatch_spec env history.rollup clock
  unfold RollupHistory.create
  revert hspec
  generalize history.rollup.createBatch env clock = r
  intro hspec
  cases hspec with
  | empty => exact h.of_lookup fun _ => rfl
  | overflow => exact h.of_lookup fun _ => rfl
  | panicked => exact h.of_lookup fun _ => rfl
  | failed => exact h.of_lookup fun _ => rfl
  | @created batch daLayer _ hsome _ =>
    have hfollows : Follows env history.rollup.sequencer _ batch _ := follows_of_newBatch hsome
    have hlookup : ∀ id batch', (history.rollup.batches.insert batch.id batch).lookup id
          = some batch' ↔
        (id = batch.id ∧ batch = batch') ∨
          id ≠ batch.id ∧ history.rollup.batches.lookup id = some batch' :=
      fun _ _ => lookup_insert_eq_some
    refine ⟨?_, ?_, ?_, ?_, ?_⟩
    · show (history.order.erase batch.id ++ [batch.id]).Nodup
      rw [← List.concat_eq_append]
      exact (h.nodup.erase _).concat h.nodup.not_mem_erase
    · intro id
      rw [List.mem_append, List.mem_singleton, h.nodup.mem_erase_iff]
      show _ ↔ ((history.rollup.batches.insert batch.id batch).lookup id).isSome
      by_cases hid : id = batch.id
      · rw [hid, AList.lookup_insert]
        exact iff_of_true (Or.inr rfl) rfl
      · rw [AList.lookup_insert_ne hid, ← h.listed id, and_iff_right hid, or_iff_left hid]
    · intro id batch' hbatch
      rcases (hlookup id batch').mp hbatch with ⟨_, rfl⟩ | ⟨_, hold⟩
      · exact hfollows.stateRoot_eq
      · exact h.rooted id batch' hold
    · intro id batch' hbatch
      rcases (hlookup id batch').mp hbatch with ⟨_, rfl⟩ | ⟨_, hold⟩
      · rw [hfollows.status_eq]
        nofun
      · exact h.valid id batch' hold
    · -- the new batch is the last one, and is not finalized
      have hfinal : ∀ id,
          (insertBatch { history.rollup.advance env clock with daLayer } batch).Finalized id ↔
            id ≠ batch.id ∧ history.rollup.Finalized id :=
        fun id => finalized_insertBatch hfollows.status_eq id
      refine List.pairwise_append.mpr ⟨?_, List.pairwise_singleton .., ?_⟩
      · refine (h.ordered.sublist List.erase_sublist).imp_of_mem fun {a b} ha _ himp => ?_
        rw [hfinal a, hfinal b]
        exact fun hb => ⟨((h.nodup.mem_erase_iff).mp ha).1, himp hb.2⟩
      · intro a _ b hb
        rw [List.mem_singleton.mp hb, hfinal]
        exact fun hlast => absurd rfl hlast.1

/-- A challenge leaves the batches as they are: the root that it computes is the one it finds. -/
theorem Sound.lookup_challengeStateRoot (h : Sound env history) (batchId : H256)
    (challenger : Address) (proof : FraudProof) (now resolved : Seconds) (id : H256) :
    (history.rollup.challengeStateRoot env batchId challenger proof now
      resolved).1.batches.lookup id = history.rollup.batches.lookup id := by
  unfold challengeStateRoot
  cases hcheck : history.rollup.checkChallenge env batchId proof now with
  | error error => rfl
  | ok =>
    obtain ⟨batch, hlookup, hstatus, _, _⟩ := checkChallenge_eq_ok.mp hcheck
    have hmarked : ∀ id, (((history.rollup.insertChallenge batchId challenger proof).setStatus
          batchId .challenged).batches.lookup id) =
        if id = batchId then some { batch with status := .challenged }
        else history.rollup.batches.lookup id := by
      intro id
      rw [lookup_setStatus]
      show (if id = batchId then (history.rollup.batches.lookup batchId).map _
        else history.rollup.batches.lookup id) = _
      rw [hlookup, Option.map_some]
    -- the witness data is not used, so the root is the one that the batch has
    have hcorrect : correctStateRoot env ((history.rollup.insertChallenge batchId challenger
        proof).setStatus batchId .challenged) batchId = .ok batch.stateRoot := by
      refine correctStateRoot_eq_ok.mpr ⟨?_, _, (hmarked batchId).trans (if_pos rfl), ?_⟩
      · rw [challenges_setStatus]
        exact Option.isSome_iff_exists.mpr ⟨_, AList.lookup_insert _⟩
      · exact (h.rooted batchId batch hlookup).symm
    dsimp only [executeChallengeResolution]
    rw [hcorrect]
    dsimp only
    rw [lookup_resolve, hmarked, hmarked, if_pos rfl, Option.map_some]
    split
    next hid =>
      rw [hid, hlookup, if_neg (not_not_intro rfl), ← hstatus]
    next => rfl

/-- A batch is finalized after those before it. -/
theorem Sound.finalize (h : Sound env history) {batchId : H256} {now : Seconds}
    (hproper : history.InOrder (.finalize batchId now)) :
    Sound env (history.next env (.finalize batchId now)) := by
  show Sound env { history with rollup := (history.rollup.finalizeBatch batchId now).1 }
  rcases finalizeBatch_cases history.rollup batchId now with
    ⟨_, hsame⟩ | ⟨batch, hbatch, hopen, hpast, hfinalize⟩
  · rw [hsame]
    exact h
  -- in order means that every earlier batch is final
  have hearlier := forall_earlier h.ordered (hproper batch hbatch hopen hpast)
  rw [hfinalize]
  have hlookup := lookup_setStatus history.rollup batchId .finalized
  have hfinal : ∀ id, (history.rollup.setStatus batchId .finalized).Finalized id ↔
      id = batchId ∨ history.rollup.Finalized id := by
    intro id
    unfold Finalized
    rw [status_setStatus, OptimisticRollup.status, hbatch]
    by_cases hid : id = batchId <;> simp [hid]
  refine ⟨h.nodup, ?_, ?_, ?_, ?_⟩
  · intro id
    show _ ↔ ((history.rollup.setStatus batchId .finalized).batches.lookup id).isSome
    rw [hlookup, h.listed]
    split
    next hid => rw [hid, Option.isSome_map]
    next => rfl
  · intro id batch' hbatch'
    rw [hlookup] at hbatch'
    split at hbatch'
    next =>
      rw [hbatch] at hbatch'
      cases hbatch'
      exact h.rooted batchId batch hbatch
    next => exact h.rooted id batch' hbatch'
  · intro id batch' hbatch'
    rw [hlookup] at hbatch'
    split at hbatch'
    next =>
      rw [hbatch] at hbatch'
      cases hbatch'
      nofun
    next => exact h.valid id batch' hbatch'
  · refine List.pairwise_iff_forall_sublist.mpr fun {a b} hsub => ?_
    show (history.rollup.setStatus batchId .finalized).Finalized b →
      (history.rollup.setStatus batchId .finalized).Finalized a
    rw [hfinal, hfinal]
    -- a batch before the new one, or before one that was final
    rintro (rfl | hb)
    · exact Or.inr (hearlier a hsub)
    · exact Or.inr (List.pairwise_iff_forall_sublist.mp h.ordered hsub hb)

theorem Sound.next (h : Sound env history) {call : HistoryCall} (hproper : history.InOrder call) :
    Sound env (history.next env call) := by
  cases call with
  | submit tx clock =>
    have hpush : Sound env { history with rollup := history.rollup.push tx } :=
      h.of_lookup fun _ => rfl
    unfold RollupHistory.next
    dsimp only
    split
    next =>
      split
      next => exact hpush.create clock
      next => exact hpush
    next => exact h
  | create clock => exact h.create clock
  | challenge batchId challenger proof now resolved =>
    exact h.of_lookup (h.lookup_challengeStateRoot batchId challenger proof now resolved)
  | finalize batchId now => exact h.finalize hproper

/-- A call is safe exactly if it is in order. -/
theorem Sound.finalizesSafely_iff (h : Sound env history) (call : HistoryCall) :
    FinalizesSafely env history call ↔ history.InOrder call := by
  constructor
  · intro hsafe
    cases call with
    | submit => trivial
    | create => trivial
    | challenge => trivial
    | finalize batchId now =>
      intro batch hbatch hopen hpast previous hinfix
      have hnext : (history.next env (.finalize batchId now)).rollup
          = history.rollup.setStatus batchId .finalized :=
        congrArg Prod.fst (finalizeBatch_of_submitted hbatch hopen hpast)
      have hlookup : (history.next env (.finalize batchId now)).rollup.batches.lookup batchId
          = some { batch with status := .finalized } := by
        rw [hnext, lookup_setStatus, if_pos rfl, hbatch]
        rfl
      have hnot : ¬ history.rollup.Finalized batchId := by
        unfold Finalized OptimisticRollup.status
        rw [hbatch, Option.map_some, hopen]
        nofun
      have hprevious := (hsafe batchId _ hlookup rfl hnot).1 previous hinfix.sublist
      -- the batch before is another one, and the call does not touch it
      have hne : previous ≠ batchId := by
        have hnodup := hinfix.sublist.nodup h.nodup
        simpa using hnodup
      rw [Finalized, hnext, status_setStatus, if_neg hne] at hprevious
      exact hprevious
  · intro hproper id batch hlookup hstatus _
    have hnext := h.next hproper
    have hfinal : (history.next env call).rollup.Finalized id :=
      Option.map_eq_some_iff.mpr ⟨batch, hlookup, hstatus⟩
    exact ⟨fun _ hsub => List.pairwise_iff_forall_sublist.mp hnext.ordered hsub hfinal,
      hnext.not_tainted batch⟩

/-- Along a run, batches are finalized after those before them exactly if the calls of
`finalize_batch` that get through come in order. -/
theorem finalized_in_order_iff (env : RollupEnv) (config : Layer2Config)
    (daLayer : DataAvailabilityLayer) (calls : List HistoryCall) :
    Always (next env) (FinalizesSafely env) (new config daLayer) calls ↔
      Always (next env) InOrder (new config daLayer) calls :=
  always_iff (sound_new config daLayer) (fun _ _ h hproper => h.next hproper)
    fun _ call h => h.finalizesSafely_iff call

/-- Two batches, each made of the one transaction that is pending; a batch is full with two. -/
def twoBatches : List HistoryCall :=
  [.submit sampleTx sampleClock, .create sampleClock, .submit sampleTx sampleClock,
    .create sampleClock]

/-- The second batch is finalized before the first one. -/
theorem second_finalized_first :
    ¬ Always (next sampleRollupEnv) (FinalizesSafely sampleRollupEnv)
      (new ⟨2, 100, 1000⟩ samplePlainLayer)
      (twoBatches ++ [.finalize (fromLowU64BE 2) ⟨1200, by decide⟩]) := by
  rintro ⟨_, _, _, _, hsafe, _⟩
  let history := twoBatches.foldl (next sampleRollupEnv) (new ⟨2, 100, 1000⟩ samplePlainLayer)
  let history' := history.next sampleRollupEnv (.finalize (fromLowU64BE 2) ⟨1200, by decide⟩)
  have hfinal : history'.rollup.status (fromLowU64BE 2) = some .finalized := by decide +kernel
  have hbefore : history.rollup.status (fromLowU64BE 2) ≠ some .finalized := by decide +kernel
  have hfirst : history'.rollup.status (fromLowU64BE 1) ≠ some .finalized := by decide +kernel
  obtain ⟨batch, hlookup, hstatus⟩ := Option.map_eq_some_iff.mp hfinal
  exact hfirst ((hsafe (fromLowU64BE 2) batch hlookup hstatus hbefore).1 (fromLowU64BE 1)
    (by decide +kernel))

end RollupHistory

end InterBit.Layer2
