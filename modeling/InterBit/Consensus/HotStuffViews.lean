import InterBit.Consensus.HotStuffTurns

/-!
# Views that go back

The view of a node and the view of its `highest_qc` should only go up. `handle_vote` writes
both with what it finds in the vote, whether that is new or not: a quorum for an old view,
or one more vote for a quorum of long ago, takes them back. The timer writes the view that
it has read plus one, whatever has been written in between. `Forward` is what the votes and
the timer would have to keep to.
-/

namespace InterBit.Consensus

open InterBit.Lib

variable {env : HotStuffEnv}

namespace HotStuffConsensus

/-- The turn lowers neither the view nor the view of `highest_qc`. -/
def KeepsUp (env : HotStuffEnv) (node : HotStuffConsensus) (action : HotStuffAction) : Prop :=
  node.view ≤ (node.next env action).view ∧
    ∀ qc, node.highestQc = some qc →
      ∃ qc', (node.next env action).highestQc = some qc' ∧ qc.view ≤ qc'.view

/-- What is to be written is not lower: a vote that completes a quorum, or comes to a complete
one, is not for an older view than `highest_qc`, and the view after it, as the build
computes it, not below the present one; and the timer has not been overtaken. -/
def Forward (env : HotStuffEnv) (node : HotStuffConsensus) : HotStuffAction → Prop
  | .deliver (.vote vote) => node.looping = true → node.completes vote →
      (∀ qc, node.highestQc = some qc → qc.view ≤ vote.view) ∧
        ∀ view, env.add64 vote.view 1 = some view → node.view ≤ view
  | .expire => ∀ current, node.timeout = some current →
      ∀ view, env.add64 current 1 = some view → node.view ≤ view
  | _ => True

theorem le_getD {view : U64} {write : Option U64} :
    view ≤ write.getD view ↔ ∀ other, write = some other → view ≤ other := by
  cases write with
  | none => exact iff_of_true (BitVec.le_refl _) fun _ h => nomatch h
  | some other =>
    constructor
    · intro h written hwritten
      exact Option.some.inj hwritten ▸ h
    · intro h
      exact h other rfl

theorem keepsUp_of_standing {node : HotStuffConsensus} {action : HotStuffAction}
    (h : node.standingAfter env action = node.standing) : node.KeepsUp env action := by
  have hstanding := (next_standing env node action).trans h
  have hview : (node.next env action).view = node.view := congrArg Standing.view hstanding
  have hqc : (node.next env action).highestQc = node.highestQc :=
    congrArg Standing.highestQc hstanding
  rw [KeepsUp, hview, hqc]
  exact ⟨BitVec.le_refl _, fun qc hqc => ⟨qc, hqc, BitVec.le_refl _⟩⟩

theorem keepsUp_vote_iff (env : HotStuffEnv) (node : HotStuffConsensus) (vote : VoteMsg) :
    node.KeepsUp env (.deliver (.vote vote)) ↔ node.Forward env (.deliver (.vote vote)) := by
  have hstanding := next_standing env node (.deliver (.vote vote))
  rw [Forward]
  by_cases hloop : node.looping = true
  · rw [standingAfter, if_pos hloop] at hstanding
    by_cases hcompletes : node.completes vote
    · rw [standingVoted, if_pos hcompletes] at hstanding
      have hview : (node.next env (.deliver (.vote vote))).view
          = (env.add64 vote.view 1).getD node.view := congrArg Standing.view hstanding
      have hqc : (node.next env (.deliver (.vote vote))).highestQc
          = some (node.certificate vote) := congrArg Standing.highestQc hstanding
      rw [KeepsUp, hview, hqc, le_getD]
      constructor
      · rintro ⟨hview, hqc⟩ _ _
        refine ⟨fun qc hsome => ?_, hview⟩
        obtain ⟨qc', heq, hle⟩ := hqc qc hsome
        obtain rfl := Option.some.inj heq
        exact hle
      · intro h
        obtain ⟨hqc, hview⟩ := h hloop hcompletes
        exact ⟨hview, fun qc hsome => ⟨_, rfl, hqc qc hsome⟩⟩
    · -- The vote is put into its box, and nothing else happens.
      rw [standingVoted, if_neg hcompletes] at hstanding
      refine iff_of_true ⟨?_, fun qc hqc => ⟨qc, ?_, BitVec.le_refl _⟩⟩ fun _ h => absurd h hcompletes
      · rw [show (node.next env (.deliver (.vote vote))).view = node.view from
          congrArg Standing.view hstanding]
        exact BitVec.le_refl _
      · exact (congrArg Standing.highestQc hstanding).trans hqc
  · exact iff_of_true (keepsUp_of_standing (if_neg hloop)) fun h => absurd h hloop

theorem keepsUp_expire_iff (env : HotStuffEnv) (node : HotStuffConsensus) :
    node.KeepsUp env .expire ↔ node.Forward env .expire := by
  have hstanding := next_standing env node .expire
  have hview : (node.next env .expire).view
      = (node.timeout.bind fun current => env.add64 current 1).getD node.view :=
    congrArg Standing.view hstanding
  have hqc : (node.next env .expire).highestQc = node.highestQc :=
    congrArg Standing.highestQc hstanding
  rw [KeepsUp, hview, hqc, le_getD, Forward]
  constructor
  · rintro ⟨hview, _⟩ current hcurrent view hadd
    exact hview view (by rw [hcurrent, Option.bind_some, hadd])
  · intro h
    refine ⟨fun view hbind => ?_, fun qc hqc => ⟨qc, hqc, BitVec.le_refl _⟩⟩
    obtain ⟨current, hcurrent, hadd⟩ := Option.bind_eq_some_iff.mp hbind
    exact h current hcurrent view hadd

theorem keepsUp_iff (env : HotStuffEnv) (node : HotStuffConsensus) (action : HotStuffAction) :
    node.KeepsUp env action ↔ node.Forward env action := by
  cases action with
  | deliver msg =>
    cases msg with
    | vote vote => exact keepsUp_vote_iff ..
    | proposal proposal => exact iff_of_true (keepsUp_of_standing rfl) trivial
    | newView newView => exact iff_of_true (keepsUp_of_standing rfl) trivial
  | propose timestamp => exact iff_of_true (keepsUp_of_standing rfl) trivial
  | tick => exact iff_of_true (keepsUp_of_standing rfl) trivial
  | expire => exact keepsUp_expire_iff ..

/-- In a run the views never go back if and only if all that is written goes forward. -/
theorem views_monotone_iff (env : HotStuffEnv) (nodeId : List UInt8)
    (validators : List (List UInt8)) (actions : List HotStuffAction) :
    Always (next env) (KeepsUp env) (new nodeId validators) actions ↔
      Always (next env) (Forward env) (new nodeId validators) actions :=
  always_iff (I := fun _ => True) trivial (fun _ _ _ _ => trivial)
    fun node action _ => keepsUp_iff env node action

/-! ## Votes of an old view -/

/-- The votes of three validators for a view. -/
def threeVotes (view : U64) : List HotStuffAction :=
  [0, 1, 2].map fun i => .deliver (.vote {
    blockHash := Vector.replicate 32 0, view
    partialSig := { validatorId := [0, 0, 0, i], signature := [] } })

/-- A quorum for view 1 that comes after one for view 5. -/
theorem oldVotes_go_back :
    let node := (new [0, 0, 0, 0] sampleIds).run (sampleHotStuffEnv false) (threeVotes 5)
    let later := node.run (sampleHotStuffEnv false) (threeVotes 1)
    node.view = 6 ∧ node.highestQc.map (·.view) = some 5 ∧
    later.view = 2 ∧ later.highestQc.map (·.view) = some 1 ∧
    ¬ Always (next (sampleHotStuffEnv false)) (KeepsUp (sampleHotStuffEnv false))
      (new [0, 0, 0, 0] sampleIds) (threeVotes 5 ++ threeVotes 1) := by
  refine ⟨by decide +kernel, by decide +kernel, by decide +kernel, by decide +kernel, fun h => ?_⟩
  have hlast := (Always.append.mp h).2.2.2.1.1
  exact absurd hlast (by decide +kernel)

end HotStuffConsensus

end InterBit.Consensus
