import InterBit.Consensus.HotStuffTurns

/-!
# Votes behind a certificate

A quorum certificate should have the signatures of enough validators who have voted for its
block. `handle_vote` counts the messages for the block, whoever they name and however often
they come, and `verify_qc` the signatures in the certificate. Neither checks a signature.

As for the commits of the optimistic node, a ghost has the votes that have really been cast.
`Genuine` says what would have to hold of the messages, and `certificates_backed` that then
every certificate that a node stores or accepts has its validators behind it.
-/

namespace InterBit.Consensus

open InterBit.Lib
open HotStuffConsensus (sampleHotStuffEnv sampleIds)

variable {env : HotStuffEnv}

/-- A node, the votes that have been cast, and the certificates that `highest_qc` has held. -/
structure HotStuffWorld where
  node : HotStuffConsensus
  cast : List VoteMsg
  formed : List QuorumCertificate

/-- A vote is cast, or the node takes a turn. -/
inductive HotStuffEvent where
  | casts (vote : VoteMsg)
  | acts (action : HotStuffAction)

namespace HotStuffWorld

/-- A fresh node, and no votes. -/
def start (nodeId : List UInt8) (validators : List (List UInt8)) : HotStuffWorld where
  node := .new nodeId validators
  cast := []
  formed := []

/-- One event; the node casts its own votes in its turns. -/
def next (env : HotStuffEnv) (world : HotStuffWorld) : HotStuffEvent → HotStuffWorld
  | .casts vote => { world with cast := world.cast ++ [vote] }
  | .acts action => {
      node := world.node.next env action
      cast := world.cast ++ ((world.node.votedFor env action).map
        fun proposal => world.node.ownVote env proposal.block).toList
      formed := world.formed ++ (world.node.next env action).highestQc.toList }

/-- Enough members have a signature in the certificate that belongs to a vote they have cast for
its block in its view. -/
def Backed (world : HotStuffWorld) (qc : QuorumCertificate) : Prop :=
  Quorum world.node.validators
    (fun voter => ∃ signature ∈ qc.signatures, signature.validatorId = voter ∧
      ⟨qc.blockHash, qc.view, signature⟩ ∈ world.cast)
    world.node.threshold

/-- `handle_proposal` asks `verify_qc`, and it says yes. -/
def Verifies (world : HotStuffWorld) (proposal : ProposalMsg) : Prop :=
  world.node.looping = true ∧ proposal.view = world.node.view ∧
    world.node.verifyQc proposal.justify = true

/-- The certificate in `highest_qc` after the event, and the one that is verified in it, are
backed. -/
def Sound (env : HotStuffEnv) (world : HotStuffWorld) (event : HotStuffEvent) : Prop :=
  (∀ qc, (world.next env event).node.highestQc = some qc → (world.next env event).Backed qc) ∧
    ∀ proposal, event = .acts (.deliver (.proposal proposal)) → world.Verifies proposal →
      world.Backed proposal.justify

/-- What a message has to be: a vote has been cast by a member who has none in the box yet,
and a certificate that is verified is one that the node has held, or is backed. -/
def Genuine (world : HotStuffWorld) : HotStuffEvent → Prop
  | .acts (.deliver (.vote vote)) => world.node.looping = true →
      vote.partialSig.validatorId ∈ world.node.validators ∧ vote ∈ world.cast ∧
        vote.partialSig.validatorId ∉
          (bucket world.node.votes (vote.blockHash, vote.view)).map (·.partialSig.validatorId)
  | .acts (.deliver (.proposal proposal)) => world.Verifies proposal →
      proposal.justify ∈ world.formed ∨ world.Backed proposal.justify
  | _ => True

/-- The boxes have genuine votes of different members, and what has been in `highest_qc` is
backed. -/
structure BackedInv (world : HotStuffWorld) : Prop where
  votes : Tallied world.node.validators (·.partialSig.validatorId)
    (fun key vote => vote ∈ world.cast ∧ vote.blockHash = key.1 ∧ vote.view = key.2)
    world.node.votes
  formed : ∀ qc ∈ world.formed, world.Backed qc
  highest : ∀ qc, world.node.highestQc = some qc → qc ∈ world.formed

theorem backedInv_start (nodeId : List UInt8) (validators : List (List UInt8)) :
    (start nodeId validators).BackedInv :=
  ⟨.empty, fun _ h => (nomatch h), fun _ h => nomatch h⟩

theorem next_validators (env : HotStuffEnv) (world : HotStuffWorld) (event : HotStuffEvent) :
    (world.next env event).node.validators = world.node.validators := by
  cases event with
  | casts vote => rfl
  | acts action => exact (HotStuffConsensus.next_identity env world.node action).2

theorem cast_subset (env : HotStuffEnv) (world : HotStuffWorld) (event : HotStuffEvent) :
    world.cast ⊆ (world.next env event).cast := by
  cases event with
  | casts vote => exact List.subset_append_left ..
  | acts action => exact List.subset_append_left ..

theorem Backed.next {world : HotStuffWorld} {qc : QuorumCertificate} (h : world.Backed qc)
    (event : HotStuffEvent) : (world.next env event).Backed qc := by
  rw [Backed, HotStuffConsensus.threshold, next_validators]
  refine Quorum.mono h fun voter hvoter => ?_
  obtain ⟨signature, hmem, hid, hcast⟩ := hvoter
  exact ⟨signature, hmem, hid, cast_subset env world event hcast⟩

variable {world : HotStuffWorld}

/-- The certificate that a vote completes. -/
theorem backed_certificate {vote : VoteMsg}
    (hcompletes : world.node.completes vote)
    (htally : Tally world.node.validators (·.partialSig.validatorId)
      (fun other => other ∈ world.cast ∧ other.blockHash = vote.blockHash ∧ other.view = vote.view)
      (bucket world.node.votes (vote.blockHash, vote.view) ++ [vote])) :
    world.Backed (world.node.certificate vote) := by
  refine htally.quorum ?_ fun other hmem hgenuine => ?_
  · rw [List.length_append, List.length_singleton]
    exact hcompletes
  · obtain ⟨hcast, hhash, hview⟩ := hgenuine
    refine ⟨other.partialSig, List.mem_map_of_mem hmem, rfl, ?_⟩
    show (⟨vote.blockHash, vote.view, other.partialSig⟩ : VoteMsg) ∈ world.cast
    rw [← hhash, ← hview]
    exact hcast

/-- Turns that take in no vote leave the boxes and `highest_qc` alone. -/
theorem BackedInv.acts {action : HotStuffAction} (h : world.BackedInv)
    (hvotes : (world.node.standingAfter env action).votes = world.node.votes)
    (hqc : (world.node.standingAfter env action).highestQc = world.node.highestQc) :
    (world.next env (.acts action)).BackedInv := by
  have hstanding := HotStuffConsensus.next_standing env world.node action
  have hvotes' : (world.node.next env action).votes = world.node.votes :=
    (congrArg Standing.votes hstanding).trans hvotes
  have hqc' : (world.node.next env action).highestQc = world.node.highestQc :=
    (congrArg Standing.highestQc hstanding).trans hqc
  refine ⟨?_, fun qc hmem => ?_, fun qc hsome => ?_⟩
  · show Tallied _ _ _ (world.node.next env action).votes
    rw [hvotes', next_validators]
    exact h.votes.mono fun key vote hvote => ⟨cast_subset env world _ hvote.1, hvote.2⟩
  · rcases List.mem_append.mp hmem with hmem | hmem
    · exact (h.formed qc hmem).next _
    · rw [hqc'] at hmem
      exact (h.formed qc (h.highest qc (Option.mem_toList.mp hmem))).next _
  · exact List.mem_append_right _ (Option.mem_toList.mpr hsome)

theorem BackedInv.votes_next {vote : VoteMsg} (h : world.BackedInv)
    (hloop : world.node.looping = true) (hok : world.Genuine (.acts (.deliver (.vote vote)))) :
    (world.next env (.acts (.deliver (.vote vote)))).BackedInv := by
  obtain ⟨hmember, hcast, hnew⟩ := hok hloop
  have hstanding := HotStuffConsensus.next_standing env world.node (.deliver (.vote vote))
  rw [HotStuffConsensus.standingAfter, if_pos hloop] at hstanding
  have hsame : (world.next env (.acts (.deliver (.vote vote)))).cast = world.cast :=
    List.append_nil _
  have hvotes : (world.node.next env (.deliver (.vote vote))).votes
      = pushVote world.node.votes (vote.blockHash, vote.view) vote := by
    refine (congrArg Standing.votes hstanding).trans ?_
    unfold HotStuffConsensus.standingVoted
    dsimp only
    split
    next => rfl
    next => rfl
  have htallied := h.votes.pushVote hmember (by exact ⟨hcast, rfl, rfl⟩) hnew
  refine ⟨?_, fun qc hmem => ?_, fun qc hsome => ?_⟩
  · show Tallied _ _ _ (world.node.next env (.deliver (.vote vote))).votes
    rw [hvotes, next_validators, hsame]
    exact htallied
  · rcases List.mem_append.mp hmem with hmem | hmem
    · exact (h.formed qc hmem).next _
    · -- `highest_qc` has the certificate of the vote, or what it had before.
      have hqc : (world.node.next env (.deliver (.vote vote))).highestQc
          = (world.node.standingVoted env vote).highestQc :=
        congrArg Standing.highestQc hstanding
      rw [hqc, HotStuffConsensus.standingVoted] at hmem
      dsimp only at hmem
      split at hmem
      next hcompletes =>
        obtain rfl := Option.some.inj (Option.mem_toList.mp hmem)
        have htally := htallied (vote.blockHash, vote.view)
        rw [bucket_pushVote] at htally
        exact (backed_certificate hcompletes htally).next _
      next =>
        exact (h.formed qc (h.highest qc (Option.mem_toList.mp hmem))).next _
  · exact List.mem_append_right _ (Option.mem_toList.mpr hsome)

theorem BackedInv.next {world : HotStuffWorld} {event : HotStuffEvent} (h : world.BackedInv)
    (hok : world.Genuine event) : (world.next env event).BackedInv := by
  cases event with
  | casts vote =>
    refine ⟨?_, fun qc hmem => (h.formed qc hmem).next (.casts vote), h.highest⟩
    exact h.votes.mono fun key other hvote => ⟨cast_subset env world (.casts vote) hvote.1, hvote.2⟩
  | acts action =>
    cases action with
    | propose timestamp => exact h.acts rfl rfl
    | tick => exact h.acts rfl rfl
    | expire => exact h.acts rfl rfl
    | deliver msg =>
      cases msg with
      | proposal proposal => exact h.acts rfl rfl
      | newView newView => exact h.acts rfl rfl
      | vote vote =>
        by_cases hloop : world.node.looping = true
        · exact h.votes_next hloop hok
        · have hidle : world.node.standingAfter env (.deliver (.vote vote)) = world.node.standing :=
            if_neg hloop
          exact h.acts (congrArg Standing.votes hidle) (congrArg Standing.highestQc hidle)

theorem sound_of_genuine {event : HotStuffEvent} (h : world.BackedInv) (hok : world.Genuine event) :
    world.Sound env event := by
  have hnext : (world.next env event).BackedInv := h.next hok
  refine ⟨fun qc hsome => hnext.formed qc (hnext.highest qc hsome), ?_⟩
  rintro proposal rfl hverifies
  rcases hok hverifies with hformed | hbacked
  · exact h.formed _ hformed
  · exact hbacked

/-- In a run in which all messages are genuine, every certificate that the node stores or
accepts has enough validators behind it. -/
theorem certificates_backed (env : HotStuffEnv) (nodeId : List UInt8)
    (validators : List (List UInt8)) (events : List HotStuffEvent)
    (h : Always (next env) Genuine (start nodeId validators) events) :
    Always (next env) (Sound env) (start nodeId validators) events :=
  h.mono (backedInv_start nodeId validators) (fun _ _ => BackedInv.next)
    fun _ _ => sound_of_genuine

/-! ## Two samples -/

/-- The vote of a validator. -/
def sampleVote (voter : UInt8) : VoteMsg where
  blockHash := Vector.replicate 32 0
  view := 0
  partialSig := { validatorId := [0, 0, 0, voter], signature := [] }

/-- Three validators cast votes, and these arrive. -/
def genuineEvents : List HotStuffEvent :=
  [.casts (sampleVote 0), .casts (sampleVote 1), .casts (sampleVote 2),
   .acts (.deliver (.vote (sampleVote 0))), .acts (.deliver (.vote (sampleVote 1))),
   .acts (.deliver (.vote (sampleVote 2)))]

theorem certificates_backed_sample :
    Always (next (sampleHotStuffEnv false)) (Sound (sampleHotStuffEnv false))
      (start [0, 0, 0, 0] sampleIds) genuineEvents := by
  refine certificates_backed (sampleHotStuffEnv false) [0, 0, 0, 0] sampleIds genuineEvents
    ⟨trivial, trivial, trivial, fun _ => ?_, fun _ => ?_, fun _ => ?_, trivial⟩
  · decide +kernel
  · decide +kernel
  · decide +kernel

/-- One validator casts a vote, and it arrives three times. -/
def oneVoteEvents : List HotStuffEvent :=
  [.casts (sampleVote 0), .acts (.deliver (.vote (sampleVote 0))),
   .acts (.deliver (.vote (sampleVote 0))), .acts (.deliver (.vote (sampleVote 0)))]

/-- The node makes a certificate of the one vote. -/
theorem oneVote_certified :
    ¬ Always (next (sampleHotStuffEnv false)) (Sound (sampleHotStuffEnv false))
      (start [0, 0, 0, 0] sampleIds) oneVoteEvents := by
  intro h
  let last := oneVoteEvents.foldl (next (sampleHotStuffEnv false)) (start [0, 0, 0, 0] sampleIds)
  have hqc : last.node.highestQc = some {
      blockHash := Vector.replicate 32 0, view := 0
      signatures := List.replicate 3 (sampleVote 0).partialSig } := by decide +kernel
  have hbacked : last.Backed _ := h.2.2.2.1.1 _ hqc
  -- All three signatures are by the same validator.
  have hle : last.node.threshold ≤ [[(0 : UInt8), 0, 0, 0]].length :=
    hbacked.le_length fun voter hvoter => by
      obtain ⟨signature, hmem, rfl, _⟩ := hvoter
      rw [List.eq_of_mem_replicate hmem]
      exact List.mem_singleton_self _
  exact absurd hle (by decide +kernel)

end HotStuffWorld

end InterBit.Consensus
