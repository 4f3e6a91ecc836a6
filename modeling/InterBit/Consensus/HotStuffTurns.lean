import InterBit.Lib.Trace
import InterBit.Consensus.HotStuff

/-!
# What a turn of a HotStuff node changes

The state falls into two parts that the theorems are about. `Standing` is what votes and the
timer change: views, certificates and ballot boxes, and nothing else touches it
(`next_standing`). The queue of the node's own votes grows by the vote for the block that a
turn votes for (`next_voteQueue`).
-/

namespace InterBit.Consensus

open InterBit.Lib

variable {env : HotStuffEnv}

/-- The id and the validators, which stay, and what votes and the timer write. -/
structure Standing where
  nodeId : List UInt8
  validators : List (List UInt8)
  view : U64
  highestQc : Option QuorumCertificate
  votes : AList fun _ : H256 × U64 => List VoteMsg

namespace HotStuffConsensus

/-- The standing of a node. -/
def standing (node : HotStuffConsensus) : Standing where
  nodeId := node.nodeId
  validators := node.validators
  view := node.view
  highestQc := node.highestQc
  votes := node.votes

/-- With this vote there are enough for its block. -/
def completes (node : HotStuffConsensus) (vote : VoteMsg) : Prop :=
  node.threshold ≤ (bucket node.votes (vote.blockHash, vote.view)).length + 1

instance (node : HotStuffConsensus) (vote : VoteMsg) : Decidable (node.completes vote) :=
  inferInstanceAs (Decidable (_ ≤ _))

/-- The certificate of the votes for its block. -/
def certificate (node : HotStuffConsensus) (vote : VoteMsg) : QuorumCertificate where
  blockHash := vote.blockHash
  view := vote.view
  signatures := (bucket node.votes (vote.blockHash, vote.view) ++ [vote]).map (·.partialSig)

/-- The standing after a vote. -/
def standingVoted (env : HotStuffEnv) (node : HotStuffConsensus) (vote : VoteMsg) : Standing :=
  let standing := {
    node.standing with votes := pushVote node.votes (vote.blockHash, vote.view) vote }
  if node.completes vote then
    { standing with
      highestQc := some (node.certificate vote)
      view := (env.add64 vote.view 1).getD node.view }
  else standing

/-- A vote changes the votes and maybe the certificate. -/
theorem handleVote_standing (env : HotStuffEnv) (node : HotStuffConsensus) (vote : VoteMsg) :
    (node.handleVote env vote).standing = node.standingVoted env vote := by
  have hcompletes : node.completes vote ↔ node.threshold ≤
      (bucket (pushVote node.votes (vote.blockHash, vote.view) vote)
        (vote.blockHash, vote.view)).length := by
    rw [bucket_pushVote, List.length_append, List.length_singleton]
    exact Iff.rfl
  unfold handleVote standingVoted
  dsimp only
  split
  next h =>
    rw [if_pos (hcompletes.mpr h), certificate, ← bucket_pushVote]
    cases env.add64 vote.view 1 with
    | some view => rfl
    | none => rfl
  next h =>
    rw [if_neg fun h' => h (hcompletes.mp h')]
    rfl

/-! ## Turns that leave the standing alone -/

theorem commitBlock_frame (env : HotStuffEnv) (node : HotStuffConsensus)
    (block : HotStuffBlock) :
    (node.commitBlock env block).standing = node.standing ∧
      (node.commitBlock env block).voteQueue = node.voteQueue := by
  unfold commitBlock
  dsimp only
  split
  next => exact ⟨rfl, rfl⟩
  next => exact ⟨rfl, rfl⟩

theorem update_frame (env : HotStuffEnv) (node : HotStuffConsensus) (block : HotStuffBlock)
    (qc : QuorumCertificate) :
    (node.update env block qc).standing = node.standing ∧
      (node.update env block qc).voteQueue = node.voteQueue := by
  unfold update
  dsimp only
  split
  next =>
    split
    next =>
      split
      next =>
        split
        next =>
          split
          next => exact commitBlock_frame ..
          next => exact ⟨rfl, rfl⟩
        next => exact ⟨rfl, rfl⟩
      next => exact ⟨rfl, rfl⟩
    next => exact ⟨rfl, rfl⟩
  next => exact ⟨rfl, rfl⟩

theorem voteForBlock_frame (env : HotStuffEnv) (node : HotStuffConsensus)
    (block : HotStuffBlock) :
    (node.voteForBlock env block).standing = node.standing ∧
      (node.voteForBlock env block).bLock = node.bLock := by
  unfold voteForBlock
  split
  next =>
    split
    next =>
      split
      next => exact ⟨rfl, rfl⟩
      next => exact ⟨rfl, rfl⟩
    next => exact ⟨rfl, rfl⟩
    next => exact ⟨rfl, rfl⟩
  next => exact ⟨rfl, rfl⟩

theorem handleProposal_standing (env : HotStuffEnv) (node : HotStuffConsensus)
    (proposal : ProposalMsg) : (node.handleProposal env proposal).standing = node.standing := by
  unfold handleProposal
  split
  next =>
    dsimp only
    split
    next => exact (voteForBlock_frame ..).1.trans (update_frame ..).1
    next => exact (update_frame ..).1
  next => rfl

theorem handleNewView_standing (node : HotStuffConsensus) (msg : NewViewMsg) :
    (node.handleNewView msg).standing = node.standing := by
  unfold handleNewView
  split
  next => rfl
  next => rfl

theorem propose_frame (env : HotStuffEnv) (node : HotStuffConsensus) (timestamp : U64) :
    (node.propose env timestamp).1.standing = node.standing ∧
      (node.propose env timestamp).1.bLock = node.bLock := by
  unfold propose
  split
  next => exact ⟨rfl, rfl⟩
  next =>
    split
    next =>
      split
      next =>
        split
        next => exact ⟨rfl, rfl⟩
        next => exact ⟨rfl, rfl⟩
      next => exact ⟨rfl, rfl⟩
    next => exact ⟨rfl, rfl⟩

theorem proposeIfLeader_frame (env : HotStuffEnv) (node : HotStuffConsensus) (timestamp : U64) :
    (node.proposeIfLeader env timestamp).standing = node.standing ∧
      (node.proposeIfLeader env timestamp).bLock = node.bLock := by
  unfold proposeIfLeader
  split
  next => exact propose_frame ..
  next => exact ⟨rfl, rfl⟩
  next => exact ⟨rfl, rfl⟩

/-- The standing after a turn. -/
def standingAfter (env : HotStuffEnv) (node : HotStuffConsensus) : HotStuffAction → Standing
  | .deliver (.vote vote) => if node.looping then node.standingVoted env vote else node.standing
  | .expire => {
      node.standing with
      view := (node.timeout.bind fun current => env.add64 current 1).getD node.view }
  | _ => node.standing

/-- Only votes and the timer change the standing. -/
theorem next_standing (env : HotStuffEnv) (node : HotStuffConsensus) (action : HotStuffAction) :
    (node.next env action).standing = node.standingAfter env action := by
  cases action with
  | deliver msg =>
    rw [next]
    cases msg with
    | vote vote =>
      rw [standingAfter]
      split
      next => exact handleVote_standing ..
      next => rfl
    | proposal proposal =>
      split
      next => exact handleProposal_standing ..
      next => rfl
    | newView newView =>
      split
      next => exact handleNewView_standing ..
      next => rfl
  | propose timestamp =>
    rw [next]
    split
    next => exact (proposeIfLeader_frame ..).1
    next => rfl
  | tick =>
    rw [next]
    split
    next => rfl
    next => rfl
  | expire =>
    rw [next, standingAfter]
    cases node.timeout with
    | none => rfl
    | some current =>
      -- If the view overflows, the timer panics and leaves it as it is.
      dsimp only [Option.bind_some]
      unfold writeView
      cases env.add64 current 1 with
      | some view => rfl
      | none => rfl

/-- A node stays who it is, among the same validators. -/
theorem next_identity (env : HotStuffEnv) (node : HotStuffConsensus) (action : HotStuffAction) :
    (node.next env action).nodeId = node.nodeId ∧
      (node.next env action).validators = node.validators := by
  have hid : (node.next env action).nodeId = (node.standingAfter env action).nodeId :=
    congrArg Standing.nodeId (next_standing env node action)
  have hvalidators : (node.next env action).validators
      = (node.standingAfter env action).validators :=
    congrArg Standing.validators (next_standing env node action)
  rw [hid, hvalidators]
  unfold standingAfter
  split
  next =>
    split
    next =>
      unfold standingVoted
      dsimp only
      split
      next => exact ⟨rfl, rfl⟩
      next => exact ⟨rfl, rfl⟩
    next => exact ⟨rfl, rfl⟩
  next => exact ⟨rfl, rfl⟩
  next => exact ⟨rfl, rfl⟩

/-! ## The votes that a node emits -/

/-- The proposal that the turn makes the node vote for. -/
def votedFor (env : HotStuffEnv) (node : HotStuffConsensus) : HotStuffAction → Option ProposalMsg
  | .deliver (.proposal proposal) =>
    if node.looping ∧ node.accepts proposal ∧
        (node.update env proposal.block proposal.justify).looping ∧
        node.isLeader proposal.block.view = some true ∧ node.voteQueue.length < voteCapacity ∧
        (node.nodeId.take 4).length = 4 then
      some proposal
    else none
  | .propose timestamp =>
    if node.proposing ∧ node.isLeader node.view = some true ∧ node.leafHeld = false ∧
        node.voteQueue.length < voteCapacity ∧ (node.nodeId.take 4).length = 4 then
      node.proposal env timestamp
    else none
  | _ => none

theorem handleVote_frame (env : HotStuffEnv) (node : HotStuffConsensus) (vote : VoteMsg) :
    (node.handleVote env vote).voteQueue = node.voteQueue ∧
      (node.handleVote env vote).bLock = node.bLock := by
  unfold handleVote
  dsimp only
  split
  next =>
    split
    next => exact ⟨rfl, rfl⟩
    next => exact ⟨rfl, rfl⟩
  next => exact ⟨rfl, rfl⟩

/-- What a turn of `vote_for_block` or of `propose` sends on `vote_sender`. -/
def ownVote (env : HotStuffEnv) (node : HotStuffConsensus) (block : HotStuffBlock) : VoteMsg where
  blockHash := env.hashBlock block
  view := block.view
  partialSig := {
    validatorId := node.nodeId
    signature := (env.hashBlock block).toList ++ node.nodeId.take 4 ++ List.replicate 28 0 }

theorem voteFor_eq (env : HotStuffEnv) (node : HotStuffConsensus) (block : HotStuffBlock) :
    node.voteFor env block
      = if (node.nodeId.take 4).length = 4 then some (node.ownVote env block) else none := by
  unfold voteFor sign
  split
  next => rfl
  next => rfl

/-- The leader queues his own vote, if there is room. -/
theorem voteForBlock_voteQueue (env : HotStuffEnv) (node : HotStuffConsensus)
    (block : HotStuffBlock) :
    (node.voteForBlock env block).voteQueue
      = if node.isLeader block.view = some true ∧ node.voteQueue.length < voteCapacity ∧
          (node.nodeId.take 4).length = 4 then
          node.voteQueue ++ [node.ownVote env block]
        else node.voteQueue := by
  unfold voteForBlock
  rw [voteFor_eq]
  by_cases hid : (node.nodeId.take 4).length = 4
  · rw [if_pos hid]
    dsimp only
    split
    next hleader =>
      by_cases hroom : node.voteQueue.length < voteCapacity
      · rw [if_pos hroom, if_pos ⟨hleader, hroom, hid⟩]
      · rw [if_neg hroom, if_neg fun h => hroom h.2.1]
    next hleader =>
      rw [if_neg fun h => by rw [hleader] at h; exact absurd h.1 (by decide)]
    next hleader =>
      rw [if_neg fun h => by rw [hleader] at h; exact absurd h.1 (by decide)]
  · rw [if_neg hid, if_neg fun h => hid h.2.2]

/-- A proposal that is accepted is voted for. -/
theorem handleProposal_voteQueue (env : HotStuffEnv) (node : HotStuffConsensus)
    (proposal : ProposalMsg) (hloop : node.looping = true) :
    (node.handleProposal env proposal).voteQueue
      = node.voteQueue ++ ((node.votedFor env (.deliver (.proposal proposal))).map
          fun proposal => node.ownVote env proposal.block).toList := by
  rw [votedFor]
  unfold handleProposal
  by_cases haccepts : node.accepts proposal = true
  · rw [if_pos haccepts]
    dsimp only
    by_cases hlive : (node.update env proposal.block proposal.justify).looping = true
    · -- Neither the id nor the leader nor the queue depends on the update.
      obtain ⟨hstanding, hqueue⟩ := update_frame env node proposal.block proposal.justify
      have hid : (node.update env proposal.block proposal.justify).nodeId = node.nodeId :=
        congrArg Standing.nodeId hstanding
      have hleader : (node.update env proposal.block proposal.justify).isLeader
          proposal.block.view = node.isLeader proposal.block.view := by
        have hvalidators : (node.update env proposal.block proposal.justify).validators
            = node.validators := congrArg Standing.validators hstanding
        rw [isLeader, hvalidators, hid]
        rfl
      rw [if_pos hlive, voteForBlock_voteQueue, hqueue, hleader, ownVote, hid]
      by_cases hvotes : node.isLeader proposal.block.view = some true ∧
          node.voteQueue.length < voteCapacity ∧ (node.nodeId.take 4).length = 4
      · rw [if_pos hvotes, if_pos ⟨hloop, haccepts, hlive, hvotes⟩]
        rfl
      · rw [if_neg hvotes, if_neg fun h => hvotes h.2.2.2]
        exact (List.append_nil _).symm
    · rw [if_neg hlive, if_neg fun h => hlive h.2.2.1, (update_frame ..).2]
      exact (List.append_nil _).symm
  · rw [if_neg haccepts, if_neg fun h => haccepts h.2.1]
    exact (List.append_nil _).symm

/-- A proposer votes for his own proposal. -/
theorem proposeIfLeader_voteQueue (env : HotStuffEnv) (node : HotStuffConsensus)
    (timestamp : U64) (hproposing : node.proposing = true) :
    (node.proposeIfLeader env timestamp).voteQueue
      = node.voteQueue ++ ((node.votedFor env (.propose timestamp)).map
          fun proposal => node.ownVote env proposal.block).toList := by
  rw [votedFor]
  unfold proposeIfLeader
  split
  next hleader =>
    unfold propose
    -- Each of the conditions of `votedFor` is a branch on the way to the vote.
    by_cases hheld : node.leafHeld = true
    · rw [if_pos hheld, if_neg fun h => by rw [hheld] at h; exact absurd h.2.2.1 (by decide)]
      exact (List.append_nil _).symm
    · rw [if_neg hheld]
      cases hproposal : node.proposal env timestamp with
      | none =>
        rw [ite_self]
        exact (List.append_nil _).symm
      | some proposal =>
        dsimp only
        rw [voteFor_eq]
        by_cases hid : (node.nodeId.take 4).length = 4
        · rw [if_pos hid]
          dsimp only
          by_cases hroom : node.voteQueue.length < voteCapacity
          · rw [if_pos hroom, if_pos ⟨hproposing, hleader, Bool.eq_false_iff.mpr hheld, hroom, hid⟩]
            rfl
          · rw [if_neg hroom, if_neg fun h => hroom h.2.2.2.1]
            exact (List.append_nil _).symm
        · rw [if_neg hid, if_neg fun h => hid h.2.2.2.2]
          exact (List.append_nil _).symm
  next hleader =>
    rw [if_neg fun h => by rw [hleader] at h; exact absurd h.2.1 (by decide)]
    exact (List.append_nil _).symm
  next hleader =>
    rw [if_neg fun h => by rw [hleader] at h; exact absurd h.2.1 (by decide)]
    exact (List.append_nil _).symm

/-- A turn adds the vote for what it votes for to the queue. -/
theorem next_voteQueue (env : HotStuffEnv) (node : HotStuffConsensus) (action : HotStuffAction) :
    (node.next env action).voteQueue
      = node.voteQueue ++ ((node.votedFor env action).map
          fun proposal => node.ownVote env proposal.block).toList := by
  cases action with
  | deliver msg =>
    rw [next]
    by_cases hloop : node.looping = true
    · rw [if_pos hloop]
      cases msg with
      -- a proposal is the only message that a vote answers
      | proposal proposal => exact handleProposal_voteQueue env node proposal hloop
      | vote vote => exact (handleVote_frame ..).1.trans (List.append_nil _).symm
      | newView newView =>
        refine Eq.trans ?_ (List.append_nil _).symm
        rw [handle, handleNewView]
        split
        next => rfl
        next => rfl
    · rw [if_neg hloop]
      cases msg with
      | proposal proposal =>
        rw [votedFor, if_neg fun h => hloop h.1]
        exact (List.append_nil _).symm
      | vote vote => exact (List.append_nil _).symm
      | newView newView => exact (List.append_nil _).symm
  | propose timestamp =>
    rw [next]
    by_cases hproposing : node.proposing = true
    · rw [if_pos hproposing]
      exact proposeIfLeader_voteQueue env node timestamp hproposing
    · rw [if_neg hproposing, votedFor, if_neg fun h => hproposing h.1]
      exact (List.append_nil _).symm
  | tick =>
    refine Eq.trans ?_ (List.append_nil _).symm
    rw [next]
    split
    next => rfl
    next => rfl
  | expire =>
    refine Eq.trans ?_ (List.append_nil _).symm
    rw [next]
    split
    next =>
      -- a new view panics or is entered, and neither votes
      unfold writeView
      split
      next => rfl
      next => rfl
    next => rfl

end HotStuffConsensus

end InterBit.Consensus
