import InterBit.Consensus.HotStuffTurns

/-!
# When a proposal of a HotStuff node is accepted

`propose` takes the certificate of its block from `highest_qc`, and `genesis_qc`, without a
signature, as long as there is none; `verify_qc` asks for the signatures of a quorum, so the
first proposals pass nowhere. Later ones do, since every certificate in `highest_qc` has
enough signatures (`run_certified`), if the call ends at all: it panics for an id of less
than four bytes, and waits for ever for `b_leaf` once `message_loop` waits with it, and for
`vote_sender`, from which nobody receives, after a thousand proposals.
-/

namespace InterBit.Consensus

open InterBit.Lib

variable {env : HotStuffEnv}

namespace HotStuffConsensus

/-- The certificate in `highest_qc` has enough signatures. -/
def Certified (node : HotStuffConsensus) : Prop :=
  ∀ qc, node.highestQc = some qc → node.verifyQc qc = true

theorem Certified.next {node : HotStuffConsensus} (h : node.Certified) (action : HotStuffAction) :
    (node.next env action).Certified := by
  have hvalidators := (next_identity env node action).2
  have hqc : (node.next env action).highestQc = (node.standingAfter env action).highestQc :=
    congrArg Standing.highestQc (next_standing env node action)
  intro qc hsome
  rw [verifyQc, threshold, hvalidators]
  rw [hqc] at hsome
  unfold standingAfter at hsome
  split at hsome
  next vote =>
    split at hsome
    next =>
      unfold standingVoted at hsome
      dsimp only at hsome
      split at hsome
      next hcompletes =>
        obtain rfl := Option.some.inj hsome
        refine decide_eq_true ?_
        rw [certificate, List.length_map, List.length_append]
        exact hcompletes
      next => exact h qc hsome
    next => exact h qc hsome
  next => exact h qc hsome
  next => exact h qc hsome

theorem propose_broadcasts {node : HotStuffConsensus} {timestamp : U64} {proposal : ProposalMsg}
    (hleaf : node.leafHeld = false) (hproposal : node.proposal env timestamp = some proposal) :
    (node.propose env timestamp).2.1 = [.proposal proposal] := by
  unfold propose
  rw [if_neg (by rw [hleaf]; decide), hproposal]
  dsimp only
  split
  next =>
    split
    next => rfl
    next => rfl
  next => rfl

end HotStuffConsensus

end InterBit.Consensus
