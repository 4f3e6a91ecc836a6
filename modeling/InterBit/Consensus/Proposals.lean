import InterBit.Consensus.Agreement

/-!
# Proposals nobody accepts

`propose` puts the epoch of the node into its block, and `quick_verify` wants an epoch
above 0. The epoch is 0 at first, and nothing ever writes it, so no node accepts what
another one proposes, or what it proposes itself: the protocol stands still.
-/

namespace InterBit.Consensus

variable {env : BftEnv}

namespace Node

/-- The message passes the check of its handler, which asks nothing of the node. -/
def acceptable : OptimisticMessage → Bool
  | .fastProposal proposal => quickVerify proposal.block
  | .normalProposal proposal => fullVerify proposal.block proposal.proof
  | _ => false

theorem acceptable_of_epochZero {msg : OptimisticMessage} (h : Network.EpochZero msg) :
    acceptable msg = false := by
  cases msg with
  | fastProposal proposal => exact Network.quickVerify_epoch h
  | normalProposal proposal =>
    rw [acceptable, fullVerify, Network.quickVerify_epoch h]
    simp
  | fastVote _ => rfl
  | normalVote _ => rfl
  | commit _ => rfl
  | rollback _ => rfl

/-- `propose` broadcasts one proposal, with a block of its own epoch. -/
theorem propose_broadcasts (env : BftEnv) (node : Node) (timestamp : U64) (goodNetwork : Bool)
    (hepoch : node.epoch = 0) :
    ∃ msg, (node.propose env timestamp goodNetwork).2 = [msg] ∧ Network.EpochZero msg := by
  unfold propose
  dsimp only
  split
  next => exact ⟨_, rfl, hepoch⟩
  next => exact ⟨_, rfl, hepoch⟩

/-- Whatever has happened, what the node proposes passes nobody's check, and delivering it
changes nothing. -/
theorem proposal_refused (env : BftEnv) (nodeId : List UInt8) (validators : List (List UInt8))
    (actions : List NodeAction) (timestamp : U64) (goodNetwork : Bool) :
    let node := (new nodeId validators).run env actions
    ∃ msg, (node.propose env timestamp goodNetwork).2 = [msg] ∧ acceptable msg = false ∧
      ∀ other : Node, other.deliver env msg = (other, []) := by
  intro node
  obtain ⟨msg, hsent, hzero⟩ :=
    propose_broadcasts env node timestamp goodNetwork (run_epoch env (new nodeId validators) actions)
  refine ⟨msg, hsent, acceptable_of_epochZero hzero, fun other => ?_⟩
  rw [deliver, Network.handle_epochZero hzero, ite_self]

/-- The first leader proposes on the fast and on the normal path. -/
theorem firstProposal_refused :
    let node := new [0] fourValidators
    node.isLeader node.epoch = some true ∧
    ((node.propose sampleBftEnv 0 true).2.map acceptable) = [false] ∧
    ((node.propose sampleBftEnv 0 false).2.map acceptable) = [false] := by
  decide +kernel

end Node

end InterBit.Consensus
