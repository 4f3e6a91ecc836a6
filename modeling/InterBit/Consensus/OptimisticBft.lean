import InterBit.Core.Bytes
import Mathlib.Data.List.AList

/-!
# The optimistic BFT node

`consensus/optimistic_bft.rs`. `Node` is the state that the tasks of one node share,
a handler maps it to the next state and the messages that are sent, and
`Node.step` is one turn of `message_loop`, of the loop that proposes, or of the
network monitor.

What the clock, the random numbers and the floating-point comparisons decide is an
argument of the action. Speculation is left out: it needs a confidence above 0.7, and
the confidence stays at its first value 0.5 because no prediction is ever recorded.
-/

namespace InterBit.Consensus

/-- `struct Transaction` of this module. -/
structure Transaction where
  hash : H256
  sender : Address
  recipient : Option Address
  data : List UInt8
  nonce : U64
  deriving DecidableEq

/-- `struct OptimisticBlock`. -/
structure OptimisticBlock where
  height : U64
  epoch : U64
  parentHash : H256
  transactions : List Transaction
  stateRoot : H256
  timestamp : U64
  proposer : List UInt8
  fastPath : Bool
  deriving DecidableEq

/-- `struct FastProposalMsg`. -/
structure FastProposalMsg where
  block : OptimisticBlock
  epoch : U64
  sender : List UInt8
  deriving DecidableEq

/-- `struct NormalProposalMsg`. -/
structure NormalProposalMsg where
  block : OptimisticBlock
  epoch : U64
  proof : List UInt8
  sender : List UInt8
  deriving DecidableEq

/-- `struct FastVoteMsg`. -/
structure FastVoteMsg where
  blockHash : H256
  epoch : U64
  voter : List UInt8
  signature : List UInt8
  deriving DecidableEq

/-- `struct NormalVoteMsg`. -/
structure NormalVoteMsg where
  blockHash : H256
  epoch : U64
  stateHash : H256
  voter : List UInt8
  signature : List UInt8
  deriving DecidableEq

/-- `struct CommitMsg`. -/
structure CommitMsg where
  blockHash : H256
  epoch : U64
  votes : List FastVoteMsg
  deriving DecidableEq

/-- `struct RollbackMsg`. -/
structure RollbackMsg where
  epoch : U64
  targetHeight : U64
  reason : String
  deriving DecidableEq

/-- `enum OptimisticMessage`. -/
inductive OptimisticMessage where
  | fastProposal (proposal : FastProposalMsg)
  | normalProposal (proposal : NormalProposalMsg)
  | fastVote (vote : FastVoteMsg)
  | normalVote (vote : NormalVoteMsg)
  | commit (commit : CommitMsg)
  | rollback (rollback : RollbackMsg)
  deriving DecidableEq

/-- What a node takes from outside the repository. -/
structure BftEnv extends Env where
  /-- `bincode::serialize` of a block. -/
  serializeBlock : OptimisticBlock → List UInt8

/-- `hash_block`. -/
def BftEnv.hashBlock (env : BftEnv) (block : OptimisticBlock) : H256 :=
  env.sha256 (env.serializeBlock block)

/-- What the tasks of a node share. The height goes up by one with each block that is
put into a vector, so it cannot overflow. -/
structure Node where
  nodeId : List UInt8
  epoch : U64
  height : Nat
  /-- The public keys of the validators. -/
  validators : List (List UInt8)
  executedBlocks : List OptimisticBlock
  committedBlocks : List OptimisticBlock
  fastVotes : AList fun _ : H256 × U64 => List FastVoteMsg
  normalVotes : AList fun _ : H256 × U64 => List NormalVoteMsg
  fastPathEnabled : Bool
  /-- What has been sent on `block_tx`. -/
  handed : List OptimisticBlock
  /-- `message_loop` has not panicked. -/
  looping : Bool

namespace Node

/-- `OptimisticBFT::new`. -/
def new (nodeId : List UInt8) (validators : List (List UInt8)) : Node where
  nodeId
  epoch := 0
  height := 0
  validators
  executedBlocks := []
  committedBlocks := []
  fastVotes := ∅
  normalVotes := ∅
  fastPathEnabled := true
  handed := []
  looping := true

/-- `is_leader`; `none` is the division by zero without validators. -/
def isLeader (node : Node) (epoch : U64) : Option Bool :=
  node.validators[epoch.toNat % node.validators.length]?.map (· == node.nodeId)

/-- `send_to_leader`. -/
def sendToLeader (node : Node) (msg : OptimisticMessage) (epoch : U64) : List OptimisticMessage :=
  if node.isLeader epoch = some true then [msg] else []

/-- `quick_verify`. -/
def quickVerify (block : OptimisticBlock) : Bool := 0 < block.height ∧ 0 < block.epoch

/-- `full_verify`. -/
def fullVerify (block : OptimisticBlock) (proof : List UInt8) : Bool :=
  quickVerify block ∧ 0 < proof.length

/-- `sign`. -/
def sign (_block : OptimisticBlock) : List UInt8 := List.replicate 64 0

/-- `get_parent_hash`. -/
def getParentHash (env : BftEnv) (node : Node) : H256 :=
  match node.committedBlocks.getLast? with
  | some block => env.hashBlock block
  | none => Vector.replicate 32 0

/-- `optimistic_execute`. -/
def optimisticExecute (node : Node) (block : OptimisticBlock) : Node :=
  let executed := node.executedBlocks ++ [block]
  { node with executedBlocks := if 10 < executed.length then executed.tail else executed }

/-- The state hash of `execute_with_verification`. -/
def stateHash (env : BftEnv) (block : OptimisticBlock) : H256 :=
  env.sha256 (block.stateRoot.toList ++ toBeBytes 8 block.height)

/-- `commit_block`. -/
def commitBlock (env : BftEnv) (node : Node) (blockHash : H256) : Node :=
  match node.executedBlocks.find? (env.hashBlock · = blockHash) with
  | some block =>
    let pos := node.executedBlocks.findIdx (env.hashBlock · = blockHash)
    { node with
      committedBlocks := node.committedBlocks ++ [block]
      executedBlocks := node.executedBlocks.drop (pos + 1)
      handed := node.handed ++ [block]
      height := node.height + 1 }
  | none => node

/-- `rollback_to_height`. -/
def rollbackToHeight (node : Node) (targetHeight : U64) : Node :=
  if targetHeight.toNat < node.height then
    { node with
      executedBlocks := []
      committedBlocks := node.committedBlocks.take targetHeight.toNat
      height := targetHeight.toNat }
  else { node with executedBlocks := [] }

/-- `handle_fast_vote`. -/
def handleFastVote (node : Node) (vote : FastVoteMsg) : Node × List OptimisticMessage :=
  let key := (vote.blockHash, vote.epoch)
  let votes := (node.fastVotes.lookup key).getD [] ++ [vote]
  let node := { node with fastVotes := node.fastVotes.insert key votes }
  if node.validators.length / 3 + 1 ≤ votes.length then
    (node, [.commit { blockHash := vote.blockHash, epoch := vote.epoch, votes }])
  else (node, [])

/-- `handle_normal_vote`. -/
def handleNormalVote (env : BftEnv) (node : Node) (vote : NormalVoteMsg) :
    Node × List OptimisticMessage :=
  let key := (vote.blockHash, vote.epoch)
  let votes := (node.normalVotes.lookup key).getD [] ++ [vote]
  let node := { node with normalVotes := node.normalVotes.insert key votes }
  if node.validators.length * 2 / 3 + 1 ≤ votes.length then
    if (votes.map (·.stateHash)).dedup.length = 1 then (node.commitBlock env vote.blockHash, [])
    else
      (node, [.rollback {
        epoch := vote.epoch, targetHeight := BitVec.ofNat 64 node.height
        reason := "State hash mismatch" }])
  else (node, [])

/-- The rest of a handler that asks `is_leader` first, which may panic. -/
def castVote (node : Node) (epoch : U64) (msg : OptimisticMessage)
    (handle : Node → Node × List OptimisticMessage) : Node × List OptimisticMessage :=
  match node.isLeader epoch with
  | some true => handle node
  | some false => (node, node.sendToLeader msg epoch)
  | none => ({ node with looping := false }, [])

/-- `handle_fast_proposal`. -/
def handleFastProposal (env : BftEnv) (node : Node) (proposal : FastProposalMsg) :
    Node × List OptimisticMessage :=
  if quickVerify proposal.block then
    let node := node.optimisticExecute proposal.block
    let vote : FastVoteMsg := {
      blockHash := env.hashBlock proposal.block, epoch := proposal.epoch, voter := node.nodeId
      signature := sign proposal.block }
    node.castVote proposal.epoch (.fastVote vote) (·.handleFastVote vote)
  else (node, [])

/-- `handle_normal_proposal`. -/
def handleNormalProposal (env : BftEnv) (node : Node) (proposal : NormalProposalMsg) :
    Node × List OptimisticMessage :=
  if fullVerify proposal.block proposal.proof then
    let node := node.optimisticExecute proposal.block
    let vote : NormalVoteMsg := {
      blockHash := env.hashBlock proposal.block, epoch := proposal.epoch
      stateHash := stateHash env proposal.block, voter := node.nodeId
      signature := sign proposal.block }
    node.castVote proposal.epoch (.normalVote vote) (·.handleNormalVote env vote)
  else (node, [])

/-- `handle_commit`. -/
def handleCommit (env : BftEnv) (node : Node) (commit : CommitMsg) : Node :=
  if node.validators.length / 3 + 1 ≤ commit.votes.length then
    node.commitBlock env commit.blockHash
  else node

/-- `handle_rollback`. -/
def handleRollback (node : Node) (rollback : RollbackMsg) : Node :=
  { node.rollbackToHeight rollback.targetHeight with fastPathEnabled := false }

/-- The handler that `message_loop` calls. -/
def handle (env : BftEnv) (node : Node) : OptimisticMessage → Node × List OptimisticMessage
  | .fastProposal proposal => node.handleFastProposal env proposal
  | .normalProposal proposal => node.handleNormalProposal env proposal
  | .fastVote vote => node.handleFastVote vote
  | .normalVote vote => node.handleNormalVote env vote
  | .commit commit => (node.handleCommit env commit, [])
  | .rollback rollback => (node.handleRollback rollback, [])

/-- One turn of `message_loop`; after a panic there is none. -/
def deliver (env : BftEnv) (node : Node) (msg : OptimisticMessage) :
    Node × List OptimisticMessage :=
  if node.looping then node.handle env msg else (node, [])

/-- `propose`, at a time and with what it makes of the network conditions. -/
def propose (env : BftEnv) (node : Node) (timestamp : U64) (goodNetwork : Bool) :
    Node × List OptimisticMessage :=
  let useFastPath := goodNetwork && node.fastPathEnabled
  let block : OptimisticBlock := {
    height := BitVec.ofNat 64 (node.height + 1), epoch := node.epoch
    parentHash := node.getParentHash env, transactions := []
    stateRoot := Vector.replicate 32 0, timestamp, proposer := node.nodeId
    fastPath := useFastPath }
  if useFastPath then
    (node.optimisticExecute block,
      [.fastProposal { block, epoch := node.epoch, sender := node.nodeId }])
  else
    (node, [.normalProposal {
      block, epoch := node.epoch, proof := List.replicate 128 0, sender := node.nodeId }])

end Node

/-- What a node can do next. -/
inductive NodeAction where
  /-- A turn of `message_loop`. -/
  | deliver (msg : OptimisticMessage)
  /-- A turn of the loop of `start`, which proposes if the node is the leader. -/
  | propose (timestamp : U64) (goodNetwork : Bool)
  /-- A turn of `monitor_network`; in between its two bounds it changes nothing. -/
  | monitorNetwork (enable : Option Bool)
  deriving DecidableEq

/-- One action of a node. -/
def Node.step (env : BftEnv) (node : Node) : NodeAction → Node × List OptimisticMessage
  | .deliver msg => node.deliver env msg
  | .propose timestamp goodNetwork =>
    if node.isLeader node.epoch = some true then node.propose env timestamp goodNetwork
    else (node, [])
  | .monitorNetwork enable =>
    ({ node with fastPathEnabled := enable.getD node.fastPathEnabled }, [])

/-- A list of actions. -/
def Node.run (env : BftEnv) (node : Node) (actions : List NodeAction) : Node :=
  actions.foldl (fun node action => (node.step env action).1) node

end InterBit.Consensus
