import InterBit.Lib.Ballots
import InterBit.StateMachine.Transaction

/-!
# The HotStuff node

`consensus/hotstuff.rs`. `HotStuffConsensus` is the state that the tasks of a node share,
and `HotStuffConsensus.next` is one turn of a task: `message_loop` takes a message, the
loop of `start` proposes, and `view_change_timer` reads the view and later writes it, with
turns of the others in between.

`update` asks for `b_leaf` while it holds that lock. tokio's locks are not re-entrant, so
`message_loop` waits for ever at the first proposal that it accepts; `reentrantLocks` is a
parameter because the three-chain rule is also looked at as if they were.

Messages that wait in `msg_rx` are not modelled: any message may arrive at any time. A full
queue only delays a send, since `message_loop` takes the messages out as long as it lives,
and a proposer waits for `b_leaf` before it sends once it does not. `enter_new_view` is
never called.
-/

namespace InterBit.Consensus

open InterBit.Lib

/-- `struct PartialSignature`. -/
structure PartialSignature where
  validatorId : List UInt8
  signature : List UInt8
  deriving DecidableEq

/-- `struct QuorumCertificate`. -/
structure QuorumCertificate where
  blockHash : H256
  view : U64
  signatures : List PartialSignature
  deriving DecidableEq

/-- `struct HotStuffBlock`. -/
structure HotStuffBlock where
  height : U64
  view : U64
  parentHash : H256
  qc : QuorumCertificate
  transactions : List StateMachine.Transaction
  timestamp : U64
  deriving DecidableEq

/-- `struct ProposalMsg`. -/
structure ProposalMsg where
  block : HotStuffBlock
  justify : QuorumCertificate
  view : U64
  sender : List UInt8
  deriving DecidableEq

/-- `struct VoteMsg`. -/
structure VoteMsg where
  blockHash : H256
  view : U64
  partialSig : PartialSignature
  deriving DecidableEq

/-- `struct NewViewMsg`. -/
structure NewViewMsg where
  view : U64
  justify : QuorumCertificate
  sender : List UInt8
  deriving DecidableEq

/-- `enum HotStuffMessage`. -/
inductive HotStuffMessage where
  | proposal (proposal : ProposalMsg)
  | vote (vote : VoteMsg)
  | newView (newView : NewViewMsg)
  deriving DecidableEq

/-- What a node takes from outside the repository. -/
structure HotStuffEnv extends Env where
  /-- `bincode::serialize` of a block. -/
  serializeBlock : HotStuffBlock → List UInt8
  /-- Whether a task may take a lock that it holds. -/
  reentrantLocks : Bool

/-- `hash_block`. -/
def HotStuffEnv.hashBlock (env : HotStuffEnv) (block : HotStuffBlock) : H256 :=
  env.sha256 (env.serializeBlock block)

/-- How a call ends. -/
inductive Outcome where
  | completed
  | panicked
  /-- The call waits for ever. -/
  | blocked
  deriving DecidableEq

/-- What the tasks of a node share, and whether they still run. -/
structure HotStuffConsensus where
  nodeId : List UInt8
  view : U64
  height : U64
  /-- The public keys of the validators. -/
  validators : List (List UInt8)
  bLock : Option HotStuffBlock
  bExec : Option HotStuffBlock
  bLeaf : Option HotStuffBlock
  highestQc : Option QuorumCertificate
  votes : AList fun _ : H256 × U64 => List VoteMsg
  /-- What has been sent on `vote_sender`; nobody receives it. -/
  voteQueue : List VoteMsg
  /-- What has been sent on `block_tx`. -/
  sent : List HotStuffBlock
  /-- `last_view` of the timer. -/
  lastView : U64
  /-- The view that the timer has read and is about to increment. -/
  timeout : Option U64
  /-- `message_loop` neither has panicked nor waits for ever. -/
  looping : Bool
  /-- The same of the loop of `start`. -/
  proposing : Bool
  /-- The timer has not panicked. -/
  timing : Bool
  /-- `message_loop` waits with `b_leaf` locked. -/
  leafHeld : Bool

namespace HotStuffConsensus

/-- `HotStuffConsensus::new`. -/
def new (nodeId : List UInt8) (validators : List (List UInt8)) : HotStuffConsensus where
  nodeId
  view := 0
  height := 0
  validators
  bLock := none
  bExec := none
  bLeaf := none
  highestQc := none
  votes := ∅
  voteQueue := []
  sent := []
  lastView := 0
  timeout := none
  looping := true
  proposing := true
  timing := true
  leafHeld := false

/-- The capacity of the channel of `vote_sender`. -/
def voteCapacity : Nat := 1000

/-- `is_leader`; `none` is the division by zero without validators. -/
def isLeader (node : HotStuffConsensus) (view : U64) : Option Bool :=
  node.validators[view.toNat % node.validators.length]?.map (· == node.nodeId)

/-- `sign`; `copy_from_slice` panics if the id has less than four bytes. -/
def sign (node : HotStuffConsensus) (data : H256) : Option (List UInt8) :=
  if (node.nodeId.take 4).length = 4 then
    some (data.toList ++ node.nodeId.take 4 ++ List.replicate 28 0)
  else none

/-- `genesis_qc`. -/
def genesisQc : QuorumCertificate where
  blockHash := Vector.replicate 32 0
  view := 0
  signatures := []

/-- The number of votes for a quorum. -/
def threshold (node : HotStuffConsensus) : Nat := node.validators.length * 2 / 3 + 1

/-- `verify_qc`. -/
def verifyQc (node : HotStuffConsensus) (qc : QuorumCertificate) : Bool :=
  node.threshold ≤ qc.signatures.length

/-- `verify_block`. -/
def verifyBlock (block : HotStuffBlock) : Bool := 0 < block.height ∧ 0 ≤ block.view

/-- `get_block`. -/
def getBlock (env : HotStuffEnv) (node : HotStuffConsensus) (hash : H256) : Option HotStuffBlock :=
  node.bLeaf.filter (env.hashBlock · = hash) <|> node.bLock.filter (env.hashBlock · = hash)

/-- `commit_block`. -/
def commitBlock (env : HotStuffEnv) (node : HotStuffConsensus) (block : HotStuffBlock) :
    HotStuffConsensus :=
  let node := { node with bExec := some block, sent := node.sent ++ [block] }
  match env.add64 node.height 1 with
  | some height => { node with height }
  | none => { node with looping := false }

/-- `update`. -/
def update (env : HotStuffEnv) (node : HotStuffConsensus) (block : HotStuffBlock)
    (qc : QuorumCertificate) : HotStuffConsensus :=
  let node := { node with bLeaf := some block }
  if env.reentrantLocks then
    match node.getBlock env block.parentHash with
    | some parent =>
      if qc.blockHash = env.hashBlock parent then
        let node := { node with bLock := some parent }
        match node.getBlock env parent.parentHash with
        | some grandparent =>
          if parent.qc.blockHash = env.hashBlock grandparent then node.commitBlock env grandparent
          else node
        | none => node
      else node
    | none => node
  else
    -- `get_block` waits for the lock that `update` holds.
    { node with leafHeld := true, looping := false }

/-- The vote of the node for a block; `none` is the panic of `sign`. -/
def voteFor (env : HotStuffEnv) (node : HotStuffConsensus) (block : HotStuffBlock) :
    Option VoteMsg :=
  (node.sign (env.hashBlock block)).map fun signature =>
    { blockHash := env.hashBlock block, view := block.view
      partialSig := { validatorId := node.nodeId, signature } }

/-- `vote_for_block`. -/
def voteForBlock (env : HotStuffEnv) (node : HotStuffConsensus) (block : HotStuffBlock) :
    HotStuffConsensus :=
  match node.voteFor env block with
  | some vote =>
    match node.isLeader block.view with
    | some true =>
      if node.voteQueue.length < voteCapacity then
        { node with voteQueue := node.voteQueue ++ [vote] }
      else { node with looping := false }
    -- `send_to_leader` asks `is_leader` again, and sends nothing.
    | some false => node
    | none => { node with looping := false }
  | none => { node with looping := false }

/-- The checks of `handle_proposal`. -/
def accepts (node : HotStuffConsensus) (proposal : ProposalMsg) : Bool :=
  proposal.view = node.view ∧ node.verifyQc proposal.justify ∧ verifyBlock proposal.block

/-- `handle_proposal`. -/
def handleProposal (env : HotStuffEnv) (node : HotStuffConsensus) (proposal : ProposalMsg) :
    HotStuffConsensus :=
  if node.accepts proposal then
    let node := node.update env proposal.block proposal.justify
    if node.looping then node.voteForBlock env proposal.block else node
  else node

/-- `handle_vote`. -/
def handleVote (env : HotStuffEnv) (node : HotStuffConsensus) (vote : VoteMsg) :
    HotStuffConsensus :=
  let key := (vote.blockHash, vote.view)
  let node := { node with votes := pushVote node.votes key vote }
  if node.threshold ≤ (bucket node.votes key).length then
    let qc : QuorumCertificate := {
      blockHash := vote.blockHash, view := vote.view
      signatures := (bucket node.votes key).map (·.partialSig) }
    let node := { node with highestQc := some qc }
    match env.add64 vote.view 1 with
    | some view => { node with view }
    | none => { node with looping := false }
  else node

/-- `handle_new_view`. -/
def handleNewView (node : HotStuffConsensus) (msg : NewViewMsg) : HotStuffConsensus :=
  match node.isLeader msg.view with
  | some _ => node
  | none => { node with looping := false }

/-- The handler that `message_loop` calls. -/
def handle (env : HotStuffEnv) (node : HotStuffConsensus) : HotStuffMessage → HotStuffConsensus
  | .proposal proposal => node.handleProposal env proposal
  | .vote vote => node.handleVote env vote
  | .newView newView => node.handleNewView newView

/-- The message that `propose` broadcasts; `none` is the overflow of the height. -/
def proposal (env : HotStuffEnv) (node : HotStuffConsensus) (timestamp : U64) :
    Option ProposalMsg :=
  let qc := node.highestQc.getD genesisQc
  (env.add64 node.height 1).map fun height => {
    block := {
      height, view := node.view
      parentHash := (node.bLeaf.map env.hashBlock).getD (Vector.replicate 32 0)
      qc, transactions := [], timestamp }
    justify := qc, view := node.view, sender := node.nodeId }

/-- `propose`, what it broadcasts, and how it ends. -/
def propose (env : HotStuffEnv) (node : HotStuffConsensus) (timestamp : U64) :
    HotStuffConsensus × List HotStuffMessage × Outcome :=
  if node.leafHeld then (node, [], .blocked)
  else
    match node.proposal env timestamp with
    | some proposal =>
      match node.voteFor env proposal.block with
      | some vote =>
        if node.voteQueue.length < voteCapacity then
          ({ node with voteQueue := node.voteQueue ++ [vote] }, [.proposal proposal], .completed)
        else (node, [.proposal proposal], .blocked)
      | none => (node, [.proposal proposal], .panicked)
    | none => (node, [], .panicked)

/-- A turn of the loop of `start`. -/
def proposeIfLeader (env : HotStuffEnv) (node : HotStuffConsensus) (timestamp : U64) :
    HotStuffConsensus :=
  match node.isLeader node.view with
  | some true =>
    let (node, _, outcome) := node.propose env timestamp
    { node with proposing := outcome = .completed }
  | some false => node
  | none => { node with proposing := false }

/-- The first half of a turn of `view_change_timer`. -/
def readView (node : HotStuffConsensus) : HotStuffConsensus :=
  { node with
    lastView := node.view
    timeout := if node.view = node.lastView then some node.view else none }

/-- The second half: the view that has not changed since the last turn goes up by one. -/
def writeView (env : HotStuffEnv) (node : HotStuffConsensus) (current : U64) :
    HotStuffConsensus :=
  match env.add64 current 1 with
  | some view => { node with view, timeout := none }
  | none => { node with timing := false, timeout := none }

end HotStuffConsensus

/-- What a node can do next. -/
inductive HotStuffAction where
  /-- A turn of `message_loop`. -/
  | deliver (msg : HotStuffMessage)
  /-- A turn of the loop of `start`. -/
  | propose (timestamp : U64)
  /-- The timer reads the view. -/
  | tick
  /-- The timer writes the view, if it has found it unchanged. -/
  | expire
  deriving DecidableEq

namespace HotStuffConsensus

/-- One turn of a task. -/
def next (env : HotStuffEnv) (node : HotStuffConsensus) : HotStuffAction → HotStuffConsensus
  | .deliver msg => if node.looping then node.handle env msg else node
  | .propose timestamp => if node.proposing then node.proposeIfLeader env timestamp else node
  | .tick => if node.timing ∧ node.timeout.isNone then node.readView else node
  | .expire =>
    match node.timeout with
    | some current => node.writeView env current
    | none => node

/-- A list of turns. -/
def run (env : HotStuffEnv) (node : HotStuffConsensus) (actions : List HotStuffAction) :
    HotStuffConsensus :=
  actions.foldl (next env) node

/-! ## What the samples share -/

/-- A hash that tells the blocks of the samples apart. -/
def sampleHotStuffEnv (reentrantLocks : Bool) : HotStuffEnv where
  sha256 bytes := Vector.ofFn fun i => bytes.getD i 0
  overflowChecks := true
  serializeBlock block :=
    toBeBytes 8 block.height ++ toBeBytes 8 block.timestamp ++ toBeBytes 8 block.view
  reentrantLocks

/-- The ids of four validators. -/
def sampleIds : List (List UInt8) := [[0, 0, 0, 0], [0, 0, 0, 1], [0, 0, 0, 2], [0, 0, 0, 3]]

end HotStuffConsensus

end InterBit.Consensus
