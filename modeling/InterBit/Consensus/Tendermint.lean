import InterBit.Lib.Ballots
import InterBit.Core.Bytes

/-!
# The Tendermint node

`consensus/tendermint.rs`. The loop of `start` alternates between a turn of the state
machine and `process_votes`; votes arrive in the channel at any time.

A `timeout` around the assignment of a state runs out only if the locks are held by
`get_metrics` for so long. That is a free choice here: an action says how far the body of
its timeout gets. `locked_block`, `locked_round` and `valid_round` are only ever reset and
are left out.
-/

namespace InterBit.Consensus.Tendermint

open InterBit.Lib

abbrev U32 := BitVec 32

/-- `struct Transaction` of this module. -/
structure Transaction where
  nonce : U64
  sender : Address
  recipient : Option Address
  value : U128
  data : List UInt8
  gasLimit : U64
  gasPrice : U128
  signature : List UInt8
  deriving DecidableEq

/-- `struct Block`. -/
structure Block where
  height : U64
  timestamp : U64
  previousHash : H256
  stateRoot : H256
  transactions : List Transaction
  proposer : List UInt8
  deriving DecidableEq

/-- `enum ConsensusState`. -/
inductive ConsensusState where
  | newHeight
  | propose
  | prevote
  | precommit
  | commit
  deriving DecidableEq

/-- `enum VoteType`. -/
inductive VoteType where
  | prevote
  | precommit
  deriving DecidableEq

/-- `struct Vote`. -/
structure Vote where
  height : U64
  round : U32
  voteType : VoteType
  blockHash : Option H256
  validator : List UInt8
  signature : List UInt8
  deriving DecidableEq

/-- The box that a vote is put into. -/
def Vote.key (vote : Vote) : U64 × U32 × VoteType := (vote.height, vote.round, vote.voteType)

/-- What a node takes from outside the repository. -/
structure TendermintEnv extends Env where
  /-- `bincode::serialize` of a block. -/
  serializeBlock : Block → List UInt8

/-- `hash_block`. -/
def TendermintEnv.hashBlock (env : TendermintEnv) (block : Block) : H256 :=
  env.sha256 (env.serializeBlock block)

/-- How far the body of a `timeout` gets before it runs out. -/
inductive Progress where
  | nothing
  /-- The first of its assignments is made. -/
  | first
  | all
  deriving DecidableEq

/-- The state of a node. -/
structure TendermintConsensus where
  height : U64
  round : U32
  state : ConsensusState
  /-- The public keys of the validators. -/
  validators : List (List UInt8)
  votes : AList fun _ : U64 × U32 × VoteType => List Vote
  validBlock : Option Block
  /-- The votes in the channel. -/
  voteRx : List Vote
  /-- What has been sent on `block_tx`. -/
  sent : List Block
  /-- The state machine has had its turn, and `process_votes` is next. -/
  processing : Bool
  /-- The loop neither has panicked nor waits for ever. -/
  running : Bool

namespace TendermintConsensus

/-- `TendermintConsensus::new`. -/
def new (validators : List (List UInt8)) : TendermintConsensus where
  height := 0
  round := 0
  state := .newHeight
  validators
  votes := ∅
  validBlock := none
  voteRx := []
  sent := []
  processing := false
  running := true

/-- The capacity of the channel for votes. -/
def voteCapacity : Nat := 1000

/-- `start_new_height`. -/
def startNewHeight (env : TendermintEnv) (node : TendermintConsensus) : TendermintConsensus :=
  match env.add64 node.height 1 with
  | some height => { node with height, round := 0, state := .propose }
  | none => { node with running := false }

/-- `is_proposer`, which is always true; `none` is an overflow, or the division by zero
without validators. -/
def isProposer (env : TendermintEnv) (node : TendermintConsensus) : Option Bool :=
  (env.add64 node.height (node.round.setWidth 64)).bind fun _ =>
    if node.validators = [] then none else some true

/-- `create_block`. -/
def createBlock (node : TendermintConsensus) (timestamp : U64) : Block where
  height := node.height
  timestamp
  previousHash := Vector.replicate 32 0
  stateRoot := Vector.replicate 32 0
  transactions := []
  proposer := [1, 2, 3]

/-- `handle_propose`. -/
def handlePropose (env : TendermintEnv) (node : TendermintConsensus) (timestamp : U64)
    (progress : Progress) : TendermintConsensus :=
  match node.isProposer env with
  | some _ =>
    let block := node.createBlock timestamp
    let vote : Vote := {
      height := node.height, round := node.round, voteType := .prevote
      blockHash := some (env.hashBlock block), validator := [1, 2, 3], signature := [] }
    if node.voteRx.length < voteCapacity then
      { node with
        voteRx := node.voteRx ++ [vote]
        validBlock := some block
        state := if progress = .nothing then .propose else .prevote }
    -- The loop itself would have to make room in the channel.
    else { node with running := false }
  | none => { node with running := false }

/-- `has_two_thirds_prevotes` and `has_two_thirds_precommits`. -/
def hasTwoThirds (node : TendermintConsensus) (voteType : VoteType) : Bool :=
  node.validators.length * 2 / 3 + 1 ≤ (bucket node.votes (node.height, node.round, voteType)).length

/-- `handle_prevote`. -/
def handlePrevote (node : TendermintConsensus) (progress : Progress) : TendermintConsensus :=
  if node.hasTwoThirds .prevote then { node with state := .precommit }
  else { node with state := if progress = .nothing then .prevote else .precommit }

/-- `start_new_round`, inside of a `timeout`. -/
def startNewRound (env : TendermintEnv) (node : TendermintConsensus) (progress : Progress) :
    TendermintConsensus :=
  if progress = .nothing then node
  else
    match env.succ32 node.round with
    | some round => { node with round, state := if progress = .all then .propose else node.state }
    | none => { node with running := false }

/-- `handle_precommit`. -/
def handlePrecommit (env : TendermintEnv) (node : TendermintConsensus) (progress : Progress) :
    TendermintConsensus :=
  if node.hasTwoThirds .precommit then { node with state := .commit }
  else node.startNewRound env progress

/-- `reset_round_state`. -/
def resetRoundState (node : TendermintConsensus) : TendermintConsensus :=
  { node with votes := ∅, validBlock := none }

/-- `handle_commit`. -/
def handleCommit (node : TendermintConsensus) : TendermintConsensus :=
  match node.validBlock with
  | some block => { node with sent := node.sent ++ [block], state := .newHeight }.resetRoundState
  | none => node

/-- What the loop does for the state. -/
def handleState (env : TendermintEnv) (node : TendermintConsensus) (timestamp : U64)
    (progress : Progress) : TendermintConsensus :=
  match node.state with
  | .newHeight => node.startNewHeight env
  | .propose => node.handlePropose env timestamp progress
  | .prevote => node.handlePrevote progress
  | .precommit => node.handlePrecommit env progress
  | .commit => node.handleCommit

/-- `process_votes`. -/
def processVotes (node : TendermintConsensus) : TendermintConsensus :=
  { node with votes := pushAll node.votes Vote.key node.voteRx, voteRx := [] }

end TendermintConsensus

/-- What can happen next. -/
inductive TendermintAction where
  /-- A vote arrives, if the channel has room for it. -/
  | arrive (vote : Vote)
  /-- The first half of a turn of the loop. -/
  | handle (timestamp : U64) (progress : Progress)
  /-- The second half. -/
  | process
  deriving DecidableEq

namespace TendermintConsensus

/-- One action; the halves of a turn alternate. -/
def next (env : TendermintEnv) (node : TendermintConsensus) :
    TendermintAction → TendermintConsensus
  | .arrive vote =>
    if node.voteRx.length < voteCapacity then { node with voteRx := node.voteRx ++ [vote] }
    else node
  | .handle timestamp progress =>
    if node.running ∧ node.processing = false then
      { node.handleState env timestamp progress with processing := true }
    else node
  | .process =>
    if node.running ∧ node.processing then { node.processVotes with processing := false }
    else node

end TendermintConsensus

end InterBit.Consensus.Tendermint
