import InterBit.Lib.Locks
import InterBit.Consensus.HotStuff
import InterBit.Consensus.TendermintHeights

/-!
# The locks of the consensus handlers

`handle_proposal` of the HotStuff node and a turn of the Tendermint loop, with the locks they
take. A guard that `let` binds, or one in the scrutinee of an `if let`, is held to the end of
its block. As if the locks were re-entrant, both do what the models without locks do.

They are not re-entrant. `update` holds `b_leaf` when `get_block` reads it, so that
`handle_proposal` waits for ever as soon as it accepts a proposal. `handle_commit` reads
`valid_block` when `reset_round_state` writes it, so that the loop waits for ever at its first
block.
-/

namespace InterBit.Consensus

open InterBit.Lib

/-! ## HotStuff -/

/-- The locks of `HotStuffConsensus` that `handle_proposal` takes. -/
inductive HotStuffLock where
  | view
  | height
  | bLock
  | bExec
  | bLeaf
  deriving DecidableEq

namespace HotStuffLocks

variable (env : HotStuffEnv)

/-- `get_block`. -/
def getBlock (hash : H256) :
    Routine HotStuffLock HotStuffConsensus (Option HotStuffBlock) := do
  match ← .guarded ⟨.bLeaf, .read⟩ (.get fun node => node.bLeaf.filter (env.hashBlock · = hash)) with
  | some block => return some block
  | none =>
    .guarded ⟨.bLock, .read⟩ (.get fun node => node.bLock.filter (env.hashBlock · = hash))

/-- `commit_block`. -/
def commitBlock (block : HotStuffBlock) : Routine HotStuffLock HotStuffConsensus Unit :=
  .guarded ⟨.bExec, .write⟩ do
    .modify fun node => { node with bExec := some block, sent := node.sent ++ [block] }
    .guarded ⟨.height, .write⟩ do
      let height ← .get fun node => env.add64 node.height 1
      let height ← .orPanic height
      .modify fun node => { node with height }

/-- `update`. -/
def update (block : HotStuffBlock) (qc : QuorumCertificate) :
    Routine HotStuffLock HotStuffConsensus Unit :=
  .guarded ⟨.bLeaf, .write⟩ do
    .modify fun node => { node with bLeaf := some block }
    match ← getBlock env block.parentHash with
    | some parent =>
      if qc.blockHash = env.hashBlock parent then
        .guarded ⟨.bLock, .write⟩ do
          .modify fun node => { node with bLock := some parent }
          match ← getBlock env parent.parentHash with
          | some grandparent =>
            if parent.qc.blockHash = env.hashBlock grandparent then commitBlock env grandparent
            else return ()
          | none => return ()
      else return ()
    | none => return ()

/-- `handle_proposal`. Nothing after `update` takes a lock. -/
def handleProposal (proposal : ProposalMsg) : Routine HotStuffLock HotStuffConsensus Unit := do
  let view ← .guarded ⟨.view, .read⟩ (.get (·.view))
  if proposal.view = view then
    let valid ← .get fun node =>
      (node.verifyQc proposal.justify && HotStuffConsensus.verifyBlock proposal.block : Bool)
    if valid then
      update env proposal.block proposal.justify
      .modify (·.voteForBlock env proposal.block)
    else return ()
  else return ()

/-- What is left of the node when the call has ended. -/
def settle : Ending HotStuffLock Unit × HotStuffConsensus → HotStuffConsensus
  | (.returned _, node) => node
  | (.blocked _, node) => { node with leafHeld := true, looping := false }
  | (_, node) => { node with looping := false }

variable {env}

theorem getBlock_reentrant (hash : H256) (node : HotStuffConsensus) :
    (getBlock env hash).reentrant node = (.returned (node.getBlock env hash), node) := by
  rw [getBlock, Routine.reentrant_bind, Routine.reentrant_guarded, Routine.reentrant_get,
    HotStuffConsensus.getBlock]
  dsimp only [Routine.andThen]
  cases node.bLeaf.filter (env.hashBlock · = hash) with
  | some block => rfl
  | none => exact Routine.reentrant_guarded ..

/-- The call returns with the node, or it panics and the node stops. -/
def EndsAs (r : Ending HotStuffLock Unit × HotStuffConsensus) (node : HotStuffConsensus) : Prop :=
  (r = (.returned (), node) ∧ node.looping = true) ∨
    ∃ left, r = (.panicked, left) ∧ node = { left with looping := false }

theorem commitBlock_reentrant (block : HotStuffBlock) {node : HotStuffConsensus}
    (hlooping : node.looping = true) :
    EndsAs ((commitBlock env block).reentrant node) (node.commitBlock env block) := by
  rw [commitBlock, Routine.reentrant_guarded, Routine.reentrant_bind, Routine.reentrant_modify,
    Routine.andThen, Routine.reentrant_guarded, Routine.reentrant_bind, Routine.reentrant_get,
    Routine.andThen, HotStuffConsensus.commitBlock]
  dsimp only
  cases env.add64 node.height 1 with
  | some height => exact Or.inl ⟨rfl, hlooping⟩
  | none => exact Or.inr ⟨_, rfl, rfl⟩

theorem update_reentrant (hlocks : env.reentrantLocks = true) (block : HotStuffBlock)
    (qc : QuorumCertificate) {node : HotStuffConsensus} (hlooping : node.looping = true) :
    EndsAs ((update env block qc).reentrant node) (node.update env block qc) := by
  rw [update, Routine.reentrant_guarded, Routine.reentrant_bind, Routine.reentrant_modify,
    Routine.andThen, Routine.reentrant_bind, getBlock_reentrant, HotStuffConsensus.update]
  dsimp only [Routine.andThen]
  rw [if_pos hlocks]
  cases HotStuffConsensus.getBlock env { node with bLeaf := some block } block.parentHash with
  | none => exact Or.inl ⟨rfl, hlooping⟩
  | some parent =>
    dsimp only
    split
    next =>
      -- two blocks in a row
      rw [Routine.reentrant_guarded, Routine.reentrant_bind, Routine.reentrant_modify,
        Routine.andThen, Routine.reentrant_bind, getBlock_reentrant]
      dsimp only [Routine.andThen]
      cases HotStuffConsensus.getBlock env { node with bLeaf := some block, bLock := some parent }
          parent.parentHash with
      | none => exact Or.inl ⟨rfl, hlooping⟩
      | some grandparent =>
        dsimp only
        split
        next =>
          -- three in a row: the first is committed
          exact commitBlock_reentrant grandparent hlooping
        next => exact Or.inl ⟨rfl, hlooping⟩
    next => exact Or.inl ⟨rfl, hlooping⟩

theorem accepts_eq (node : HotStuffConsensus) (proposal : ProposalMsg) :
    node.accepts proposal = (decide (proposal.view = node.view) &&
      (node.verifyQc proposal.justify && HotStuffConsensus.verifyBlock proposal.block)) := by
  simp [HotStuffConsensus.accepts]

/-- As if the locks were re-entrant, the routine does what the model without locks does. -/
theorem handleProposal_reentrant (hlocks : env.reentrantLocks = true) (proposal : ProposalMsg)
    {node : HotStuffConsensus} (hlooping : node.looping = true) :
    settle ((handleProposal env proposal).reentrant node) = node.handleProposal env proposal := by
  rw [handleProposal, Routine.reentrant_bind, Routine.reentrant_guarded, Routine.reentrant_get,
    Routine.andThen, HotStuffConsensus.handleProposal, accepts_eq]
  by_cases hview : proposal.view = node.view
  · rw [if_pos hview, decide_eq_true hview, Bool.true_and, Routine.reentrant_bind,
      Routine.reentrant_get, Routine.andThen]
    split
    next =>
      rw [Routine.reentrant_bind]
      rcases update_reentrant hlocks proposal.block proposal.justify hlooping with
        ⟨hreturned, hstill⟩ | ⟨left, hpanicked, hnode⟩
      · rw [hreturned, if_pos hstill]
        rfl
      · rw [hpanicked, hnode]
        rfl
    next => rfl
  · rw [if_neg hview, decide_eq_false hview]
    rfl

/-- `get_block` asks for `b_leaf` before anything else. -/
theorem update_alone (block : HotStuffBlock) (qc : QuorumCertificate) (node : HotStuffConsensus)
    (next : Routine HotStuffLock HotStuffConsensus Unit) :
    (update env block qc >>= fun _ => next).alone node
      = (.blocked ⟨.bLeaf, .read⟩, { node with bLeaf := some block }) := by
  rfl

/-- The call waits for a lock that it holds exactly if it accepts the proposal. -/
theorem handleProposal_alone (proposal : ProposalMsg) (node : HotStuffConsensus) :
    (handleProposal env proposal).alone node =
      if node.accepts proposal then
        (.blocked ⟨.bLeaf, .read⟩, { node with bLeaf := some proposal.block })
      else (.returned (), node) := by
  have hread : (handleProposal env proposal).alone node
      = (if proposal.view = node.view then do
          let valid ← .get fun node =>
            (node.verifyQc proposal.justify && HotStuffConsensus.verifyBlock proposal.block : Bool)
          if valid then
            update env proposal.block proposal.justify
            .modify (·.voteForBlock env proposal.block)
          else return ()
        else return () : Routine HotStuffLock HotStuffConsensus Unit).alone node := rfl
  rw [hread, accepts_eq]
  by_cases hview : proposal.view = node.view
  · rw [if_pos hview, decide_eq_true hview, Bool.true_and]
    show (if (node.verifyQc proposal.justify && HotStuffConsensus.verifyBlock proposal.block)
      then _ else _ : Routine HotStuffLock HotStuffConsensus Unit).alone node = _
    split
    next => exact update_alone ..
    next => rfl
  · rw [if_neg hview, decide_eq_false hview]
    rfl

/-- Since the locks are not re-entrant, the node waits for ever, as the model without locks
says. -/
theorem settle_handleProposal (hlocks : env.reentrantLocks = false) (proposal : ProposalMsg)
    (node : HotStuffConsensus) :
    settle ((handleProposal env proposal).alone node) = node.handleProposal env proposal := by
  rw [handleProposal_alone, HotStuffConsensus.handleProposal, HotStuffConsensus.update]
  split
  next =>
    rw [hlocks]
    rfl
  next => rfl

end HotStuffLocks

/-! ## Tendermint -/

namespace Tendermint

/-- The locks of `TendermintConsensus`. -/
inductive TendermintLock where
  | height
  | round
  | state
  | validators
  | votes
  | lockedBlock
  | lockedRound
  | validBlock
  | validRound
  | voteRx
  deriving DecidableEq

namespace TendermintLocks

/-- A part of the loop. -/
abbrev Part (α : Type) := Routine TendermintLock TendermintConsensus α

/-- A value that is read under its lock, which is released at once. -/
def peek {α : Type} (lock : TendermintLock) (f : TendermintConsensus → α) : Part α :=
  .guarded ⟨lock, .read⟩ (.get f)

variable (env : TendermintEnv)

/-- `start_new_height`. -/
def startNewHeight : Part Unit :=
  .guarded ⟨.height, .write⟩ do
    let height ← .get fun node => env.add64 node.height 1
    let height ← .orPanic height
    .modify fun node => { node with height }
    .guarded ⟨.round, .write⟩ do
      .modify fun node => { node with round := 0 }
      .guarded ⟨.state, .write⟩ (.modify fun node => { node with state := .propose })

/-- `is_proposer`. -/
def isProposer (height : U64) (round : U32) : Part Bool :=
  .guarded ⟨.validators, .read⟩ do
    let proposer ← .get fun node => { node with height, round }.isProposer env
    .orPanic proposer

/-- `handle_propose`. -/
def handlePropose (timestamp : U64) (progress : Progress) : Part Unit := do
  let height ← peek .height (·.height)
  let round ← peek .round (·.round)
  let _ ← isProposer env height round
  let block ← peek .height (·.createBlock timestamp)
  let vote : Vote := {
    height, round, voteType := .prevote, blockHash := some (env.hashBlock block)
    validator := [1, 2, 3], signature := [] }
  .await (fun node => node.voteRx.length < TendermintConsensus.voteCapacity) (.ret ())
  .modify fun node => { node with voteRx := node.voteRx ++ [vote] }
  .guarded ⟨.validBlock, .write⟩ (.modify fun node => { node with validBlock := some block })
  if progress = .nothing then return ()
  else .guarded ⟨.state, .write⟩ (.modify fun node => { node with state := .prevote })

/-- `has_two_thirds_prevotes` and `has_two_thirds_precommits`. -/
def hasTwoThirds (voteType : VoteType) (height : U64) (round : U32) : Part Bool :=
  .guarded ⟨.votes, .read⟩ <| .guarded ⟨.validators, .read⟩ <|
    .get fun node => { node with height, round }.hasTwoThirds voteType

/-- `handle_prevote`. -/
def handlePrevote (progress : Progress) : Part Unit := do
  let height ← peek .height (·.height)
  let round ← peek .round (·.round)
  let enough ← hasTwoThirds .prevote height round
  if enough then
    .guarded ⟨.state, .write⟩ (.modify fun node => { node with state := .precommit })
  else if progress = .nothing then return ()
  else .guarded ⟨.state, .write⟩ (.modify fun node => { node with state := .precommit })

/-- `start_new_round`, inside of a `timeout`. -/
def startNewRound (progress : Progress) : Part Unit :=
  if progress = .nothing then return ()
  else
    .guarded ⟨.round, .write⟩ do
      let round ← .get fun node => env.succ32 node.round
      let round ← .orPanic round
      .modify fun node => { node with round }
      if progress = .all then
        .guarded ⟨.state, .write⟩ (.modify fun node => { node with state := .propose })
      else return ()

/-- `handle_precommit`. -/
def handlePrecommit (progress : Progress) : Part Unit := do
  let height ← peek .height (·.height)
  let round ← peek .round (·.round)
  let enough ← hasTwoThirds .precommit height round
  if enough then
    .guarded ⟨.state, .write⟩ (.modify fun node => { node with state := .commit })
  else startNewRound env progress

/-- `reset_round_state`. -/
def resetRoundState : Part Unit :=
  .guarded ⟨.votes, .write⟩ do
    .modify fun node => { node with votes := ∅ }
    .guarded ⟨.lockedBlock, .write⟩ <| .guarded ⟨.lockedRound, .write⟩ <|
      .guarded ⟨.validBlock, .write⟩ do
        .modify fun node => { node with validBlock := none }
        .guarded ⟨.validRound, .write⟩ (.ret ())

/-- `handle_commit`. The guard of the scrutinee lives as long as the `if let`. -/
def handleCommit : Part Unit :=
  .guarded ⟨.validBlock, .read⟩ do
    match ← .get (·.validBlock) with
    | some block =>
      .modify fun node => { node with sent := node.sent ++ [block] }
      .guarded ⟨.state, .write⟩ do
        .modify fun node => { node with state := .newHeight }
        resetRoundState
    | none => return ()

/-- What the loop does for the state. -/
def handleState (timestamp : U64) (progress : Progress) : Part Unit := do
  match ← peek .state (·.state) with
  | .newHeight => startNewHeight env
  | .propose => handlePropose env timestamp progress
  | .prevote => handlePrevote progress
  | .precommit => handlePrecommit env progress
  | .commit => handleCommit

/-- The loop of `process_votes` for the votes in the channel. -/
def drain : List Vote → Part Unit
  | [] => return ()
  | vote :: votes => do
    .modify fun node => { node with voteRx := node.voteRx.tail }
    .guarded ⟨.votes, .write⟩
      (.modify fun node => { node with votes := pushVote node.votes vote.key vote })
    drain votes

/-- `process_votes`. -/
def processVotes : Part Unit :=
  .guarded ⟨.voteRx, .write⟩ do
    let votes ← .get (·.voteRx)
    drain votes

/-- An iteration of the loop of `start`. -/
def iteration (timestamp : U64) (progress : Progress) : Part Unit := do
  handleState env timestamp progress
  processVotes

/-- What is left of the node. -/
def settle : Ending TendermintLock Unit × TendermintConsensus → TendermintConsensus
  | (.returned _, node) => node
  | (_, node) => { node with running := false }

variable {env}

/-! ### As if the locks were re-entrant -/

theorem peek_bind {α β : Type} (lock : TendermintLock) (f : TendermintConsensus → α)
    (next : α → Part β) (node : TendermintConsensus) :
    (peek lock f >>= next).reentrant node = (next (f node)).reentrant node := by
  rw [Routine.reentrant_bind, peek, Routine.reentrant_guarded, Routine.reentrant_get]
  rfl

theorem modify_bind {β : Type} (f : TendermintConsensus → TendermintConsensus)
    (next : Unit → Part β) (node : TendermintConsensus) :
    (Routine.modify f >>= next).reentrant node = (next ()).reentrant (f node) := rfl

theorem get_bind {α β : Type} (f : TendermintConsensus → α) (next : α → Part β)
    (node : TendermintConsensus) :
    (Routine.get f >>= next).reentrant node = (next (f node)).reentrant node := rfl

theorem startNewHeight_reentrant (node : TendermintConsensus) :
    settle ((startNewHeight env).reentrant node) = node.startNewHeight env := by
  rw [startNewHeight, Routine.reentrant_guarded, get_bind, TendermintConsensus.startNewHeight]
  cases env.add64 node.height 1 with
  | some height => rfl
  | none => rfl

theorem isProposer_bind {β : Type} (next : Bool → Part β) (node : TendermintConsensus) :
    (isProposer env node.height node.round >>= next).reentrant node
      = match node.isProposer env with
        | some proposer => (next proposer).reentrant node
        | none => (.panicked, node) := by
  rw [Routine.reentrant_bind, isProposer, Routine.reentrant_guarded, get_bind]
  show Routine.andThen ((Routine.orPanic (node.isProposer env)).reentrant node) _ = _
  cases node.isProposer env with
  | none => rfl
  | some proposer => rfl

theorem await_bind {β : Type} (ready : TendermintConsensus → Bool) (next : Unit → Part β)
    (node : TendermintConsensus) : (Routine.await ready (.ret ()) >>= next).reentrant node
      = if ready node then (next ()).reentrant node else (.starved, node) := rfl

/-- The state `Propose`, guard by guard. -/
theorem handlePropose_reentrant (timestamp : U64) (progress : Progress)
    {node : TendermintConsensus} (hstate : node.state = .propose) :
    settle ((handlePropose env timestamp progress).reentrant node)
      = node.handlePropose env timestamp progress := by
  rw [handlePropose, peek_bind, peek_bind, isProposer_bind, TendermintConsensus.handlePropose]
  cases node.isProposer env with
  | none => rfl
  | some proposer =>
    dsimp only
    rw [peek_bind, await_bind]
    by_cases hroom : node.voteRx.length < TendermintConsensus.voteCapacity
    · rw [if_pos (decide_eq_true hroom), if_pos hroom]
      cases progress with
      | nothing =>
        cases node
        obtain rfl := hstate
        rfl
      | first => rfl
      | all => rfl
    · rw [if_neg (by simpa using hroom), if_neg hroom]
      rfl

theorem hasTwoThirds_bind {β : Type} (voteType : VoteType) (next : Bool → Part β)
    (node : TendermintConsensus) :
    (hasTwoThirds voteType node.height node.round >>= next).reentrant node
      = (next (node.hasTwoThirds voteType)).reentrant node := by
  rw [Routine.reentrant_bind, hasTwoThirds, Routine.reentrant_guarded, Routine.reentrant_guarded]
  rfl

/-- The state `Prevote`, guard by guard. -/
theorem handlePrevote_reentrant (progress : Progress) {node : TendermintConsensus}
    (hstate : node.state = .prevote) :
    settle ((handlePrevote progress).reentrant node) = node.handlePrevote progress := by
  rw [handlePrevote, peek_bind, peek_bind, hasTwoThirds_bind, TendermintConsensus.handlePrevote]
  split
  next => rfl
  next =>
    cases progress with
    | nothing =>
      cases node
      obtain rfl := hstate
      rfl
    | first => rfl
    | all => rfl

/-- The state `Precommit`, guard by guard. -/
theorem handlePrecommit_reentrant (progress : Progress) (node : TendermintConsensus) :
    settle ((handlePrecommit env progress).reentrant node) = node.handlePrecommit env progress := by
  rw [handlePrecommit, peek_bind, peek_bind, hasTwoThirds_bind,
    TendermintConsensus.handlePrecommit]
  split
  next => rfl
  next =>
    rw [startNewRound, TendermintConsensus.startNewRound]
    split
    next => rfl
    next =>
      rw [Routine.reentrant_guarded, get_bind]
      cases env.succ32 node.round with
      | none => rfl
      | some round =>
        cases progress with
        | nothing => rfl
        | first => rfl
        | all => rfl

/-- The state `Commit`, guard by guard. -/
theorem handleCommit_reentrant (node : TendermintConsensus) :
    settle (handleCommit.reentrant node) = node.handleCommit := by
  rw [handleCommit, Routine.reentrant_guarded, get_bind, TendermintConsensus.handleCommit]
  cases node.validBlock with
  | none => rfl
  | some block => rfl

/-- As if the locks were re-entrant, the first half of an iteration does what the model without
locks does. -/
theorem handleState_reentrant (timestamp : U64) (progress : Progress)
    (node : TendermintConsensus) :
    settle ((handleState env timestamp progress).reentrant node)
      = node.handleState env timestamp progress := by
  rw [handleState, peek_bind, TendermintConsensus.handleState]
  cases hstate : node.state with
  | newHeight => exact startNewHeight_reentrant node
  | propose => exact handlePropose_reentrant timestamp progress hstate
  | prevote => exact handlePrevote_reentrant progress hstate
  | precommit => exact handlePrecommit_reentrant progress node
  | commit => exact handleCommit_reentrant node

/-- The loop takes all votes that have arrived. -/
theorem drain_reentrant (votes : List Vote) (node : TendermintConsensus) :
    (drain votes).reentrant node = (.returned (), { node with
      votes := pushAll node.votes Vote.key votes
      voteRx := node.voteRx.drop votes.length }) := by
  induction votes generalizing node with
  | nil => rfl
  | cons vote votes ih =>
    rw [drain, modify_bind, Routine.reentrant_bind, Routine.reentrant_guarded,
      Routine.reentrant_modify, Routine.andThen, ih, List.length_cons, ← List.drop_tail]
    rfl

/-- The second half. -/
theorem processVotes_reentrant (node : TendermintConsensus) :
    processVotes.reentrant node = (.returned (), node.processVotes) := by
  rw [processVotes, Routine.reentrant_guarded, get_bind, drain_reentrant, List.drop_length]
  rfl

/-! ### Alone -/

theorem follows_peek {α : Type} (lock : TendermintLock) (f : TendermintConsensus → α) :
    (peek lock f).Follows Harmless [] [] :=
  Routine.follows_guarded (by simp [Harmless]) (Routine.follows_get f _)

theorem follows_write (lock : TendermintLock) (f : TendermintConsensus → TendermintConsensus) :
    (Routine.guarded ⟨lock, .write⟩ (.modify f) : Part Unit).Follows Harmless [] [] :=
  Routine.follows_guarded (by simp [Harmless]) (Routine.follows_modify f _)

theorem follows_startNewHeight : (startNewHeight env).Follows Harmless [] [] := by
  refine Routine.follows_guarded (by decide) ?_
  refine (Routine.follows_get _ _).bind fun height => ?_
  refine (Routine.follows_orPanic height _).bind fun height => ?_
  refine (Routine.follows_modify _ _).bind fun _ => Routine.follows_guarded (by decide) ?_
  refine (Routine.follows_modify _ _).bind fun _ => Routine.follows_guarded (by decide) ?_
  exact Routine.follows_modify _ _

/-- The state `Propose` never asks for a lock that it holds. -/
theorem follows_handlePropose (timestamp : U64) (progress : Progress) :
    (handlePropose env timestamp progress).Follows Harmless [] [] := by
  refine (follows_peek _ _).bind fun height => (follows_peek _ _).bind fun round => ?_
  have hproposer : (isProposer env height round).Follows Harmless [] [] :=
    Routine.follows_guarded (by decide)
      ((Routine.follows_get _ _).bind fun proposer => Routine.follows_orPanic proposer _)
  refine hproposer.bind fun _ => (follows_peek _ _).bind fun block => ?_
  refine (Routine.follows_await _ _).bind fun _ => ?_
  refine (Routine.follows_modify _ _).bind fun _ => (follows_write _ _).bind fun _ => ?_
  split
  next => rfl
  next => exact follows_write _ _

theorem follows_hasTwoThirds (voteType : VoteType) (height : U64) (round : U32) :
    (hasTwoThirds voteType height round).Follows Harmless [] [] :=
  Routine.follows_guarded (by decide) (Routine.follows_guarded (by decide) (Routine.follows_get _ _))

theorem follows_handlePrevote (progress : Progress) :
    (handlePrevote progress).Follows Harmless [] [] := by
  refine (follows_peek _ _).bind fun height => (follows_peek _ _).bind fun round => ?_
  refine (follows_hasTwoThirds _ _ _).bind fun enough => ?_
  split
  next => exact follows_write _ _
  next =>
    split
    next => rfl
    next => exact follows_write _ _

/-- The state `Precommit` never asks for a lock that it holds. -/
theorem follows_handlePrecommit (progress : Progress) :
    (handlePrecommit env progress).Follows Harmless [] [] := by
  refine (follows_peek _ _).bind fun height => (follows_peek _ _).bind fun round => ?_
  refine (follows_hasTwoThirds _ _ _).bind fun enough => ?_
  split
  next => exact follows_write _ _
  next =>
    unfold startNewRound
    split
    next => rfl
    next =>
      refine Routine.follows_guarded (by decide) ((Routine.follows_get _ _).bind fun round => ?_)
      refine (Routine.follows_orPanic round _).bind fun round => ?_
      refine (Routine.follows_modify _ _).bind fun _ => ?_
      split
      next => exact Routine.follows_guarded (by decide) (Routine.follows_modify _ _)
      next => rfl

theorem follows_processVotes : processVotes.Follows Harmless [] [] := by
  refine Routine.follows_guarded (by decide) ((Routine.follows_get _ _).bind fun votes => ?_)
  induction votes with
  | nil => rfl
  | cons vote votes ih =>
    refine (Routine.follows_modify _ _).bind fun _ => Routine.Follows.bind ?_ fun _ => ih
    exact Routine.follows_guarded (by decide) (Routine.follows_modify _ _)

/-- The part of the iteration for the state, after the state has been read. -/
theorem iteration_alone (timestamp : U64) (progress : Progress) (node : TendermintConsensus) :
    (iteration env timestamp progress).alone node =
      ((match node.state with
        | .newHeight => startNewHeight env
        | .propose => handlePropose env timestamp progress
        | .prevote => handlePrevote progress
        | .precommit => handlePrecommit env progress
        | .commit => handleCommit) >>= fun _ => processVotes).alone node := rfl

/-- An iteration waits for a lock that it holds exactly if it sends a block. -/
theorem iteration_blocked (timestamp : U64) (progress : Progress) (node : TendermintConsensus) :
    ((iteration env timestamp progress).alone node).1.isBlocked = true ↔
      node.state = .commit ∧ node.validBlock.isSome := by
  have hfree : ∀ part : Part Unit, part.Follows Harmless [] [] →
      ((part >>= fun _ => processVotes).alone node).1.isBlocked = false := fun part hpart =>
    (hpart.bind fun _ => follows_processVotes).not_blocked node
  rw [iteration_alone]
  cases node.state with
  | newHeight => simp [hfree _ follows_startNewHeight]
  | propose => simp [hfree _ (follows_handlePropose timestamp progress)]
  | prevote => simp [hfree _ (follows_handlePrevote progress)]
  | precommit => simp [hfree _ (follows_handlePrecommit progress)]
  | commit =>
    cases hblock : node.validBlock with
    | none =>
      -- without a block the iteration does nothing
      have hskip : (handleCommit >>= fun _ => processVotes).alone node
          = processVotes.alone node := by
        cases node
        obtain rfl := hblock
        rfl
      have hdone : (processVotes.alone node).1.isBlocked = false :=
        follows_processVotes.not_blocked node
      rw [hskip, hdone]
      simp
    | some block =>
      -- `reset_round_state` has reached `valid_block`.
      have hstuck : (handleCommit >>= fun _ => processVotes).alone node
          = (.blocked ⟨.validBlock, .write⟩, { node with
              sent := node.sent ++ [block], state := .newHeight, votes := ∅ }) := by
        cases node
        obtain rfl := hblock
        rfl
      rw [hstuck]
      simp [Ending.isBlocked]

end TendermintLocks

end Tendermint

/-! ## When the nodes go on -/

/-- `handle_proposal` does not wait for a lock that it holds exactly if it rejects the proposal,
and an iteration of the Tendermint loop exactly if the node is not about to send a block; in the
states that a node reaches that is whenever it is not in the state Commit. -/
theorem self_deadlock_free_iff (env : HotStuffEnv) (env' : Tendermint.TendermintEnv)
    (timestamp : U64) (progress : Tendermint.Progress) :
    (∀ (node : HotStuffConsensus) (proposal : ProposalMsg),
      ((HotStuffLocks.handleProposal env proposal).alone node).1.isBlocked = false ↔
        node.accepts proposal = false) ∧
    (∀ node : Tendermint.TendermintConsensus,
      ((Tendermint.TendermintLocks.iteration env' timestamp progress).alone node).1.isBlocked
          = false ↔ ¬ (node.state = .commit ∧ node.validBlock.isSome)) ∧
    (∀ (validators : List (List UInt8)) (actions : List Tendermint.TendermintAction),
      let node := actions.foldl (Tendermint.TendermintConsensus.next env') (.new validators)
      ((Tendermint.TendermintLocks.iteration env' timestamp progress).alone node).1.isBlocked
          = false ↔ node.state ≠ .commit) := by
  have hturn : ∀ node : Tendermint.TendermintConsensus,
      ((Tendermint.TendermintLocks.iteration env' timestamp progress).alone node).1.isBlocked
          = false ↔ ¬ (node.state = .commit ∧ node.validBlock.isSome) := by
    intro node
    rw [← Tendermint.TendermintLocks.iteration_blocked timestamp progress, Bool.not_eq_true]
  refine ⟨fun node proposal => ?_, hturn, fun validators actions => ?_⟩
  · rw [HotStuffLocks.handleProposal_alone]
    cases node.accepts proposal with
    | true => simp [Ending.isBlocked]
    | false => simp [Ending.isBlocked]
  · intro node
    rw [hturn]
    -- A node that is about to commit has made a block.
    have hnumbered : node.Numbered env' :=
      (Tendermint.TendermintConsensus.numbered_new env' validators).run actions
    exact not_congr ⟨And.left, fun hstate => ⟨hstate, hnumbered.made (Or.inr (Or.inr hstate))⟩⟩

/-- The proposal of a first block, with the signature of the only validator. -/
def firstProposal : ProposalMsg where
  block := {
    height := 1, view := 0, parentHash := Vector.replicate 32 0
    qc := HotStuffConsensus.genesisQc, transactions := [], timestamp := 0 }
  justify := {
    blockHash := Vector.replicate 32 0, view := 0
    signatures := [{ validatorId := [0, 0, 0, 0], signature := [] }] }
  view := 0
  sender := [0, 0, 0, 0]

/-- A fresh HotStuff node waits for ever at its first proposal, and a Tendermint node at its first
block. -/
theorem first_block_freezes :
    ((HotStuffLocks.handleProposal (HotStuffConsensus.sampleHotStuffEnv false) firstProposal).alone
        (.new [0, 0, 0, 0] [[0, 0, 0, 0]])).1 = .blocked ⟨.bLeaf, .read⟩ ∧
    ((Tendermint.TendermintLocks.iteration Tendermint.World.sampleEnv 0 .all).alone
        (((Tendermint.TendermintConsensus.passHeight 1).take 9).foldl
          (Tendermint.TendermintConsensus.next Tendermint.World.sampleEnv) (.new [[1]]))).1
      = .blocked ⟨.validBlock, .write⟩ := by
  exact ⟨by decide +kernel, by decide +kernel⟩

end InterBit.Consensus
