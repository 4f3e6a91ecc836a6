import InterBit.Lib.Trace
import InterBit.Consensus.Tendermint

/-!
# Precommits behind a block

A block should be sent only if enough validators have precommitted it. The boxes are for a
height, a round and a type, and what counts is the number of votes in a box: whose they are,
how often they came and which block they name is not looked at, and `handle_commit` sends
what `valid_block` holds.

A ghost has the votes that have really been cast. `Genuine` says what would have to hold of
the precommits, and `commits_sound` that then each block that is sent has its validators
behind it.
-/

namespace InterBit.Consensus.Tendermint

open InterBit.Lib

variable {env : TendermintEnv}

/-- A node, and the votes that have been cast. -/
structure World where
  node : TendermintConsensus
  cast : List Vote

/-- A vote is cast, or the node acts. -/
inductive Event where
  | casts (vote : Vote)
  | acts (action : TendermintAction)

/-- The precommits of a node for a height and a round: those in the box, and those that are
still in the channel. -/
def TendermintConsensus.precommits (node : TendermintConsensus) (height : U64) (round : U32) :
    List Vote :=
  bucket node.votes (height, round, .precommit)
    ++ node.voteRx.filter (Vote.key · = (height, round, .precommit))

/-- The block that an action sends. -/
def TendermintConsensus.sends (node : TendermintConsensus) : TendermintAction → Option Block
  | .handle _ _ =>
    if node.running ∧ node.processing = false ∧ node.state = .commit then node.validBlock else none
  | _ => none

namespace World

/-- A fresh node, and no votes. -/
def start (validators : List (List UInt8)) : World where
  node := .new validators
  cast := []

/-- One event. -/
def next (env : TendermintEnv) (world : World) : Event → World
  | .casts vote => { world with cast := world.cast ++ [vote] }
  | .acts action => { world with node := world.node.next env action }

/-- Enough members have cast a precommit for the block in the round. -/
def Precommitted (env : TendermintEnv) (world : World) (block : Block) (round : U32) : Prop :=
  Quorum world.node.validators
    (fun validator => ∃ vote ∈ world.cast, vote.validator = validator ∧
      vote.height = block.height ∧ vote.round = round ∧ vote.voteType = .precommit ∧
      vote.blockHash = some (env.hashBlock block))
    (world.node.validators.length * 2 / 3 + 1)

/-- What the event sends has been precommitted in the round of the node. -/
def Sound (env : TendermintEnv) (world : World) (event : Event) : Prop :=
  ∀ block, (world.next env event).node.sent = world.node.sent ++ [block] →
    world.Precommitted env block world.node.round

/-- What a precommit has to be: it has been cast by a member of whom there is none yet for the
height and the round, and when the node goes on to commit, those in the box name its block. -/
def Genuine (env : TendermintEnv) (world : World) : Event → Prop
  | .acts (.arrive vote) => vote.voteType = .precommit →
      vote.validator ∈ world.node.validators ∧ vote ∈ world.cast ∧
        vote.validator ∉ (world.node.precommits vote.height vote.round).map (·.validator)
  | .acts (.handle _ _) => world.node.state = .precommit → world.node.hasTwoThirds .precommit →
      ∀ block, world.node.validBlock = some block →
        ∀ vote ∈ bucket world.node.votes (world.node.height, world.node.round, .precommit),
          vote.blockHash = some (env.hashBlock block)
  | _ => True

/-- The precommits that have been counted are genuine and of different members, the block is of
the height of the node, and it is precommitted once the node is about to commit. -/
structure CommitInv (env : TendermintEnv) (world : World) : Prop where
  tally : ∀ height round, Tally world.node.validators (·.validator)
    (fun vote => vote ∈ world.cast ∧ vote.key = (height, round, .precommit))
    (world.node.precommits height round)
  height : ∀ block, world.node.validBlock = some block →
    block.height = world.node.height ∧ world.node.state ≠ .newHeight
  commit : world.node.state = .commit → ∀ block, world.node.validBlock = some block →
    world.Precommitted env block world.node.round

theorem commitInv_start (validators : List (List UInt8)) : (start validators).CommitInv env :=
  ⟨fun _ _ => .nil, fun _ h => (nomatch h), fun h => nomatch h⟩

/-! ## What the first half of a turn does -/

variable {world : World}

/-- A step that changes neither votes nor validators, and after which the node does not
commit, keeps the invariant. -/
theorem CommitInv.of_uncommitted {node : TendermintConsensus}
    (h : world.CommitInv env) (hvalidators : node.validators = world.node.validators)
    (htally : ∀ height round, (node.precommits height round).Sublist
      (world.node.precommits height round))
    (hheight : ∀ block, node.validBlock = some block →
      block.height = node.height ∧ node.state ≠ .newHeight)
    (hstate : node.state ≠ .commit) :
    CommitInv env { world with node } where
  tally height round := by
    rw [hvalidators]
    exact (h.tally height round).sublist (htally height round)
  height := hheight
  commit hcommit := absurd hcommit hstate

/-- A new height begins with nothing locked. -/
theorem CommitInv.newHeight (h : world.CommitInv env) (hstate : world.node.state = .newHeight) :
    CommitInv env { world with node := world.node.startNewHeight env } := by
  have hnone : world.node.validBlock = none := by
    cases hblock : world.node.validBlock with
    | none => rfl
    | some block => exact absurd hstate (h.height block hblock).2
  unfold TendermintConsensus.startNewHeight
  split
  next =>
    refine h.of_uncommitted rfl (fun _ _ => List.Sublist.refl _) (fun block hblock => ?_)
      (fun hcommit => nomatch hcommit)
    cases hnone.symm.trans hblock
  next => exact ⟨h.tally, h.height, h.commit⟩

theorem CommitInv.propose (h : world.CommitInv env) (timestamp : U64) (progress : Progress) :
    CommitInv env { world with node := world.node.handlePropose env timestamp progress } := by
  unfold TendermintConsensus.handlePropose
  split
  next =>
    dsimp only
    split
    next =>
      refine h.of_uncommitted rfl (fun height round => ?_) (fun block hblock => ?_) ?_
      · -- The vote of the node itself is a prevote.
        simp [TendermintConsensus.precommits, Vote.key]
      · refine ⟨(Option.some.inj hblock) ▸ rfl, ?_⟩
        dsimp only
        split
        next => decide
        next => decide
      · dsimp only
        split
        next => decide
        next => decide
    next => exact ⟨h.tally, h.height, h.commit⟩
  next => exact ⟨h.tally, h.height, h.commit⟩

/-- Prevotes may lock the block. -/
theorem CommitInv.prevote (h : world.CommitInv env) (progress : Progress) :
    CommitInv env { world with node := world.node.handlePrevote progress } := by
  unfold TendermintConsensus.handlePrevote
  split
  next =>
    refine h.of_uncommitted rfl (fun _ _ => List.Sublist.refl _) (fun block hblock => ?_)
      (fun hcommit => nomatch hcommit)
    exact ⟨(h.height block hblock).1, fun hnew => nomatch hnew⟩
  next =>
    refine h.of_uncommitted rfl (fun _ _ => List.Sublist.refl _)
      (fun block hblock => ⟨(h.height block hblock).1, ?_⟩) ?_
    · dsimp only
      split
      next => decide
      next => decide
    · dsimp only
      split
      next => decide
      next => decide

/-- The votes in the box are enough, and they name the block. -/
theorem precommitted_of_box (h : world.CommitInv env)
    (henough : world.node.hasTwoThirds .precommit = true) {block : Block}
    (hblock : world.node.validBlock = some block)
    (hnamed : ∀ vote ∈ bucket world.node.votes (world.node.height, world.node.round, .precommit),
      vote.blockHash = some (env.hashBlock block)) :
    world.Precommitted env block world.node.round := by
  have htally := (h.tally world.node.height world.node.round).sublist
    (List.sublist_append_left _ _)
  -- All votes of the box have been cast, for its height and its round.
  refine htally.quorum (of_decide_eq_true henough) fun vote hmem hgenuine => ?_
  obtain ⟨hcast, hkey⟩ := hgenuine
  have hheight : vote.height = world.node.height := congrArg (·.1) hkey
  exact ⟨vote, hcast, rfl, hheight.trans (h.height block hblock).1.symm,
    congrArg (·.2.1) hkey, congrArg (·.2.2) hkey, hnamed vote hmem⟩

/-- Precommits commit the valid block, if it is the one that they name. -/
theorem CommitInv.precommit (h : world.CommitInv env)
    (hstate : world.node.state = .precommit)
    (hnamed : world.node.hasTwoThirds .precommit → ∀ block, world.node.validBlock = some block →
      ∀ vote ∈ bucket world.node.votes (world.node.height, world.node.round, .precommit),
        vote.blockHash = some (env.hashBlock block)) (progress : Progress) :
    CommitInv env { world with node := world.node.handlePrecommit env progress } := by
  unfold TendermintConsensus.handlePrecommit
  split
  next henough =>
    refine ⟨h.tally, fun block hblock => ⟨(h.height block hblock).1, fun hnew => nomatch hnew⟩,
      fun _ block hblock => ?_⟩
    exact precommitted_of_box h henough hblock (hnamed henough block hblock)
  next =>
    unfold TendermintConsensus.startNewRound
    split
    next => exact h
    next =>
      split
      next =>
        rw [hstate]
        refine h.of_uncommitted rfl (fun _ _ => List.Sublist.refl _)
          (fun block hblock => ⟨(h.height block hblock).1, ?_⟩) ?_
        · dsimp only
          split
          next => decide
          next => decide
        · dsimp only
          split
          next => decide
          next => decide
      next => exact ⟨h.tally, h.height, h.commit⟩

/-- A committed block is sent. -/
theorem CommitInv.commits (h : world.CommitInv env) :
    CommitInv env { world with node := world.node.handleCommit } := by
  unfold TendermintConsensus.handleCommit
  split
  next block _ =>
    refine h.of_uncommitted rfl (fun height round => ?_) (fun _ hblock => nomatch hblock)
      (fun hcommit => nomatch hcommit)
    exact List.sublist_append_right ..
  next => exact h

/-- Each state keeps the invariant. -/
theorem CommitInv.handleState (h : world.CommitInv env) (timestamp : U64) (progress : Progress)
    (hok : world.Genuine env (.acts (.handle timestamp progress))) :
    CommitInv env { world with node := world.node.handleState env timestamp progress } := by
  unfold TendermintConsensus.handleState
  split
  next hstate => exact h.newHeight hstate
  next => exact h.propose timestamp progress
  next => exact h.prevote progress
  next hstate => exact h.precommit hstate (hok hstate) progress
  next => exact h.commits

/-! ## Votes -/

/-- A vote that is cast is one more in the network. -/
theorem CommitInv.casts (h : world.CommitInv env) (vote : Vote) :
    (world.next env (.casts vote)).CommitInv env := by
  have hcast : world.cast ⊆ world.cast ++ [vote] := List.subset_append_left ..
  refine ⟨fun height round => ?_, h.height, fun hstate block hblock => ?_⟩
  · exact (h.tally height round).mono fun other hother => ⟨hcast hother.1, hother.2⟩
  · refine Quorum.mono (h.commit hstate block hblock) fun validator hvalidator => ?_
    obtain ⟨other, hmem, hrest⟩ := hvalidator
    exact ⟨other, hcast hmem, hrest⟩

/-- A vote that arrives was cast. -/
theorem CommitInv.arrives (h : world.CommitInv env) {vote : Vote}
    (hok : world.Genuine env (.acts (.arrive vote))) :
    (world.next env (.acts (.arrive vote))).CommitInv env := by
  rw [next, TendermintConsensus.next]
  split
  next =>
    refine ⟨fun height round => ?_, h.height, h.commit⟩
    by_cases hkey : vote.key = (height, round, .precommit)
    · have htype : vote.voteType = .precommit := congrArg (·.2.2) hkey
      obtain ⟨hmember, hcast, hnew⟩ := hok htype
      rw [show vote.height = height from congrArg (·.1) hkey,
        show vote.round = round from congrArg (·.2.1) hkey] at hnew
      have hprecommits : TendermintConsensus.precommits
          { world.node with voteRx := world.node.voteRx ++ [vote] } height round
          = world.node.precommits height round ++ [vote] := by
        simp [TendermintConsensus.precommits, hkey]
      rw [hprecommits]
      exact (h.tally height round).concat hmember ⟨hcast, hkey⟩ hnew
    · have hprecommits : TendermintConsensus.precommits
          { world.node with voteRx := world.node.voteRx ++ [vote] } height round
          = world.node.precommits height round := by
        simp [TendermintConsensus.precommits, hkey]
      rw [hprecommits]
      exact h.tally height round
  next => exact h

/-- `process_votes` moves the precommits from the channel into the boxes. -/
theorem processVotes_precommits (node : TendermintConsensus) (height : U64) (round : U32) :
    node.processVotes.precommits height round = node.precommits height round := by
  show bucket (pushAll node.votes Vote.key node.voteRx) _ ++ [] = _
  rw [bucket_pushAll, List.append_nil]
  rfl

/-- Every event keeps the invariant. -/
theorem CommitInv.next {world : World} {event : Event} (h : world.CommitInv env)
    (hok : world.Genuine env event) : (world.next env event).CommitInv env := by
  cases event with
  | casts vote => exact h.casts vote
  | acts action =>
    cases action with
    | arrive vote => exact h.arrives hok
    | handle timestamp progress =>
      rw [World.next, TendermintConsensus.next]
      split
      next =>
        have hnext := h.handleState timestamp progress hok
        exact ⟨hnext.tally, hnext.height, hnext.commit⟩
      next => exact h
    | process =>
      rw [World.next, TendermintConsensus.next]
      split
      next =>
        refine ⟨fun height round => ?_, h.height, h.commit⟩
        have htally := h.tally height round
        rw [← processVotes_precommits] at htally
        exact htally
      next => exact h

/-! ## What is sent -/

/-- A block is sent in the state `Commit` only. -/
theorem handleState_sent (env : TendermintEnv) (node : TendermintConsensus) (timestamp : U64)
    (progress : Progress) :
    (node.handleState env timestamp progress).sent
      = node.sent ++ (if node.state = .commit then node.validBlock else none).toList := by
  unfold TendermintConsensus.handleState
  cases node.state with
  | newHeight =>
    -- only the state `Commit` sends anything
    refine Eq.trans ?_ (List.append_nil _).symm
    unfold TendermintConsensus.startNewHeight
    dsimp only
    split
    next => rfl
    next => rfl
  | propose =>
    refine Eq.trans ?_ (List.append_nil _).symm
    unfold TendermintConsensus.handlePropose
    dsimp only
    split
    next =>
      split
      next => rfl
      next => rfl
    next => rfl
  | prevote =>
    refine Eq.trans ?_ (List.append_nil _).symm
    unfold TendermintConsensus.handlePrevote
    dsimp only
    split
    next => rfl
    next => rfl
  | precommit =>
    refine Eq.trans ?_ (List.append_nil _).symm
    unfold TendermintConsensus.handlePrecommit TendermintConsensus.startNewRound
    dsimp only
    split
    next => rfl
    next =>
      split
      next => rfl
      next =>
        split
        next => rfl
        next => rfl
  | commit =>
    unfold TendermintConsensus.handleCommit
    cases node.validBlock with
    | some block => rfl
    | none => exact (List.append_nil _).symm

/-- Only `handle_commit` sends a block. -/
theorem next_sent (env : TendermintEnv) (node : TendermintConsensus) (action : TendermintAction) :
    (node.next env action).sent = node.sent ++ (node.sends action).toList := by
  cases action with
  | arrive vote =>
    refine Eq.trans ?_ (List.append_nil _).symm
    rw [TendermintConsensus.next]
    split
    next => rfl
    next => rfl
  | handle timestamp progress =>
    rw [TendermintConsensus.next, TendermintConsensus.sends]
    by_cases hturn : node.running = true ∧ node.processing = false
    · rw [if_pos hturn]
      simp only [hturn, true_and]
      exact handleState_sent env node timestamp progress
    · rw [if_neg hturn, if_neg fun h => hturn ⟨h.1, h.2.1⟩]
      exact (List.append_nil _).symm
  | process =>
    refine Eq.trans ?_ (List.append_nil _).symm
    rw [TendermintConsensus.next]
    split
    next => rfl
    next => rfl

/-- What is sent under the invariant has the votes behind it. -/
theorem sound_of_inv (h : world.CommitInv env) (event : Event) : world.Sound env event := by
  intro block hsent
  cases event with
  | casts vote =>
    have hne : world.node.sent ≠ world.node.sent ++ [block] := by simp
    exact absurd hsent hne
  | acts action =>
    rw [World.next, next_sent] at hsent
    have hsends : world.node.sends action = some block :=
      Option.toList_eq_singleton_iff.mp (List.append_cancel_left hsent)
    cases action with
    | arrive vote => cases hsends
    | handle timestamp progress =>
      rw [TendermintConsensus.sends, Option.ite_none_right_eq_some] at hsends
      obtain ⟨⟨_, _, hstate⟩, hblock⟩ := hsends
      exact h.commit hstate block hblock
    | process => cases hsends

/-- In a run in which all precommits are genuine, every block that is sent has been precommitted
by enough validators. -/
theorem commits_sound (env : TendermintEnv) (validators : List (List UInt8))
    (events : List Event) (h : Always (next env) (Genuine env) (start validators) events) :
    Always (next env) (Sound env) (start validators) events :=
  h.mono (commitInv_start validators) (fun _ _ => CommitInv.next)
    fun _ event hinv _ => sound_of_inv hinv event

/-! ## Two samples -/

/-- A hash that tells the blocks of the samples apart. -/
def sampleEnv : TendermintEnv where
  sha256 bytes := Vector.ofFn fun i => bytes.getD i 0
  overflowChecks := true
  serializeBlock block := toBeBytes 8 block.height ++ toBeBytes 8 block.timestamp

/-- The keys of four validators. -/
def sampleKeys : List (List UInt8) := [[1], [2], [3], [4]]

/-- The block that the node makes at height 1. -/
def sampleBlock : Block where
  height := 1
  timestamp := 0
  previousHash := Vector.replicate 32 0
  stateRoot := Vector.replicate 32 0
  transactions := []
  proposer := [1, 2, 3]

/-- The precommit of a validator for height 1 and round 0. -/
def samplePrecommit (blockHash : Option H256) (validator : UInt8) : Vote where
  height := 1
  round := 0
  voteType := .precommit
  blockHash
  validator := [validator]
  signature := []

/-- A turn of the loop. -/
def turn : List Event := [.acts (.handle 0 .all), .acts .process]

/-- The node makes a block, three validators cast precommits, these arrive, and the node goes
on to commit. -/
def sampleRound (blockHash : Option H256) : List Event :=
  turn ++ turn ++ [.acts (.handle 0 .all)]
    ++ [1, 2, 3].map (fun validator => Event.casts (samplePrecommit blockHash validator))
    ++ [1, 2, 3].map (fun validator => Event.acts (.arrive (samplePrecommit blockHash validator)))
    ++ [.acts .process] ++ turn

/-- The precommits of the sample are genuine if they name the block. -/
theorem commits_sound_sample :
    Always (next sampleEnv) (Sound sampleEnv) (start sampleKeys)
      (sampleRound (some (sampleEnv.hashBlock sampleBlock)) ++ [.acts (.handle 0 .all)]) := by
  refine commits_sound sampleEnv sampleKeys _
    ⟨fun h => ?_, trivial, fun h => ?_, trivial, fun h => ?_, trivial, trivial, trivial,
      fun _ => ?_, fun _ => ?_, fun _ => ?_, trivial, fun _ _ block hblock => ?_, trivial,
      fun h => ?_, trivial⟩
  · exact absurd h (by decide +kernel)
  · exact absurd h (by decide +kernel)
  · exact absurd h (by decide +kernel)
  · decide +kernel
  · decide +kernel
  · decide +kernel
  · have hsame : some sampleBlock = some block := hblock ▸ (by decide +kernel)
    obtain rfl := Option.some.inj hsame
    decide +kernel
  · exact absurd h (by decide +kernel)

/-- Three validators precommit no block, and the node sends its block. -/
theorem nilPrecommits_send_block :
    ((sampleRound none ++ [Event.acts (.handle 0 .all)]).foldl (next sampleEnv)
      (start sampleKeys)).node.sent = [sampleBlock] ∧
    ¬ Always (next sampleEnv) (Sound sampleEnv) (start sampleKeys)
      (sampleRound none ++ [.acts (.handle 0 .all)]) := by
  refine ⟨by decide +kernel, fun h => ?_⟩
  let last := (sampleRound none).foldl (next sampleEnv) (start sampleKeys)
  have hcommitted : last.Precommitted sampleEnv sampleBlock last.node.round :=
    (Always.append.mp h).2.1 sampleBlock (by decide +kernel)
  have hcast : last.cast = [1, 2, 3].map (samplePrecommit none) := by decide +kernel
  -- None of the votes that have been cast names the block.
  have hle : 3 ≤ ([] : List (List UInt8)).length :=
    Nat.le_trans (by decide +kernel) (hcommitted.le_length fun validator hvalidator => by
      obtain ⟨vote, hmem, _, _, _, _, hnamed⟩ := hvalidator
      rw [hcast] at hmem
      obtain ⟨_, _, rfl⟩ := List.mem_map.mp hmem
      cases hnamed)
  exact absurd hle (by decide)

end World

end InterBit.Consensus.Tendermint
