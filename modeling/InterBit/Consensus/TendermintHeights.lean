import InterBit.Consensus.TendermintCommit

/-!
# The heights of the blocks

A node makes one block for each height and sends it when it leaves the height. `Numbered`
is the invariant: the blocks that have been sent are numbered from 1, and a node that is
not between two heights works on the next number.

The height is a `u64`. With overflow checks the node stops before the number is too large;
without them the count goes on at 0 after `2 ^ 64 - 1`, and `height_comes_again` is a run of
`2 ^ 64 + 1` heights.
-/

namespace InterBit.Consensus.Tendermint

open InterBit.Lib

variable {env : TendermintEnv}

/-- The states in which the node has a block for its height. -/
def ConsensusState.HasBlock (state : ConsensusState) : Prop :=
  state = .prevote ∨ state = .precommit ∨ state = .commit

namespace TendermintConsensus

/-- The number of the height that the node is at. -/
def heightNumber (node : TendermintConsensus) : Nat :=
  if node.state = .newHeight then node.sent.length else node.sent.length + 1

/-- The blocks are numbered from 1. -/
def NumberedBlocks (blocks : List Block) : Prop :=
  blocks.map (·.height) = (List.range blocks.length).map fun i => BitVec.ofNat 64 (i + 1)

/-- The blocks that have been sent are numbered in order, and so is the one being made. -/
structure Numbered (env : TendermintEnv) (node : TendermintConsensus) : Prop where
  sent : NumberedBlocks node.sent
  height : node.height = BitVec.ofNat 64 node.heightNumber
  bound : env.overflowChecks = true → node.heightNumber < 2 ^ 64
  valid : ∀ block, node.validBlock = some block →
    block.height = node.height ∧ node.state ≠ .newHeight
  made : node.state.HasBlock → node.validBlock.isSome

/-- A new node has sent nothing. -/
theorem numbered_new (env : TendermintEnv) (validators : List (List UInt8)) :
    (new validators).Numbered env :=
  ⟨rfl, rfl, fun _ => Nat.two_pow_pos 64, fun _ h => (nomatch h),
    fun h => by rcases h with h | h | h <;> cases h⟩

/-- The next block has the next height. -/
theorem NumberedBlocks.concat {blocks : List Block} {block : Block} (h : NumberedBlocks blocks)
    (hblock : block.height = BitVec.ofNat 64 (blocks.length + 1)) :
    NumberedBlocks (blocks ++ [block]) := by
  rw [NumberedBlocks, List.map_append, h, List.length_append, List.length_singleton,
    List.range_succ, List.map_append, List.map_singleton, List.map_singleton, hblock]

/-! ## What the first half of a turn does -/

/-- A step within a height that keeps the block. -/
theorem Numbered.of_within {node node' : TendermintConsensus} (h : node.Numbered env)
    (hsent : node'.sent = node.sent) (hheight : node'.height = node.height)
    (hblock : node'.validBlock = node.validBlock)
    (hnew : node'.state = .newHeight ↔ node.state = .newHeight)
    (hmade : node'.state.HasBlock → node.state.HasBlock) : node'.Numbered env := by
  have hnumber : node'.heightNumber = node.heightNumber := by
    unfold heightNumber
    rw [hsent]
    exact if_congr hnew rfl rfl
  refine ⟨hsent ▸ h.sent, ?_, ?_, fun block hvalid => ?_, fun hstate => ?_⟩
  · rw [hheight, hnumber, h.height]
  · rw [hnumber]
    exact h.bound
  · rw [hblock] at hvalid
    rw [hheight, Ne, hnew]
    exact h.valid block hvalid
  · rw [hblock]
    exact h.made (hmade hstate)

variable {node : TendermintConsensus}

/-- A new height is the one after the last block sent. -/
theorem Numbered.newHeight (h : node.Numbered env) (hstate : node.state = .newHeight) :
    (node.startNewHeight env).Numbered env := by
  have hnumber : node.heightNumber = node.sent.length := if_pos hstate
  unfold startNewHeight
  split
  next height hadd =>
    -- the next height is the number of the next block
    obtain ⟨rfl, hbound⟩ := Build.add64_eq_some hadd
    have hheight := h.height
    rw [hnumber] at hheight
    refine ⟨h.sent, ?_, fun hchecks => ?_, fun block hvalid => ?_, fun hmade => ?_⟩
    · show node.height + 1 = BitVec.ofNat 64 (node.sent.length + 1)
      rw [hheight, BitVec.ofNat_add]
      rfl
    · have hlt := h.bound hchecks
      have hroom := hbound hchecks
      rw [hnumber] at hlt
      rw [hheight, BitVec.toNat_ofNat, Nat.mod_eq_of_lt hlt] at hroom
      exact hroom
    · exact absurd hstate (h.valid block hvalid).2
    · rcases hmade with hmade | hmade | hmade <;> cases hmade
  next =>
    -- overflow: the node stops
    exact h.of_within rfl rfl rfl Iff.rfl id

/-- A block that is proposed is for the height. -/
theorem Numbered.propose (h : node.Numbered env) (hstate : node.state = .propose) (timestamp : U64)
    (progress : Progress) :
    (node.handlePropose env timestamp progress).Numbered env := by
  have hsame : (if progress = .nothing then ConsensusState.propose else .prevote) ≠ .newHeight := by
    split <;> decide
  have hnumber : node.heightNumber = node.sent.length + 1 := if_neg (by rw [hstate]; decide)
  unfold handlePropose
  split
  next =>
    dsimp only
    split
    next =>
      -- there is room in the channel for the vote, and the block is kept
      have hnext : heightNumber { node with
          state := if progress = .nothing then ConsensusState.propose else .prevote }
          = node.heightNumber := (if_neg hsame).trans hnumber.symm
      refine ⟨h.sent, ?_, fun hchecks => ?_, fun block hvalid => ?_, fun _ => rfl⟩
      · exact h.height.trans (congrArg _ hnext.symm)
      · exact Nat.lt_of_le_of_lt hnext.le (h.bound hchecks)
      · exact ⟨Option.some.inj hvalid ▸ rfl, hsame⟩
    next => exact h.of_within rfl rfl rfl Iff.rfl id
  next => exact h.of_within rfl rfl rfl Iff.rfl id

/-- Prevotes do not change the height. -/
theorem Numbered.prevote (h : node.Numbered env) (hstate : node.state = .prevote)
    (progress : Progress) :
    (node.handlePrevote progress).Numbered env := by
  have hmade : node.state.HasBlock := Or.inl hstate
  unfold handlePrevote
  split
  next =>
    refine h.of_within rfl rfl rfl ?_ fun _ => hmade
    simp [hstate]
  next =>
    refine h.of_within rfl rfl rfl ?_ fun _ => hmade
    dsimp only
    split <;> simp [hstate]

/-- Precommits do not change the height. -/
theorem Numbered.precommit (h : node.Numbered env) (hstate : node.state = .precommit)
    (progress : Progress) :
    (node.handlePrecommit env progress).Numbered env := by
  have hmade : node.state.HasBlock := Or.inr (Or.inl hstate)
  unfold handlePrecommit startNewRound
  split
  next =>
    -- on to Commit, with the block of the height
    refine h.of_within rfl rfl rfl ?_ fun _ => hmade
    simp [hstate]
  next =>
    split
    next => exact h
    next =>
      split
      next =>
        -- a new round of the same height
        refine h.of_within rfl rfl rfl ?_ fun _ => hmade
        dsimp only
        split <;> simp [hstate]
      next => exact h.of_within rfl rfl rfl Iff.rfl id

/-- A commit sends the block of the height. -/
theorem Numbered.commit (h : node.Numbered env) (hstate : node.state = .commit) :
    node.handleCommit.Numbered env := by
  have hnumber : node.heightNumber = node.sent.length + 1 := if_neg (by rw [hstate]; decide)
  unfold handleCommit
  split
  next block hvalid =>
    -- the block of the height is sent, and nothing is left of it
    have hheight := (h.valid block hvalid).1.trans (h.height.trans (congrArg _ hnumber))
    have hnext : (resetRoundState { node with
        sent := node.sent ++ [block], state := .newHeight }).heightNumber = node.heightNumber := by
      rw [hnumber]
      exact List.length_append
    refine ⟨h.sent.concat hheight, ?_, fun hchecks => ?_, fun _ hnone => (nomatch hnone),
      fun hmade => ?_⟩
    · exact h.height.trans (congrArg _ hnext.symm)
    · exact Nat.lt_of_le_of_lt hnext.le (h.bound hchecks)
    · rcases hmade with hmade | hmade | hmade <;> cases hmade
  next => exact h

/-- Each state keeps the heights in order. -/
theorem Numbered.handleState (h : node.Numbered env) (timestamp : U64) (progress : Progress) :
    (node.handleState env timestamp progress).Numbered env := by
  unfold TendermintConsensus.handleState
  split
  next hstate => exact h.newHeight hstate
  next hstate => exact h.propose hstate timestamp progress
  next hstate => exact h.prevote hstate progress
  next hstate => exact h.precommit hstate progress
  next hstate => exact h.commit hstate

/-! ## A whole run -/

theorem Numbered.next {node : TendermintConsensus} (h : node.Numbered env)
    (action : TendermintAction) : (node.next env action).Numbered env := by
  cases action with
  | arrive vote =>
    rw [TendermintConsensus.next]
    split
    next => exact h.of_within rfl rfl rfl Iff.rfl id
    next => exact h
  | handle timestamp progress =>
    rw [TendermintConsensus.next]
    split
    next => exact (h.handleState timestamp progress).of_within rfl rfl rfl Iff.rfl id
    next => exact h
  | process =>
    rw [TendermintConsensus.next]
    split
    next => exact h.of_within rfl rfl rfl Iff.rfl id
    next => exact h

theorem Numbered.run (h : node.Numbered env) (actions : List TendermintAction) :
    (actions.foldl (TendermintConsensus.next env) node).Numbered env := by
  induction actions generalizing node with
  | nil => exact h
  | cons action actions ih => exact ih (h.next action)

/-- The blocks that a node sends are numbered from 1 in order, as far as a `u64` goes; with
overflow checks that is all of them. In the states after the proposal there is a block for
the height. -/
theorem sent_numbered (env : TendermintEnv) (validators : List (List UInt8))
    (actions : List TendermintAction) :
    let node := actions.foldl (TendermintConsensus.next env) (new validators)
    (∀ (i : Nat) (block : Block), node.sent[i]? = some block →
        block.height = BitVec.ofNat 64 (i + 1)) ∧
      (env.overflowChecks = true → node.sent.length < 2 ^ 64) ∧
      (node.state = .prevote ∨ node.state = .precommit ∨ node.state = .commit →
        ∃ block, node.validBlock = some block ∧ block.height = node.height) := by
  intro node
  have h : node.Numbered env := (numbered_new env validators).run actions
  refine ⟨fun i block hget => ?_, fun hchecks => ?_, fun hstate => ?_⟩
  · have hheights : (node.sent.map (·.height))[i]? = some block.height := by
      rw [List.getElem?_map, hget]
      rfl
    rw [h.sent, List.getElem?_map] at hheights
    obtain ⟨j, hj, hheight⟩ := Option.map_eq_some_iff.mp hheights
    obtain ⟨_, rfl⟩ := List.getElem?_eq_some_iff.mp hj
    rw [← hheight, List.getElem_range]
  · refine Nat.lt_of_le_of_lt ?_ (h.bound hchecks)
    unfold heightNumber
    split <;> omega
  · obtain ⟨block, hvalid⟩ := Option.isSome_iff_exists.mp (h.made hstate)
    exact ⟨block, hvalid, (h.valid block hvalid).1⟩

/-! ## A count that comes round -/

/-- The precommit of the only validator in round 0. -/
def loneVote (height : U64) : Vote where
  height
  round := 0
  voteType := .precommit
  blockHash := none
  validator := [1]
  signature := []

/-- The node passes through one height. -/
def passHeight (height : U64) : List TendermintAction :=
  [.handle 0 .all, .process, .handle 0 .all, .arrive (loneVote height), .process,
    .handle 0 .all, .process, .handle 0 .all, .process, .handle 0 .all, .process]

/-- The node passes through the heights up to `n`. -/
def passHeights : Nat → List TendermintAction
  | 0 => []
  | n + 1 => passHeights n ++ passHeight (BitVec.ofNat 64 (n + 1))

/-- A node with one validator between two heights. -/
def between (height : U64) (sent : List Block) : TendermintConsensus :=
  { new [[1]] with height, sent }

theorem passHeight_spec (hchecks : env.overflowChecks = false) (height : U64)
    (sent : List Block) :
    (passHeight (height + 1)).foldl (next env) (between height sent)
      = between (height + 1) (sent ++ [(between (height + 1) sent).createBlock 0]) := by
  simp [passHeight, next, TendermintConsensus.handleState, between, new, startNewHeight,
    Build.add64, hchecks, handlePropose, isProposer, voteCapacity, handlePrevote, hasTwoThirds,
    processVotes, handlePrecommit, handleCommit, resetRoundState, createBlock, Vote.key, loneVote,
    pushAll]

/-- A build without overflow checks. -/
def releaseEnv : TendermintEnv := { World.sampleEnv with overflowChecks := false }

/-- The node with one validator after `n` heights. -/
def passed (n : Nat) : TendermintConsensus :=
  (passHeights n).foldl (next releaseEnv) (new [[1]])

/-- Nothing stops the node. -/
theorem passed_spec (n : Nat) : ∃ sent : List Block, sent.length = n ∧
    passed n = between (BitVec.ofNat 64 n) sent := by
  induction n with
  | zero => exact ⟨[], rfl, rfl⟩
  | succ n ih =>
    obtain ⟨sent, hlength, hrun⟩ := ih
    have hsucc : BitVec.ofNat 64 (n + 1) = BitVec.ofNat 64 n + 1 := BitVec.ofNat_add ..
    have hblock : (sent ++ [(between (BitVec.ofNat 64 n + 1) sent).createBlock 0]).length
        = n + 1 := by
      rw [List.length_append, hlength, List.length_singleton]
    refine ⟨_, hblock, ?_⟩
    rw [passed] at hrun ⊢
    rw [passHeights, List.foldl_append, hrun, hsucc, passHeight_spec rfl]

theorem length_sent_passed (n : Nat) : (passed n).sent.length = n := by
  obtain ⟨sent, hlength, hrun⟩ := passed_spec n
  rw [hrun]
  exact hlength

/-- The numbers of so many blocks do not fit into a `u64`. -/
theorem NumberedBlocks.repeats {blocks : List Block} (h : NumberedBlocks blocks)
    (hlong : 2 ^ 64 < blocks.length) :
    blocks.map (·.height.toNat) ≠ (List.range blocks.length).map (· + 1) ∧
      ¬ (blocks.map (·.height)).Nodup := by
  have hget : ∀ i, i < blocks.length →
      (blocks.map (·.height))[i]? = some (BitVec.ofNat 64 (i + 1)) := by
    intro i hi
    rw [h, List.getElem?_map, List.getElem?_range hi]
    rfl
  have hsame : (blocks.map (·.height))[0]? = (blocks.map (·.height))[2 ^ 64]? := by
    rw [hget 0 (by omega), hget _ hlong]
    decide
  have hnodup : ¬ (blocks.map (·.height)).Nodup := by
    intro hnodup
    have hzero := (List.getElem?_inj (by rw [List.length_map]; omega) hnodup).mp hsame
    omega
  refine ⟨fun hcount => hnodup ?_, hnodup⟩
  -- Numbers in order would all be different.
  refine List.Nodup.of_map BitVec.toNat ?_
  rw [List.map_map]
  exact hcount ▸ List.nodup_range.map (fun _ _ => Nat.succ.inj)

/-- The block after number `2 ^ 64 - 1` has height 0, and the one after it is the second block
of height 1. -/
theorem height_comes_again :
    (passed (2 ^ 64 + 1)).sent.map (·.height.toNat)
        ≠ (List.range (passed (2 ^ 64 + 1)).sent.length).map (· + 1) ∧
      ¬ ((passed (2 ^ 64 + 1)).sent.map (·.height)).Nodup := by
  have hnumbered : NumberedBlocks (passed (2 ^ 64 + 1)).sent :=
    ((numbered_new releaseEnv [[1]]).run (passHeights (2 ^ 64 + 1))).sent
  exact hnumbered.repeats (by rw [length_sent_passed]; exact Nat.lt_succ_self _)

end TendermintConsensus

end InterBit.Consensus.Tendermint
