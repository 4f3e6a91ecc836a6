import InterBit.Consensus.HotStuffTurns
import InterBit.Consensus.ThreeChain

/-!
# For what a HotStuff node votes

A node should vote for one block in each view, and, once it has locked a block, only for what
extends it or has a newer certificate. Nobody remembers a vote. A leader proposes every ten
milliseconds as long as its view lasts, with a new time in the block, and votes for each of
its proposals; it would vote for every proposal that it accepts, too, if the loop got that
far. The lock is never asked, and the second half of the rule holds for another reason: a
lock is never set, unless a block is its own parent.
-/

namespace InterBit.Consensus

open InterBit.Lib

variable {env : HotStuffEnv}

/-- The second block comes after the first. -/
inductive Extends (env : HotStuffEnv) (first : HotStuffBlock) : HotStuffBlock → Prop
  | refl : Extends env first first
  | child {parent block : HotStuffBlock} : Extends env first parent →
      block.parentHash = env.hashBlock parent → Extends env first block

namespace HotStuffConsensus

/-- Votes of one view are for one block hash. -/
def OneHashPerView (votes : List VoteMsg) : Prop :=
  ∀ v ∈ votes, ∀ w ∈ votes, v.view = w.view → v.blockHash = w.blockHash

/-- After the turn all votes that the node has emitted are for one hash in each view, and if
the node has a lock and votes, then for a block that extends the lock, or with a certificate
of a later view than the one in the lock. -/
def ObeysRule (env : HotStuffEnv) (node : HotStuffConsensus) (action : HotStuffAction) : Prop :=
  OneHashPerView (node.next env action).voteQueue ∧
    ∀ lock, node.bLock = some lock → ∀ proposal, node.votedFor env action = some proposal →
      Extends env lock proposal.block ∨ lock.qc.view < proposal.justify.view

/-- The block that the node proposes, or accepts in a view that it leads, has the hash of those
that it has voted for in this view. -/
def OneBlock (env : HotStuffEnv) (node : HotStuffConsensus) (action : HotStuffAction) : Prop :=
  ∀ proposal, node.votedFor env action = some proposal → ∀ vote ∈ node.voteQueue,
    vote.view = proposal.block.view → vote.blockHash = env.hashBlock proposal.block

/-- A block that the node accepts is not its own parent. -/
def NoSelfParent (env : HotStuffEnv) (node : HotStuffConsensus) : HotStuffAction → Prop
  | .deliver (.proposal proposal) => env.reentrantLocks = true → node.accepts proposal = true →
      ¬ SelfParent env proposal.block
  | _ => True

/-! ## One hash for each view -/

theorem oneHashPerView_concat {votes : List VoteMsg} {vote : VoteMsg}
    (h : OneHashPerView votes) :
    OneHashPerView (votes ++ [vote]) ↔
      ∀ v ∈ votes, v.view = vote.view → v.blockHash = vote.blockHash := by
  constructor
  · intro hall v hv hview
    exact hall v (List.mem_append_left _ hv) vote
      (List.mem_append_right _ (List.mem_singleton_self _)) hview
  · intro hvote v hv w hw hview
    rcases List.mem_append.mp hv with hv | hv
    · rcases List.mem_append.mp hw with hw | hw
      · exact h v hv w hw hview
      · rw [List.mem_singleton.mp hw] at hview ⊢
        exact hvote v hv hview
    · rw [List.mem_singleton.mp hv] at hview ⊢
      rcases List.mem_append.mp hw with hw | hw
      · exact (hvote w hw hview.symm).symm
      · rw [List.mem_singleton.mp hw]

variable {node : HotStuffConsensus}

theorem oneHash_iff (h : OneHashPerView node.voteQueue) (action : HotStuffAction) :
    OneHashPerView (node.next env action).voteQueue ↔ node.OneBlock env action := by
  rw [next_voteQueue, OneBlock]
  cases node.votedFor env action with
  | none =>
    refine iff_of_true ?_ fun _ hvoted => nomatch hvoted
    rw [Option.map_none, Option.toList_none, List.append_nil]
    exact h
  | some proposal =>
    simp only [Option.some.injEq, forall_eq']
    exact oneHashPerView_concat h

/-! ## The lock -/

theorem update_bLock {block : HotStuffBlock} (qc : QuorumCertificate) (hlock : node.bLock = none)
    (hself : env.reentrantLocks = true → ¬ SelfParent env block) :
    (node.update env block qc).bLock = none := by
  by_cases hlocks : env.reentrantLocks = true
  · have hnothing : (node.update env block qc).locked = node.locked :=
      update_nothing (hself hlocks) fun lock hsome => by
        rw [hlock] at hsome
        cases hsome
    exact (congrArg Prod.fst hnothing).trans hlock
  · unfold update
    dsimp only
    rw [if_neg hlocks]
    exact hlock

/-- Only `update` sets the lock, and it finds no parent. -/
theorem next_bLock {action : HotStuffAction} (hlock : node.bLock = none)
    (hself : node.NoSelfParent env action) :
    (node.next env action).bLock = none := by
  cases action with
  | deliver msg =>
    rw [next]
    split
    next =>
      cases msg with
      | proposal proposal =>
        rw [handle, handleProposal]
        split
        next haccepts =>
          -- only a block that is its own parent is ever locked
          have hupdate := update_bLock proposal.justify hlock fun hlocks => hself hlocks haccepts
          dsimp only
          split
          next => exact (voteForBlock_frame ..).2.trans hupdate
          next => exact hupdate
        next => exact hlock
      | vote vote => exact (handleVote_frame ..).2.trans hlock
      | newView newView =>
        rw [handle, handleNewView]
        split
        next => exact hlock
        next => exact hlock
    next => exact hlock
  | propose timestamp =>
    rw [next]
    split
    next => exact (proposeIfLeader_frame ..).2.trans hlock
    next => exact hlock
  | tick =>
    rw [next]
    split
    next => exact hlock
    next => exact hlock
  | expire =>
    rw [next]
    split
    next =>
      unfold writeView
      split
      next => exact hlock
      next => exact hlock
    next => exact hlock

/-! ## The rule -/

/-- The votes so far obey the rule, and there is no lock. -/
structure VotingInv (node : HotStuffConsensus) : Prop where
  oneHash : OneHashPerView node.voteQueue
  lock : node.bLock = none

theorem oneHashPerView_nil : OneHashPerView [] := by
  intro v hv
  cases hv

theorem obeysRule_of_oneBlock {action : HotStuffAction} (h : node.VotingInv)
    (hone : node.OneBlock env action) : node.ObeysRule env action := by
  refine ⟨(oneHash_iff h.oneHash action).mpr hone, fun lock hlock => ?_⟩
  rw [h.lock] at hlock
  cases hlock

/-- In a run in which the node proposes and accepts one block for each view, none of them its own
parent, its votes obey the rule; and they are for one hash in each view if and only if the
blocks are. -/
theorem votes_obey_rule (env : HotStuffEnv) (nodeId : List UInt8)
    (validators : List (List UInt8)) (actions : List HotStuffAction) :
    (Always (next env) (fun node action => node.OneBlock env action ∧ node.NoSelfParent env action)
        (new nodeId validators) actions →
      Always (next env) (ObeysRule env) (new nodeId validators) actions) ∧
    (Always (next env) (fun node action => OneHashPerView (node.next env action).voteQueue)
        (new nodeId validators) actions ↔
      Always (next env) (OneBlock env) (new nodeId validators) actions) := by
  constructor
  · intro h
    exact h.mono (I := VotingInv) ⟨oneHashPerView_nil, rfl⟩
      (fun node action hinv hok =>
        ⟨(oneHash_iff hinv.oneHash action).mpr hok.1, next_bLock hinv.lock hok.2⟩)
      fun node action hinv hok => obeysRule_of_oneBlock hinv hok.1
  · exact always_iff (I := fun node => OneHashPerView node.voteQueue) oneHashPerView_nil
      (fun node action hinv hok => (oneHash_iff hinv action).mpr hok)
      fun node action hinv => oneHash_iff hinv action

/-! ## Two proposals in a view -/

/-- What the leader of view 0 proposes at a time. -/
def sampleProposed (timestamp : U64) : HotStuffBlock :=
  { height := 1, view := 0, parentHash := Vector.replicate 32 0, qc := genesisQc
    transactions := [], timestamp }

/-- The leader of view 0 proposes twice, and votes for both blocks. -/
theorem twoProposals_break_rule :
    let node := new [0, 0, 0, 0] sampleIds
    (node.run (sampleHotStuffEnv false) [.propose 0, .propose 10]).voteQueue
      = [0, 10].map (fun timestamp =>
        node.ownVote (sampleHotStuffEnv false) (sampleProposed timestamp)) ∧
    ¬ Always (next (sampleHotStuffEnv false)) (ObeysRule (sampleHotStuffEnv false)) node
      [.propose 0, .propose 10] := by
  intro node
  have hqueue : (node.run (sampleHotStuffEnv false) [.propose 0, .propose 10]).voteQueue
      = [0, 10].map (fun timestamp =>
        node.ownVote (sampleHotStuffEnv false) (sampleProposed timestamp)) := by decide +kernel
  refine ⟨hqueue, fun h => ?_⟩
  have hone : OneHashPerView
      (node.run (sampleHotStuffEnv false) [.propose 0, .propose 10]).voteQueue := h.2.1.1
  rw [hqueue] at hone
  have hsame : (sampleHotStuffEnv false).hashBlock (sampleProposed 0)
      = (sampleHotStuffEnv false).hashBlock (sampleProposed 10) :=
    hone (node.ownVote (sampleHotStuffEnv false) (sampleProposed 0)) (List.mem_cons_self ..)
      (node.ownVote (sampleHotStuffEnv false) (sampleProposed 10))
      (List.mem_cons_of_mem _ (List.mem_cons_self ..)) (by decide)
  exact absurd hsame (by decide +kernel)

end HotStuffConsensus

end InterBit.Consensus
