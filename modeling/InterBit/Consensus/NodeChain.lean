import InterBit.Lib.Ballots
import InterBit.Lib.Trace
import InterBit.Consensus.OptimisticBft

/-!
# What an action of a node does

Blocks go through a node in one way: they are executed, and then they are committed or
dropped. `Chain` is this part of a node. An action executes at most one block, then calls
`commit_block` at most once, or it rolls back, and `step_chain` is the whole of what a
step does to the chain.

`Poll` is the part that votes go through, with what no handler writes: an action puts at
most one vote into each kind of boxes (`step_poll`). What holds along the runs of a node is
derived from these two equations.
-/

namespace InterBit.Consensus

open InterBit.Lib

variable {env : BftEnv}

/-! ## The chain -/

/-- The part of a node that blocks go through. -/
structure Chain where
  executed : List OptimisticBlock
  committed : List OptimisticBlock
  /-- What has been sent on `block_tx`; a block is pushed to `committed_blocks` when it
  is sent, and only then. -/
  handed : List OptimisticBlock
  height : Nat

namespace Chain

/-- The executed blocks that stay when another one is executed. -/
def kept (chain : Chain) : List OptimisticBlock :=
  if 10 ≤ chain.executed.length then chain.executed.tail else chain.executed

/-- `optimistic_execute`. -/
def execute (chain : Chain) (block : OptimisticBlock) : Chain :=
  { chain with executed := chain.kept ++ [block] }

/-- The block that `commit_block` finds. -/
def found (env : BftEnv) (chain : Chain) (blockHash : H256) : Option OptimisticBlock :=
  chain.executed.find? (env.hashBlock · = blockHash)

/-- The blocks before it. -/
def passed (env : BftEnv) (chain : Chain) (blockHash : H256) : List OptimisticBlock :=
  chain.executed.takeWhile (env.hashBlock · ≠ blockHash)

/-- `commit_block`. -/
def commit (env : BftEnv) (chain : Chain) (blockHash : H256) : Chain :=
  match chain.found env blockHash with
  | some block => {
      executed := chain.executed.drop ((chain.passed env blockHash).length + 1)
      committed := chain.committed ++ [block]
      handed := chain.handed ++ [block]
      height := chain.height + 1 }
  | none => chain

/-- `rollback_to_height`. -/
def rollback (chain : Chain) (targetHeight : U64) : Chain :=
  if targetHeight.toNat < chain.height then
    { chain with
      executed := []
      committed := chain.committed.take targetHeight.toNat
      height := targetHeight.toNat }
  else { chain with executed := [] }

theorem kept_sublist (chain : Chain) : chain.kept.Sublist chain.executed := by
  unfold kept
  split
  next => exact List.tail_sublist _
  next => exact List.Sublist.refl _

/-- What `commit_block` does. -/
inductive Commits (env : BftEnv) (chain : Chain) (blockHash : H256) (next : Chain) : Prop
  | found (passed rest : List OptimisticBlock) (block : OptimisticBlock) :
      chain.executed = passed ++ block :: rest → env.hashBlock block = blockHash →
      (∀ b ∈ passed, env.hashBlock b ≠ blockHash) → chain.found env blockHash = some block →
      chain.passed env blockHash = passed →
      next = {
        executed := rest, committed := chain.committed ++ [block]
        handed := chain.handed ++ [block], height := chain.height + 1 } →
      Commits env chain blockHash next
  | missing : (∀ b ∈ chain.executed, env.hashBlock b ≠ blockHash) →
      chain.found env blockHash = none → next = chain → Commits env chain blockHash next

/-- What `commit_block` does, with the cases named. -/
theorem commits_commit (env : BftEnv) (chain : Chain) (blockHash : H256) :
    Commits env chain blockHash (chain.commit env blockHash) := by
  unfold commit
  split
  next block hfound =>
    obtain ⟨hhash, passed, rest, hsplit, hpassed⟩ := List.find?_eq_some_iff_append.mp hfound
    have hne : ∀ b ∈ passed, env.hashBlock b ≠ blockHash := fun b hb => by
      have := hpassed b hb
      simpa using this
    -- `find?` and `takeWhile` stop at the same block.
    have heq : chain.passed env blockHash = passed := by
      rw [Chain.passed, hsplit, List.takeWhile_append_of_pos fun b hb => decide_eq_true (hne b hb),
        List.takeWhile_cons_of_neg (by simpa using hhash), List.append_nil]
    have hrest : chain.executed.drop ((chain.passed env blockHash).length + 1) = rest := by
      rw [heq, hsplit, ← List.drop_drop, List.drop_left]
      rfl
    rw [hrest]
    exact .found passed rest block hsplit (of_decide_eq_true hhash) hne hfound heq rfl
  next hnone =>
    refine .missing (fun b hb => ?_) hnone rfl
    have := List.find?_eq_none.mp hnone b hb
    simpa using this

theorem rollback_handed (chain : Chain) (targetHeight : U64) :
    (chain.rollback targetHeight).executed = [] ∧
      (chain.rollback targetHeight).handed = chain.handed := by
  unfold rollback
  split
  next => exact ⟨rfl, rfl⟩
  next => exact ⟨rfl, rfl⟩

end Chain

/-! ## The votes -/

/-- The part of a node that votes go through, and what stays as it is. -/
structure Poll where
  nodeId : List UInt8
  epoch : U64
  validators : List (List UInt8)
  fastVotes : AList fun _ : H256 × U64 => List FastVoteMsg
  normalVotes : AList fun _ : H256 × U64 => List NormalVoteMsg
  looping : Bool

namespace Node

/-- The chain of a node. -/
def chain (node : Node) : Chain where
  executed := node.executedBlocks
  committed := node.committedBlocks
  handed := node.handed
  height := node.height

/-- The poll of a node. -/
def poll (node : Node) : Poll where
  nodeId := node.nodeId
  epoch := node.epoch
  validators := node.validators
  fastVotes := node.fastVotes
  normalVotes := node.normalVotes
  looping := node.looping

/-- Put a fast vote into its box. -/
def countFast (node : Node) (vote : FastVoteMsg) : AList fun _ : H256 × U64 => List FastVoteMsg :=
  pushVote node.fastVotes (vote.blockHash, vote.epoch) vote

/-- Put a normal vote into its box. -/
def countNormal (node : Node) (vote : NormalVoteMsg) :
    AList fun _ : H256 × U64 => List NormalVoteMsg :=
  pushVote node.normalVotes (vote.blockHash, vote.epoch) vote

/-- With this vote the normal votes for its block are enough, and they agree. -/
def settles (node : Node) (vote : NormalVoteMsg) : Bool :=
  let votes := bucket node.normalVotes (vote.blockHash, vote.epoch) ++ [vote]
  node.validators.length * 2 / 3 + 1 ≤ votes.length ∧ (votes.map (·.stateHash)).dedup.length = 1

/-- The vote of the node for a `FastProposal`. -/
def ownFastVote (env : BftEnv) (node : Node) (proposal : FastProposalMsg) : FastVoteMsg where
  blockHash := env.hashBlock proposal.block
  epoch := proposal.epoch
  voter := node.nodeId
  signature := sign proposal.block

/-- The vote of the node for a `NormalProposal`. -/
def ownNormalVote (env : BftEnv) (node : Node) (proposal : NormalProposalMsg) : NormalVoteMsg where
  blockHash := env.hashBlock proposal.block
  epoch := proposal.epoch
  stateHash := stateHash env proposal.block
  voter := node.nodeId
  signature := sign proposal.block

/-! ## The parts of an action -/

/-- The block that an action puts into `executed_blocks`. -/
def executes (env : BftEnv) (node : Node) : NodeAction → Option OptimisticBlock
  | .deliver (.fastProposal proposal) =>
    if node.looping ∧ quickVerify proposal.block then some proposal.block else none
  | .deliver (.normalProposal proposal) =>
    if node.looping ∧ fullVerify proposal.block proposal.proof then some proposal.block else none
  | .propose timestamp goodNetwork =>
    if node.isLeader node.epoch = some true ∧ (goodNetwork && node.fastPathEnabled) then
      some {
        height := BitVec.ofNat 64 (node.height + 1), epoch := node.epoch
        parentHash := node.getParentHash env, transactions := []
        stateRoot := Vector.replicate 32 0, timestamp, proposer := node.nodeId
        fastPath := true }
    else none
  | _ => none

/-- The hash that an action calls `commit_block` with. -/
def commits (env : BftEnv) (node : Node) : NodeAction → Option H256
  | .deliver (.normalProposal proposal) =>
    if node.looping ∧ fullVerify proposal.block proposal.proof ∧
        node.isLeader proposal.epoch = some true ∧ node.settles (node.ownNormalVote env proposal) then
      some (env.hashBlock proposal.block)
    else none
  | .deliver (.normalVote vote) =>
    if node.looping ∧ node.settles vote then some vote.blockHash else none
  | .deliver (.commit commit) =>
    if node.looping ∧ node.validators.length / 3 + 1 ≤ commit.votes.length then
      some commit.blockHash
    else none
  | _ => none

/-- The height that an action rolls back to. -/
def rollsBack (node : Node) : NodeAction → Option U64
  | .deliver (.rollback rollback) => if node.looping then some rollback.targetHeight else none
  | _ => none

/-- The vote that an action puts into `fast_votes`. -/
def countsFast (env : BftEnv) (node : Node) : NodeAction → Option FastVoteMsg
  | .deliver (.fastVote vote) => if node.looping then some vote else none
  | .deliver (.fastProposal proposal) =>
    if node.looping ∧ quickVerify proposal.block ∧ node.isLeader proposal.epoch = some true then
      some (node.ownFastVote env proposal)
    else none
  | _ => none

/-- The vote that an action puts into `normal_votes`. -/
def countsNormal (env : BftEnv) (node : Node) : NodeAction → Option NormalVoteMsg
  | .deliver (.normalVote vote) => if node.looping then some vote else none
  | .deliver (.normalProposal proposal) =>
    if node.looping ∧ fullVerify proposal.block proposal.proof ∧
        node.isLeader proposal.epoch = some true then
      some (node.ownNormalVote env proposal)
    else none
  | _ => none

/-- The chain after what the action executes. -/
def chainExecuted (env : BftEnv) (node : Node) (action : NodeAction) : Chain :=
  (node.executes env action).elim node.chain node.chain.execute

/-- One action, without what is sent. -/
def next (env : BftEnv) (node : Node) (action : NodeAction) : Node := (node.step env action).1

/-! ## The handlers -/

variable {node : Node} {action : NodeAction}

theorem isLeader_ne_none (h : node.validators ≠ []) (epoch : U64) : node.isLeader epoch ≠ none := by
  have hlt : epoch.toNat % node.validators.length < node.validators.length :=
    Nat.mod_lt _ (List.length_pos_iff.mpr h)
  rw [isLeader, List.getElem?_eq_getElem hlt]
  exact Option.some_ne_none _

/-- A leader is one of the validators. -/
theorem mem_validators_of_isLeader {epoch : U64} (h : node.isLeader epoch = some true) :
    node.nodeId ∈ node.validators := by
  rw [isLeader, Option.map_eq_some_iff] at h
  obtain ⟨key, hkey, heq⟩ := h
  exact eq_of_beq heq ▸ List.mem_of_getElem? hkey

theorem validators_of_isLeader {epoch : U64} (h : node.isLeader epoch = some true) :
    node.validators ≠ [] :=
  List.ne_nil_of_mem (mem_validators_of_isLeader h)

theorem isLeader_eq_none (h : node.validators = []) (epoch : U64) : node.isLeader epoch = none := by
  rw [isLeader, h]
  rfl

/-- An execution adds to the chain. -/
theorem optimisticExecute_chain (node : Node) (block : OptimisticBlock) :
    (node.optimisticExecute block).chain = node.chain.execute block := by
  have hlength : (node.executedBlocks ++ [block]).length = node.executedBlocks.length + 1 :=
    List.length_append
  unfold optimisticExecute Chain.execute Chain.kept chain
  dsimp only
  rw [hlength]
  by_cases hfull : 10 ≤ node.executedBlocks.length
  · have hne : node.executedBlocks ≠ [] := by
      intro h
      rw [h, List.length_nil] at hfull
      omega
    rw [if_pos (by omega), if_pos hfull, List.tail_append_of_ne_nil hne]
  · rw [if_neg (by omega), if_neg hfull]

/-- The first element that `p` accepts comes after those that it does not. -/
theorem findIdx_eq_length_takeWhile {α : Type} (p : α → Prop) [DecidablePred p] (l : List α) :
    l.findIdx (p ·) = (l.takeWhile (¬ p ·)).length := by
  induction l with
  | nil => rfl
  | cons a l ih =>
    rw [List.findIdx_cons, List.takeWhile_cons, ih]
    by_cases ha : p a
    · simp [ha]
    · simp [ha]

/-- A commit changes the chain. -/
theorem commitBlock_chain (env : BftEnv) (node : Node) (blockHash : H256) :
    (node.commitBlock env blockHash).chain = node.chain.commit env blockHash := by
  have hfound : node.chain.found env blockHash
      = node.executedBlocks.find? (env.hashBlock · = blockHash) := rfl
  have hpos : node.executedBlocks.findIdx (env.hashBlock · = blockHash)
      = (node.chain.passed env blockHash).length := findIdx_eq_length_takeWhile ..
  rw [commitBlock, Chain.commit, hfound, hpos]
  cases node.executedBlocks.find? (env.hashBlock · = blockHash) with
  | some block => rfl
  | none => rfl

theorem commitBlock_poll (env : BftEnv) (node : Node) (blockHash : H256) :
    (node.commitBlock env blockHash).poll = node.poll := by
  unfold commitBlock
  split
  next => rfl
  next => rfl

/-- A rollback changes the chain. -/
theorem rollbackToHeight_chain (node : Node) (targetHeight : U64) :
    (node.rollbackToHeight targetHeight).chain = node.chain.rollback targetHeight := by
  unfold rollbackToHeight Chain.rollback
  split
  next hlt =>
    rw [if_pos (show targetHeight.toNat < node.chain.height from hlt)]
    rfl
  next hge =>
    rw [if_neg (show ¬ targetHeight.toNat < node.chain.height from hge)]
    rfl

theorem rollbackToHeight_poll (node : Node) (targetHeight : U64) :
    (node.rollbackToHeight targetHeight).poll = node.poll := by
  unfold rollbackToHeight
  split
  next => rfl
  next => rfl

/-- A fast vote goes into its box, and that is all. -/
theorem handleFastVote_fst (node : Node) (vote : FastVoteMsg) :
    (node.handleFastVote vote).1 = { node with fastVotes := node.countFast vote } := by
  unfold handleFastVote
  dsimp only
  split
  next => rfl
  next => rfl

/-- A normal vote goes into its box, and may commit its block. -/
theorem handleNormalVote_fst (env : BftEnv) (node : Node) (vote : NormalVoteMsg) :
    (node.handleNormalVote env vote).1 =
      let counted := { node with normalVotes := node.countNormal vote }
      if node.settles vote then counted.commitBlock env vote.blockHash else counted := by
  have hsettles : node.settles vote = true ↔
      node.validators.length * 2 / 3 + 1
        ≤ ((node.normalVotes.lookup (vote.blockHash, vote.epoch)).getD [] ++ [vote]).length ∧
      (((node.normalVotes.lookup (vote.blockHash, vote.epoch)).getD [] ++ [vote]).map
        (·.stateHash)).dedup.length = 1 := decide_eq_true_iff
  unfold handleNormalVote
  dsimp only
  split
  next hlen =>
    split
    next hsame =>
      rw [if_pos (hsettles.mpr ⟨hlen, hsame⟩)]
      rfl
    next hsame =>
      rw [if_neg fun h => hsame (hsettles.mp h).2]
      rfl
  next hlen =>
    rw [if_neg fun h => hlen (hsettles.mp h).1]
    rfl

/-- The vote of a handler that asks `is_leader`: the leader handles it, without validators the
loop ends, and the other nodes send it nowhere. -/
theorem castVote_fst (node : Node) (epoch : U64) (msg : OptimisticMessage)
    (handle : Node → Node × List OptimisticMessage) :
    (node.castVote epoch msg handle).1 =
      if node.isLeader epoch = some true then (handle node).1
      else { node with looping := node.looping && node.validators ≠ [] } := by
  unfold castVote
  split
  next hleader => rw [if_pos hleader]
  next hleader =>
    have hne : node.validators ≠ [] := by
      intro hempty
      rw [isLeader_eq_none hempty] at hleader
      cases hleader
    rw [if_neg (by rw [hleader]; decide), decide_eq_true hne, Bool.and_true]
  next hleader =>
    -- Only without validators is the index out of range.
    have hempty : node.validators = [] := by
      by_contra hne
      exact isLeader_ne_none hne epoch hleader
    rw [if_neg (by rw [hleader]; decide)]
    simp [hempty]

/-- What a fast proposal does to the node. -/
theorem handleFastProposal_fst (env : BftEnv) (node : Node) (proposal : FastProposalMsg) :
    (node.handleFastProposal env proposal).1 =
      if quickVerify proposal.block then
        let executed := node.optimisticExecute proposal.block
        if node.isLeader proposal.epoch = some true then
          { executed with fastVotes := node.countFast (node.ownFastVote env proposal) }
        else { executed with looping := node.looping && node.validators ≠ [] }
      else node := by
  unfold handleFastProposal
  split
  next =>
    dsimp only
    rw [castVote_fst, handleFastVote_fst]
    rfl
  next => rfl

/-- What a normal proposal does to the node. -/
theorem handleNormalProposal_fst (env : BftEnv) (node : Node) (proposal : NormalProposalMsg) :
    (node.handleNormalProposal env proposal).1 =
      if fullVerify proposal.block proposal.proof then
        let executed := node.optimisticExecute proposal.block
        if node.isLeader proposal.epoch = some true then
          let counted := {
            executed with normalVotes := node.countNormal (node.ownNormalVote env proposal) }
          if node.settles (node.ownNormalVote env proposal) then
            counted.commitBlock env (env.hashBlock proposal.block)
          else counted
        else { executed with looping := node.looping && node.validators ≠ [] }
      else node := by
  unfold handleNormalProposal
  split
  next =>
    dsimp only
    rw [castVote_fst, handleNormalVote_fst]
    rfl
  next => rfl

/-! ## The whole action -/

/-- When the loop has ended, a message does nothing. -/
theorem idle_of_not_looping (env : BftEnv) (h : ¬ node.looping = true) (msg : OptimisticMessage) :
    node.executes env (.deliver msg) = none ∧ node.commits env (.deliver msg) = none ∧
      node.rollsBack (.deliver msg) = none ∧ node.countsFast env (.deliver msg) = none ∧
      node.countsNormal env (.deliver msg) = none := by
  cases msg with
  | fastProposal proposal => simp [executes, commits, rollsBack, countsFast, countsNormal, h]
  | normalProposal proposal => simp [executes, commits, rollsBack, countsFast, countsNormal, h]
  | fastVote vote => simp [executes, commits, rollsBack, countsFast, countsNormal, h]
  | normalVote vote => simp [executes, commits, rollsBack, countsFast, countsNormal, h]
  | commit commit => simp [executes, commits, rollsBack, countsFast, countsNormal, h]
  | rollback rollback => simp [executes, commits, rollsBack, countsFast, countsNormal, h]

/-- An action executes a block, then it commits one, or it rolls back. -/
theorem step_chain (env : BftEnv) (node : Node) (action : NodeAction) :
    (node.step env action).1.chain =
      let executed := node.chainExecuted env action
      let committed := (node.commits env action).elim executed (executed.commit env)
      (node.rollsBack action).elim committed committed.rollback := by
  cases action with
  | monitorNetwork enable => rfl
  | propose timestamp goodNetwork =>
    rw [step, chainExecuted, executes]
    by_cases hleader : node.isLeader node.epoch = some true
    · rw [if_pos hleader, propose]
      by_cases hfast : (goodNetwork && node.fastPathEnabled) = true
      · rw [if_pos hfast, if_pos ⟨hleader, hfast⟩, hfast]
        exact optimisticExecute_chain ..
      · rw [if_neg hfast, if_neg fun h => hfast h.2]
        rfl
    · rw [if_neg hleader, if_neg fun h => hleader h.1]
      rfl
  | deliver msg =>
    rw [step, deliver, chainExecuted]
    by_cases hloop : node.looping = true
    · rw [if_pos hloop]
      cases msg with
      | fastProposal proposal =>
        rw [handle, handleFastProposal_fst]
        simp only [executes, commits, rollsBack, hloop, true_and, Option.elim_none]
        by_cases hverify : quickVerify proposal.block = true
        · rw [if_pos hverify, if_pos hverify]
          refine Eq.trans ?_ (optimisticExecute_chain node proposal.block)
          split
          next => rfl
          next => rfl
        · rw [if_neg hverify, if_neg hverify]
          rfl
      | normalProposal proposal =>
        rw [handle, handleNormalProposal_fst]
        simp only [executes, commits, rollsBack, hloop, true_and, Option.elim_none]
        by_cases hverify : fullVerify proposal.block proposal.proof = true
        · -- The leader counts its own vote, which may be the last one that it takes.
          simp only [hverify, true_and, if_true, Option.elim_some]
          rw [← optimisticExecute_chain]
          by_cases hleader : node.isLeader proposal.epoch = some true
          · simp only [hleader, true_and, if_true]
            split
            next => exact commitBlock_chain ..
            next => rfl
          · rw [if_neg hleader, if_neg fun h => hleader h.1]
            rfl
        · simp only [hverify]
          rfl
      | fastVote vote =>
        rw [handle, handleFastVote_fst]
        rfl
      | normalVote vote =>
        rw [handle, handleNormalVote_fst]
        simp only [executes, commits, rollsBack, hloop, true_and, Option.elim_none]
        split
        next => exact commitBlock_chain ..
        next => rfl
      | commit commit =>
        rw [handle, handleCommit]
        simp only [executes, commits, rollsBack, hloop, true_and, Option.elim_none]
        split
        next => exact commitBlock_chain ..
        next => rfl
      | rollback rollback =>
        simp only [executes, commits, rollsBack, hloop, if_true, Option.elim_none, Option.elim_some]
        exact rollbackToHeight_chain ..
    · -- The loop has ended, so the message stays in the channel.
      obtain ⟨hexecutes, hcommits, hrolls, _, _⟩ := idle_of_not_looping env hloop msg
      rw [if_neg hloop, hexecutes, hcommits, hrolls]
      rfl

/-- An action puts a vote into a box, or it ends the loop. -/
theorem step_poll (env : BftEnv) (node : Node) (action : NodeAction) :
    (node.next env action).poll = {
      node.poll with
      fastVotes := (node.countsFast env action).elim node.fastVotes node.countFast
      normalVotes := (node.countsNormal env action).elim node.normalVotes node.countNormal
      looping := node.looping &&
        ((node.executes env action).isNone || node.validators ≠ []) } := by
  cases action with
  | monitorNetwork enable =>
    simp only [countsFast, countsNormal, executes, Option.elim_none, Option.isNone_none,
      Bool.true_or, Bool.and_true]
    rfl
  | propose timestamp goodNetwork =>
    rw [next, step]
    simp only [countsFast, countsNormal, executes, Option.elim_none]
    -- only a leader executes what it proposes, and then there is a validator
    by_cases hleader : node.isLeader node.epoch = some true
    · rw [if_pos hleader, propose, decide_eq_true (validators_of_isLeader hleader), Bool.or_true,
        Bool.and_true]
      split
      next => rfl
      next => rfl
    · rw [if_neg hleader, if_neg fun h => hleader h.1, Option.isNone_none, Bool.true_or,
        Bool.and_true]
      rfl
  | deliver msg =>
    rw [next, step, deliver]
    by_cases hloop : node.looping = true
    · rw [if_pos hloop]
      cases msg with
      | fastProposal proposal =>
        rw [handle, handleFastProposal_fst]
        simp only [countsFast, countsNormal, executes, and_iff_right hloop, Option.elim_none]
        by_cases hverify : quickVerify proposal.block = true
        · simp only [hverify, true_and, if_true]
          by_cases hleader : node.isLeader proposal.epoch = some true
          · rw [if_pos hleader, if_pos hleader, decide_eq_true (validators_of_isLeader hleader),
              Bool.or_true, Bool.and_true]
            rfl
          · rw [if_neg hleader, if_neg hleader]
            rfl
        · rw [if_neg hverify, if_neg fun h => hverify h.1, if_neg hverify, Option.isNone_none,
            Bool.true_or, Bool.and_true]
          rfl
      | normalProposal proposal =>
        rw [handle, handleNormalProposal_fst]
        simp only [countsFast, countsNormal, executes, and_iff_right hloop, Option.elim_none]
        by_cases hverify : fullVerify proposal.block proposal.proof = true
        · simp only [hverify, true_and, if_true]
          by_cases hleader : node.isLeader proposal.epoch = some true
          · rw [if_pos hleader, if_pos hleader, decide_eq_true (validators_of_isLeader hleader),
              Bool.or_true, Bool.and_true]
            split
            -- the own vote may have been the one that commits
            next => exact commitBlock_poll ..
            next => rfl
          · rw [if_neg hleader, if_neg hleader]
            rfl
        · rw [if_neg hverify, if_neg fun h => hverify h.1, if_neg hverify, Option.isNone_none,
            Bool.true_or, Bool.and_true]
          rfl
      | fastVote vote =>
        rw [handle, handleFastVote_fst]
        simp only [countsFast, countsNormal, executes, if_pos hloop, Option.elim_none,
          Option.isNone_none, Bool.true_or, Bool.and_true]
        rfl
      | normalVote vote =>
        rw [handle, handleNormalVote_fst]
        simp only [countsFast, countsNormal, executes, if_pos hloop, Option.elim_none,
          Option.isNone_none, Bool.true_or, Bool.and_true]
        split
        next => exact commitBlock_poll ..
        next => rfl
      | commit commit =>
        rw [handle, handleCommit]
        simp only [countsFast, countsNormal, executes, Option.elim_none, Option.isNone_none,
          Bool.true_or, Bool.and_true]
        split
        next => exact commitBlock_poll ..
        next => rfl
      | rollback rollback =>
        simp only [countsFast, countsNormal, executes, Option.elim_none, Option.isNone_none,
          Bool.true_or, Bool.and_true]
        exact rollbackToHeight_poll node rollback.targetHeight
    -- after a panic the loop handles nothing
    · obtain ⟨hexecutes, _, _, hfast, hnormal⟩ := idle_of_not_looping env hloop msg
      rw [if_neg hloop, hexecutes, hfast, hnormal, Option.isNone_none, Bool.true_or, Bool.and_true]
      rfl

/-! ## How the parts go together -/

theorem looping_of_commits {blockHash : H256} (h : node.commits env action = some blockHash) :
    node.looping = true := by
  revert h
  unfold commits
  split
  all_goals
    intro h
    first
      | exact (Option.ite_none_right_eq_some.mp h).1.1
      | cases h

/-- If an action both executes a block and commits, it commits this block. -/
theorem commits_of_executes {block : OptimisticBlock} {blockHash : H256}
    (hexecutes : node.executes env action = some block)
    (hcommits : node.commits env action = some blockHash) :
    blockHash = env.hashBlock block ∧ node.validators ≠ [] := by
  cases action with
  | monitorNetwork enable => cases hcommits
  | propose timestamp goodNetwork => cases hcommits
  | deliver msg =>
    cases msg with
    | normalProposal proposal =>
      -- The only message that can do both, at the leader.
      rw [commits, Option.ite_none_right_eq_some] at hcommits
      rw [executes, Option.ite_none_right_eq_some] at hexecutes
      obtain ⟨⟨_, _, hleader, _⟩, hhash⟩ := hcommits
      exact ⟨by rw [← Option.some.inj hhash, Option.some.inj hexecutes.2],
        validators_of_isLeader hleader⟩
    | fastProposal proposal => cases hcommits
    | fastVote vote => cases hcommits
    | normalVote vote => cases hexecutes
    | commit commit => cases hexecutes
    | rollback rollback => cases hexecutes

/-- A rollback is a `Rollback`, and does nothing else. -/
theorem rollsBack_eq_some (env : BftEnv) {targetHeight : U64}
    (h : node.rollsBack action = some targetHeight) :
    (∃ rollback, action = .deliver (.rollback rollback) ∧ rollback.targetHeight = targetHeight ∧
      node.looping = true) ∧ node.executes env action = none ∧ node.commits env action = none := by
  cases action with
  | monitorNetwork enable => cases h
  | propose timestamp goodNetwork => cases h
  | deliver msg =>
    cases msg with
    | rollback rollback =>
      rw [rollsBack, Option.ite_none_right_eq_some] at h
      exact ⟨⟨rollback, rfl, Option.some.inj h.2, h.1⟩, rfl, rfl⟩
    | fastProposal proposal => cases h
    | normalProposal proposal => cases h
    | fastVote vote => cases h
    | normalVote vote => cases h
    | commit commit => cases h

theorem rollsBack_of_executes {block : OptimisticBlock}
    (h : node.executes env action = some block) : node.rollsBack action = none := by
  cases hrolls : node.rollsBack action with
  | none => rfl
  | some targetHeight => cases h.symm.trans (rollsBack_eq_some env hrolls).2.1

theorem rollsBack_of_commits {blockHash : H256} (h : node.commits env action = some blockHash) :
    node.rollsBack action = none := by
  cases hrolls : node.rollsBack action with
  | none => rfl
  | some targetHeight => cases h.symm.trans (rollsBack_eq_some env hrolls).2.2

/-- What is executed is not committed yet. -/
theorem chainExecuted_handed (env : BftEnv) (node : Node) (action : NodeAction) :
    (node.chainExecuted env action).handed = node.chain.handed ∧
      (node.chainExecuted env action).committed = node.chain.committed ∧
      (node.chainExecuted env action).height = node.chain.height := by
  unfold chainExecuted
  cases node.executes env action with
  | none => exact ⟨rfl, rfl, rfl⟩
  | some block => exact ⟨rfl, rfl, rfl⟩

theorem step_fastVotes (env : BftEnv) (node : Node) (action : NodeAction) :
    (node.next env action).fastVotes
      = (node.countsFast env action).elim node.fastVotes node.countFast :=
  congrArg Poll.fastVotes (step_poll env node action)

theorem step_normalVotes (env : BftEnv) (node : Node) (action : NodeAction) :
    (node.next env action).normalVotes
      = (node.countsNormal env action).elim node.normalVotes node.countNormal :=
  congrArg Poll.normalVotes (step_poll env node action)

theorem step_looping (env : BftEnv) (node : Node) (action : NodeAction) :
    (node.next env action).looping = (node.looping &&
      ((node.executes env action).isNone || node.validators ≠ [])) :=
  congrArg Poll.looping (step_poll env node action)

/-- The validators stay. -/
theorem step_validators (env : BftEnv) (node : Node) (action : NodeAction) :
    (node.next env action).validators = node.validators :=
  congrArg Poll.validators (step_poll env node action)

/-- A run and one more action. -/
theorem run_concat (node : Node) (actions : List NodeAction) (action : NodeAction) :
    node.run env (actions ++ [action]) = ((node.run env actions).step env action).1 :=
  List.foldl_append

/-- The epoch never moves on. -/
theorem run_epoch (env : BftEnv) (node : Node) (actions : List NodeAction) :
    (node.run env actions).epoch = node.epoch := by
  induction actions using List.reverseRecOn with
  | nil => rfl
  | append_singleton actions action ih =>
    rw [run_concat]
    exact (congrArg Poll.epoch (step_poll env _ action)).trans ih

end Node

end InterBit.Consensus
