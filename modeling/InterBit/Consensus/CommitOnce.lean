import InterBit.Consensus.Finality

/-!
# Each block is committed at most once

`commit_block` takes the block out of `executed_blocks`, so a hash is committed twice only
if it is there twice, or is executed again after it has been committed. Nothing in the
handlers looks for that: a leader executes its own block in `propose` and again when the
proposal arrives, and any proposal may arrive twice.

`Fresh` excludes it. `commits_once_iff` says that this is exactly what it takes: if every
block is fresh when it is executed, nothing is committed twice, and if one is not, two
`Commit`s commit it twice.
-/

namespace InterBit.Consensus

open InterBit.Lib

variable {env : BftEnv}

namespace Chain

/-- The hashes of the blocks that are committed, or still can be. -/
def pendingHashes (env : BftEnv) (chain : Chain) : List H256 :=
  (chain.executed ++ chain.handed).map env.hashBlock

/-- No hash has been pushed or sent twice. -/
def AtMostOnce (env : BftEnv) (chain : Chain) : Prop :=
  (chain.handed.map env.hashBlock).Nodup ∧ (chain.committed.map env.hashBlock).Nodup

variable {chain : Chain}

theorem execute_nodup {block : OptimisticBlock} (h : (chain.pendingHashes env).Nodup)
    (hfresh : env.hashBlock block ∉ (chain.kept ++ chain.handed).map env.hashBlock) :
    ((chain.execute block).pendingHashes env).Nodup := by
  have hperm : ((chain.execute block).pendingHashes env).Perm
      (env.hashBlock block :: (chain.kept ++ chain.handed).map env.hashBlock) := by
    rw [pendingHashes, ← List.map_cons]
    refine List.Perm.map _ ?_
    show (chain.kept ++ [block] ++ chain.handed).Perm _
    rw [List.append_assoc]
    exact List.perm_middle
  refine hperm.nodup_iff.mpr (List.nodup_cons.mpr ⟨hfresh, h.sublist ?_⟩)
  exact (chain.kept_sublist.append_right _).map _

/-- A commit moves a block, and may drop others. -/
theorem commit_nodup (h : (chain.pendingHashes env).Nodup) (blockHash : H256) :
    ((chain.commit env blockHash).pendingHashes env).Nodup := by
  cases commits_commit env chain blockHash with
  | found passed rest block hsplit _ _ _ _ hnext =>
    rw [pendingHashes, hsplit] at h
    rw [hnext, pendingHashes]
    have hperm : (rest ++ (chain.handed ++ [block])).Perm (block :: rest ++ chain.handed) := by
      rw [← List.append_assoc]
      exact List.perm_append_singleton ..
    refine (hperm.map _).nodup_iff.mpr (h.sublist (List.Sublist.map _ ?_))
    rw [List.append_assoc]
    exact List.sublist_append_right ..
  | missing _ _ hnext =>
    rw [hnext]
    exact h

/-- A rollback only takes hashes away. -/
theorem rollback_sublist (env : BftEnv) (chain : Chain) (targetHeight : U64) :
    ((chain.rollback targetHeight).pendingHashes env).Sublist (chain.pendingHashes env) := by
  refine List.Sublist.map _ ?_
  unfold rollback
  split
  next => exact List.sublist_append_right ..
  next => exact List.sublist_append_right ..

/-! ## Which blocks have been pushed -/

/-- What is in the chain has been sent, in this order. -/
def Sent (chain : Chain) : Prop := chain.committed.Sublist chain.handed

theorem commit_sent (h : chain.Sent) (blockHash : H256) : (chain.commit env blockHash).Sent := by
  cases commits_commit env chain blockHash with
  | found passed rest block _ _ _ _ _ hnext =>
    rw [hnext]
    exact List.Sublist.append h (List.Sublist.refl _)
  | missing _ _ hnext =>
    rw [hnext]
    exact h

theorem rollback_sent (h : chain.Sent) (targetHeight : U64) :
    (chain.rollback targetHeight).Sent := by
  unfold rollback
  split
  next => exact (List.take_sublist _ _).trans h
  next => exact h

/-! ## A hash that can be committed twice -/

/-- How often a hash is committed, or can be. -/
def pendingCount (env : BftEnv) (chain : Chain) (blockHash : H256) : Nat :=
  (chain.pendingHashes env).count blockHash

theorem commit_count (env : BftEnv) (chain : Chain) (blockHash : H256) :
    (chain.commit env blockHash).pendingCount env blockHash = chain.pendingCount env blockHash := by
  cases commits_commit env chain blockHash with
  | found passed rest block hsplit _ hpassed _ _ hnext =>
    have hzero : (passed.map env.hashBlock).count blockHash = 0 := by
      rw [List.count_eq_zero]
      intro hmem
      obtain ⟨b, hb, heq⟩ := List.mem_map.mp hmem
      exact hpassed b hb heq
    simp only [hnext, pendingCount, pendingHashes, hsplit, List.map_append, List.map_cons,
      List.count_append, List.count_cons, hzero, List.map_nil, List.count_nil]
    omega
  | missing _ _ hnext => rw [hnext]

/-- A commit that finds nothing leaves the hash only where it has been sent. -/
theorem commit_handed_count (env : BftEnv) (chain : Chain) (blockHash : H256) :
    let next := chain.commit env blockHash
    (next.handed.map env.hashBlock).count blockHash
        = (chain.handed.map env.hashBlock).count blockHash + 1 ∨
      (next.handed.map env.hashBlock).count blockHash = next.pendingCount env blockHash := by
  intro next
  cases commits_commit env chain blockHash with
  | found passed rest block _ hhash _ _ _ hnext =>
    left
    simp only [next, hnext, List.map_append, List.map_singleton, hhash, List.count_append,
      List.count_singleton_self]
  | missing hnone _ hnext =>
    right
    have hzero : (chain.executed.map env.hashBlock).count blockHash = 0 := by
      rw [List.count_eq_zero]
      intro hmem
      obtain ⟨b, hb, heq⟩ := List.mem_map.mp hmem
      exact hnone b hb heq
    rw [show next = chain from hnext, pendingCount, pendingHashes, List.map_append,
      List.count_append, hzero, Nat.zero_add]

/-- Two commits of a hash that is pending twice. -/
theorem commit_twice {blockHash : H256} (h : 2 ≤ chain.pendingCount env blockHash) :
    ¬ ((chain.commit env blockHash).commit env blockHash).AtMostOnce env := by
  intro hone
  have hle := List.nodup_iff_count_le_one.mp hone.1 blockHash
  have hcount := commit_count env chain blockHash
  have hcount' := commit_count env (chain.commit env blockHash) blockHash
  rcases commit_handed_count env (chain.commit env blockHash) blockHash with h' | h'
  · rcases commit_handed_count env chain blockHash with h'' | h''
    · omega
    · omega
  · omega

end Chain

namespace Node

/-- If the loop lives on, a block that the action executes is not among those that stay in
`executed_blocks`, or that have been sent. -/
def Fresh (env : BftEnv) (node : Node) (action : NodeAction) : Prop :=
  node.looping = true → node.validators ≠ [] → ∀ block, node.executes env action = some block →
    env.hashBlock block ∉ (node.chain.kept ++ node.chain.handed).map env.hashBlock

/-! ## Every block once -/

/-- Nothing has been committed twice, or will be as long as no more is executed. -/
structure OnceInv (env : BftEnv) (node : Node) : Prop where
  sent : node.chain.Sent
  handed : (node.chain.handed.map env.hashBlock).Nodup
  pending : node.looping = true → (node.chain.pendingHashes env).Nodup

variable {node : Node}

theorem OnceInv.atMostOnce (h : OnceInv env node) : node.chain.AtMostOnce env :=
  ⟨h.handed, h.handed.sublist (h.sent.map _)⟩

theorem onceInv_new (nodeId : List UInt8) (validators : List (List UInt8)) :
    OnceInv env (new nodeId validators) :=
  ⟨List.Sublist.refl _, List.nodup_nil, fun _ => List.nodup_nil⟩

/-- If the loop lives on, or the action commits, what is executed keeps the hashes apart. -/
theorem OnceInv.executed {action : NodeAction} (h : OnceInv env node)
    (hfresh : node.Fresh env action)
    (hlive : (node.next env action).looping = true ∨
      ∃ blockHash, node.commits env action = some blockHash) :
    ((node.chainExecuted env action).pendingHashes env).Nodup := by
  have hloop : node.looping = true := by
    rcases hlive with hlive | ⟨blockHash, hcommits⟩
    · rw [step_looping, Bool.and_eq_true] at hlive
      exact hlive.1
    · exact looping_of_commits hcommits
  unfold chainExecuted
  cases hexecutes : node.executes env action with
  | none => exact h.pending hloop
  | some block =>
    have hne : node.validators ≠ [] := by
      rcases hlive with hlive | ⟨blockHash, hcommits⟩
      · rw [step_looping, hexecutes, Bool.and_eq_true] at hlive
        exact of_decide_eq_true hlive.2
      · exact (commits_of_executes hexecutes hcommits).2
    exact Chain.execute_nodup (h.pending hloop) (hfresh hloop hne block hexecutes)

theorem OnceInv.next {node : Node} {action : NodeAction} (h : OnceInv env node)
    (hfresh : node.Fresh env action) : OnceInv env (node.next env action) := by
  obtain ⟨hhanded, hcommitted, _⟩ := chainExecuted_handed env node action
  have hsent : (node.chainExecuted env action).Sent := by
    rw [Chain.Sent, hhanded, hcommitted]
    exact h.sent
  have hstep : (node.next env action).chain = _ := step_chain env node action
  -- an action executes, and then commits or rolls back
  cases hcommits : node.commits env action with
  | some blockHash =>
    rw [hcommits, rollsBack_of_commits hcommits] at hstep
    have hpending := Chain.commit_nodup (h.executed hfresh (.inr ⟨blockHash, hcommits⟩)) blockHash
    refine ⟨?_, ?_, fun _ => ?_⟩
    · rw [hstep]
      exact Chain.commit_sent hsent _
    · rw [hstep]
      -- the hashes handed on are among the pending ones
      exact hpending.sublist ((List.sublist_append_right ..).map _)
    · rw [hstep]
      exact hpending
  | none =>
    rw [hcommits] at hstep
    cases hrolls : node.rollsBack action with
    | none =>
      rw [hrolls] at hstep
      refine ⟨?_, ?_, fun hloop => ?_⟩
      · rw [hstep]
        exact hsent
      · rw [hstep]
        exact hhanded ▸ h.handed
      · rw [hstep]
        exact h.executed hfresh (.inl hloop)
    | some targetHeight =>
      rw [hrolls] at hstep
      refine ⟨?_, ?_, fun hloop => ?_⟩
      · rw [hstep]
        exact Chain.rollback_sent hsent _
      · rw [hstep]
        exact (Chain.rollback_handed _ _).2.trans hhanded ▸ h.handed
      · rw [hstep]
        exact (h.executed hfresh (.inl hloop)).sublist (Chain.rollback_sublist ..)

/-! ## A block twice -/

/-- A `Commit` with enough votes for the hash. -/
def sufficientCommit (node : Node) (blockHash : H256) : CommitMsg where
  blockHash
  epoch := 0
  votes := List.replicate (node.validators.length / 3 + 1)
    { blockHash, epoch := 0, voter := [], signature := [] }

theorem deliver_sufficientCommit {node other : Node} (hloop : node.looping = true)
    (hsame : node.validators = other.validators) (blockHash : H256) :
    (node.next env (.deliver (.commit (other.sufficientCommit blockHash)))).chain
        = node.chain.commit env blockHash := by
  rw [next, step_chain]
  simp [commits, rollsBack, chainExecuted, executes, hloop, hsame, sufficientCommit]

/-- What is executed a second time can be committed a second time. -/
theorem pendingCount_of_not_fresh {action : NodeAction} {block : OptimisticBlock}
    (hexecutes : node.executes env action = some block)
    (hknown : env.hashBlock block ∈ (node.chain.kept ++ node.chain.handed).map env.hashBlock) :
    2 ≤ (node.next env action).chain.pendingCount env (env.hashBlock block) := by
  have hexecuted : 2 ≤ (node.chain.execute block).pendingCount env (env.hashBlock block) := by
    have hpos := List.count_pos_iff.mpr hknown
    simp only [Chain.pendingCount, Chain.pendingHashes, Chain.execute, List.map_append,
      List.count_append, List.map_singleton, List.count_singleton_self] at hpos ⊢
    omega
  rw [next, step_chain, rollsBack_of_executes hexecutes, chainExecuted, hexecutes]
  cases hcommits : node.commits env action with
  | none => exact hexecuted
  | some blockHash =>
    obtain ⟨rfl, _⟩ := commits_of_executes hexecutes hcommits
    exact (Chain.commit_count env (node.chain.execute block) _).symm ▸ hexecuted

theorem twice_of_pending {blockHash : H256} (hloop : node.looping = true)
    (hcount : 2 ≤ node.chain.pendingCount env blockHash) :
    let commit := .deliver (.commit (node.sufficientCommit blockHash))
    ¬ ((node.next env commit).next env commit).chain.AtMostOnce env := by
  intro commit
  have hvalidators : (node.next env commit).validators = node.validators :=
    step_validators env node commit
  have hloop' : (node.next env commit).looping = true := by
    rw [step_looping, hloop]
    rfl
  rw [deliver_sufficientCommit hloop' hvalidators, deliver_sufficientCommit hloop rfl]
  exact Chain.commit_twice hcount

theorem fresh_commit (env : BftEnv) (node : Node) (commit : CommitMsg) :
    node.Fresh env (.deliver (.commit commit)) := by
  intro _ _ block hexecutes
  cases hexecutes

/-- In a run nothing is committed twice, whatever `Commit`s may come at any point of it, if and
only if every block is fresh when it is executed. -/
theorem commits_once_iff (env : BftEnv) (nodeId : List UInt8) (validators : List (List UInt8))
    (actions : List NodeAction) :
    (∀ before, before <+: actions → ∀ commits : List CommitMsg,
      ((new nodeId validators).run env
        (before ++ commits.map fun commit => .deliver (.commit commit))).chain.AtMostOnce env) ↔
    Always (next env) (Fresh env) (new nodeId validators) actions := by
  constructor
  · intro h
    refine always_of_forall fun before action after heq hloop hne block hexecutes hknown => ?_
    -- The hash is pending twice, so two commits push it twice.
    have hcount := pendingCount_of_not_fresh hexecutes hknown
    let last := (before.foldl (next env) (new nodeId validators)).next env action
    have hlive : last.looping = true := by
      rw [step_looping, hloop, decide_eq_true hne, Bool.or_true]
      rfl
    refine twice_of_pending hlive hcount ?_
    have htwice := h (before ++ [action]) ⟨after, by rw [heq, List.append_assoc]; rfl⟩
      (List.replicate 2 (last.sufficientCommit (env.hashBlock block)))
    rw [run, List.foldl_append, List.foldl_append] at htwice
    exact htwice
  · intro h before hbefore commits
    obtain ⟨after, rfl⟩ := hbefore
    have hrun : Always (next env) (Fresh env) (new nodeId validators)
        (before ++ commits.map fun commit => .deliver (.commit commit)) := by
      refine Always.append.mpr ⟨(Always.append.mp h).1, always_of_forall ?_⟩
      intro before' action after' heq
      obtain ⟨commit, _, rfl⟩ := List.mem_map.mp
        (heq ▸ List.mem_append_right _ (List.mem_cons_self ..))
      exact fresh_commit _ _ _
    exact (hrun.invariant (onceInv_new nodeId validators) fun _ _ => OnceInv.next).atMostOnce

/-! ## A proposal that arrives twice -/

/-- The leader of epoch 1 gets a proposal, a vote of another validator, and the proposal
again. -/
def repeatedProposal : List NodeAction :=
  [.deliver (.fastProposal { block := sampleBlock 0, epoch := 1, sender := [1] }),
   .deliver (.fastVote (sampleFastVote 0 0)),
   .deliver (.fastProposal { block := sampleBlock 0, epoch := 1, sender := [1] })]

/-- The `Commit` for the sample block with these votes. -/
def sampleCommit (voters : List UInt8) : OptimisticMessage :=
  .commit {
    blockHash := sampleBftEnv.hashBlock (sampleBlock 0), epoch := 1
    votes := voters.map fun voter => sampleFastVote voter 0 }

/-- The leader sends a `Commit` for the second and the third of its three votes, and takes
in both. -/
theorem repeatedProposal_commits_twice :
    let node := new [1] fourValidators
    let actions := repeatedProposal ++
      [.deliver (sampleCommit [1, 0]), .deliver (sampleCommit [1, 0, 1])]
    ((node.run sampleBftEnv (repeatedProposal.take 1)).deliver sampleBftEnv
        (.fastVote (sampleFastVote 0 0))).2 = [sampleCommit [1, 0]] ∧
    ((node.run sampleBftEnv (repeatedProposal.take 2)).deliver sampleBftEnv
        (.fastProposal { block := sampleBlock 0, epoch := 1, sender := [1] })).2
      = [sampleCommit [1, 0, 1]] ∧
    (∀ rollback, .deliver (.rollback rollback) ∉ actions) ∧
    ¬ (node.run sampleBftEnv actions).chain.AtMostOnce sampleBftEnv := by
  refine ⟨by decide +kernel, by decide +kernel, ?_, ?_⟩
  · intro rollback hmem
    simp [repeatedProposal, sampleCommit] at hmem
  · intro honce
    exact absurd honce.1 (by decide +kernel)

end Node

end InterBit.Consensus
