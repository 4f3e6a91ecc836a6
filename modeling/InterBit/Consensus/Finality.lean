import InterBit.Consensus.NodeChain

/-!
# Finality

A block that a node has committed and handed to the state machine should stay in its
chain. `Grows` says what an action does to the chain: a block is appended, or nothing
happens, except for a `Rollback` below the height of the node.

`chain_after_delivery` says it for every delivery of a run, and `final_iff` for the run:
the chain only grows if and only if no such `Rollback` is delivered. A node sends them to
itself: `mismatchRun` has one that was harmless when it was sent, and removes a block that
has been committed in the meantime.
-/

namespace InterBit.Consensus

variable {env : BftEnv}

namespace Node

/-- The chain grows by at most one block, which is handed over. -/
inductive Grows (node next : Node) : Prop
  | kept : next.committedBlocks = node.committedBlocks → next.handed = node.handed →
      next.height = node.height → Grows node next
  | appended (block : OptimisticBlock) : next.committedBlocks = node.committedBlocks ++ [block] →
      next.handed = node.handed ++ [block] → next.height = node.height + 1 → Grows node next

/-- The message rolls no committed block back. -/
def Harmless (node : Node) (msg : OptimisticMessage) : Prop :=
  ∀ rollback, msg = .rollback rollback → node.looping = true →
    node.height ≤ rollback.targetHeight.toNat

/-- A harmless action commits a block, or leaves the chain alone. -/
theorem step_grows (env : BftEnv) (node : Node) (action : NodeAction)
    (h : ∀ msg, action = .deliver msg → node.Harmless msg) :
    node.Grows (node.step env action).1 := by
  obtain ⟨hhanded, hcommitted, hheight⟩ := chainExecuted_handed env node action
  have hchain := step_chain env node action
  cases hrolls : node.rollsBack action with
  | some targetHeight =>
    obtain ⟨⟨rollback, rfl, rfl, hloop⟩, hexecutes, hcommits⟩ := rollsBack_eq_some env hrolls
    -- A rollback that is harmless drops executed blocks only.
    have hge : ¬ rollback.targetHeight.toNat < node.chain.height :=
      Nat.not_lt.mpr (h _ rfl rollback rfl hloop)
    rw [hrolls, chainExecuted, hexecutes, hcommits] at hchain
    have hkept := hchain.trans (if_neg hge)
    exact .kept (congrArg Chain.committed hkept) (congrArg Chain.handed hkept)
      (congrArg Chain.height hkept)
  | none =>
    rw [hrolls] at hchain
    cases hcommits : node.commits env action with
    | none =>
      rw [hcommits] at hchain
      exact .kept ((congrArg Chain.committed hchain).trans hcommitted)
        ((congrArg Chain.handed hchain).trans hhanded) ((congrArg Chain.height hchain).trans hheight)
    | some blockHash =>
      rw [hcommits] at hchain
      cases Chain.commits_commit env (node.chainExecuted env action) blockHash with
      | found passed rest block _ _ _ _ _ hnext =>
        rw [hcommitted, hhanded, hheight] at hnext
        have hgrown := hchain.trans hnext
        exact .appended block (congrArg Chain.committed hgrown) (congrArg Chain.handed hgrown)
          (congrArg Chain.height hgrown)
      | missing _ _ hnext =>
        have hkept := hchain.trans hnext
        exact .kept ((congrArg Chain.committed hkept).trans hcommitted)
          ((congrArg Chain.handed hkept).trans hhanded) ((congrArg Chain.height hkept).trans hheight)

theorem deliver_grows (env : BftEnv) (node : Node) (msg : OptimisticMessage)
    (h : node.Harmless msg) : node.Grows (node.deliver env msg).1 :=
  step_grows env node (.deliver msg) fun _ heq => NodeAction.deliver.inj heq ▸ h

/-- A `Rollback` below the height. -/
theorem deliver_rollback (env : BftEnv) (node : Node) (rollback : RollbackMsg)
    (hloop : node.looping = true) (hlt : rollback.targetHeight.toNat < node.height) :
    (node.deliver env (.rollback rollback)).1.committedBlocks
        = node.committedBlocks.take rollback.targetHeight.toNat ∧
      (node.deliver env (.rollback rollback)).1.height = rollback.targetHeight.toNat := by
  unfold deliver
  rw [if_pos hloop, handle, handleRollback, rollbackToHeight, if_pos hlt]
  exact ⟨rfl, rfl⟩

/-- The height is the length of the chain. -/
def Counted (node : Node) : Prop := node.height = node.committedBlocks.length

theorem Grows.counted {node next : Node} (h : node.Grows next) (hnode : node.Counted) :
    next.Counted := by
  obtain ⟨hcommitted, _, hheight⟩ | ⟨block, hcommitted, _, hheight⟩ := h
  · rw [Counted, hcommitted, hheight]
    exact hnode
  · rw [Counted, hcommitted, hheight, List.length_append, hnode, List.length_singleton]

theorem step_counted (node : Node) (action : NodeAction) (h : node.Counted) :
    (node.step env action).1.Counted := by
  by_cases hharmless : ∀ msg, action = .deliver msg → node.Harmless msg
  · exact (step_grows env node action hharmless).counted h
  · push Not at hharmless
    obtain ⟨msg, rfl, hmsg⟩ := hharmless
    rw [Harmless] at hmsg
    push Not at hmsg
    obtain ⟨rollback, rfl, hloop, hlt⟩ := hmsg
    obtain ⟨hcommitted, hheight⟩ := deliver_rollback env node rollback hloop hlt
    rw [Counted, step, hcommitted, hheight, List.length_take, ← h]
    exact (Nat.min_eq_left hlt.le).symm

theorem run_counted (nodeId : List UInt8) (validators : List (List UInt8))
    (actions : List NodeAction) : ((new nodeId validators).run env actions).Counted := by
  induction actions using List.reverseRecOn with
  | nil => rfl
  | append_singleton actions action ih =>
    rw [run_concat]
    exact step_counted _ _ ih

/-- A delivery keeps the chain as a prefix just if it is harmless. -/
theorem deliver_prefix_iff {node : Node} (hnode : node.Counted) (msg : OptimisticMessage) :
    node.committedBlocks <+: (node.deliver env msg).1.committedBlocks ↔ node.Harmless msg := by
  constructor
  · rintro hprefix rollback rfl hloop
    refine Nat.le_of_not_lt fun hlt => ?_
    have hle := hprefix.length_le
    rw [(deliver_rollback env node rollback hloop hlt).1, List.length_take, ← hnode] at hle
    omega
  · intro hharmless
    obtain ⟨hcommitted, _⟩ | ⟨block, hcommitted, _⟩ :=
      deliver_grows env node msg hharmless
    · exact hcommitted ▸ List.prefix_rfl
    · exact hcommitted ▸ List.prefix_append ..

/-- At every turn of `message_loop` the chain before it is a prefix of the chain after
it, and the chain has all blocks that have been handed over. -/
def Final (env : BftEnv) (node : Node) (actions : List NodeAction) : Prop :=
  ∀ before msg after, actions = before ++ .deliver msg :: after →
    let now := node.run env before
    now.committedBlocks <+: (now.deliver env msg).1.committedBlocks ∧
    (now.deliver env msg).1.handed ⊆ (now.deliver env msg).1.committedBlocks

/-- No delivered `Rollback` has a target below the height of the node at that time. -/
def NeverRollsBack (env : BftEnv) (node : Node) (actions : List NodeAction) : Prop :=
  ∀ before msg after, actions = before ++ .deliver msg :: after →
    (node.run env before).Harmless msg

theorem Grows.handed_subset {node next : Node} (h : node.Grows next)
    (hnode : node.handed ⊆ node.committedBlocks) : next.handed ⊆ next.committedBlocks := by
  obtain ⟨hcommitted, hhanded, _⟩ | ⟨block, hcommitted, hhanded, _⟩ := h
  · rw [hcommitted, hhanded]
    exact hnode
  · rw [hcommitted, hhanded]
    exact List.append_subset.mpr ⟨List.subset_append_of_subset_left _ hnode,
      List.subset_append_right ..⟩

theorem NeverRollsBack.handed_subset {nodeId : List UInt8} {validators : List (List UInt8)}
    {actions : List NodeAction} (h : NeverRollsBack env (new nodeId validators) actions) :
    ((new nodeId validators).run env actions).handed
      ⊆ ((new nodeId validators).run env actions).committedBlocks := by
  induction actions using List.reverseRecOn with
  | nil => exact List.Subset.refl _
  | append_singleton actions action ih =>
    rw [run_concat]
    have hstep := step_grows env ((new nodeId validators).run env actions) action
      fun msg hmsg => h actions msg [] (by rw [hmsg])
    refine hstep.handed_subset (ih fun before msg after heq => h before msg (after ++ [action]) ?_)
    rw [heq, List.append_assoc, List.cons_append]

/-- A delivery keeps the chain as a prefix, or it is a `Rollback` that cuts it off at its
target. As long as there has been none of these, the chain has all that was handed over. -/
theorem chain_after_delivery (env : BftEnv) (nodeId : List UInt8) (validators : List (List UInt8))
    (before : List NodeAction) (msg : OptimisticMessage) :
    let node := (new nodeId validators).run env before
    let next := (node.deliver env msg).1
    ((node.Harmless msg ∧ node.committedBlocks <+: next.committedBlocks) ∨
      ∃ rollback, msg = .rollback rollback ∧ rollback.targetHeight.toNat < node.height ∧
        next.committedBlocks = node.committedBlocks.take rollback.targetHeight.toNat) ∧
    (NeverRollsBack env (new nodeId validators) (before ++ [.deliver msg]) →
      next.handed ⊆ next.committedBlocks) := by
  intro node next
  constructor
  · by_cases hharmless : node.Harmless msg
    · exact .inl ⟨hharmless, (deliver_prefix_iff (run_counted ..) msg).mpr hharmless⟩
    · rw [Harmless] at hharmless
      push Not at hharmless
      obtain ⟨rollback, rfl, hloop, hlt⟩ := hharmless
      exact .inr ⟨rollback, rfl, hlt, (deliver_rollback env node rollback hloop hlt).1⟩
  · intro h
    have hsubset := h.handed_subset
    rw [run_concat] at hsubset
    exact hsubset

/-- The chain of a node only grows if and only if no message rolls it back. -/
theorem final_iff (env : BftEnv) (nodeId : List UInt8) (validators : List (List UInt8))
    (actions : List NodeAction) :
    Final env (new nodeId validators) actions ↔
      NeverRollsBack env (new nodeId validators) actions := by
  constructor
  · intro h before msg after heq
    exact (deliver_prefix_iff (run_counted ..) msg).mp (h before msg after heq).1
  · intro h before msg after heq
    have hharmless := h before msg after heq
    refine ⟨(deliver_prefix_iff (run_counted ..) msg).mpr hharmless, ?_⟩
    refine (deliver_grows env _ _ hharmless).handed_subset ?_
    exact NeverRollsBack.handed_subset fun before' msg' after' heq' =>
      h before' msg' (after' ++ .deliver msg :: after) (by rw [heq, heq', List.append_assoc]; rfl)

end Node

/-! ## A rollback that a node sends to itself -/

/-- A hash that tells the blocks of the samples apart. -/
def sampleBftEnv : BftEnv where
  sha256 bytes := Vector.ofFn fun i => bytes.getD i 0
  overflowChecks := true
  serializeBlock block := toBeBytes 8 block.height ++ toBeBytes 8 block.timestamp

/-- A block that passes `quick_verify`. -/
def sampleBlock (timestamp : U64) : OptimisticBlock :=
  { height := 1, epoch := 1, parentHash := Vector.replicate 32 0, transactions := []
    stateRoot := Vector.replicate 32 0, timestamp, proposer := [0], fastPath := false }

/-- Four validators. -/
def fourValidators : List (List UInt8) := [[0], [1], [2], [3]]

/-- A vote for the sample block. -/
def sampleNormalVote (voter : UInt8) (stateHash : H256) : NormalVoteMsg :=
  { blockHash := sampleBftEnv.hashBlock (sampleBlock 0), epoch := 1, stateHash, voter := [voter]
    signature := List.replicate 64 0 }

/-- A fast vote for the sample block. -/
def sampleFastVote (voter : UInt8) (timestamp : U64) : FastVoteMsg :=
  { blockHash := sampleBftEnv.hashBlock (sampleBlock timestamp), epoch := 1, voter := [voter]
    signature := List.replicate 64 0 }

/-- What node 0 sends when the third of three votes has another state hash. -/
def sampleRollback : RollbackMsg :=
  { epoch := 1, targetHeight := 0, reason := "State hash mismatch" }

/-- A proposal, three votes of which one has another state hash, and a commit. -/
def mismatchRun : List NodeAction :=
  [.deliver (.normalProposal {
    block := sampleBlock 0, epoch := 1, proof := List.replicate 128 0, sender := [1] }),
   .deliver (.normalVote (sampleNormalVote 1 (Vector.replicate 32 0))),
   .deliver (.normalVote (sampleNormalVote 2 (Vector.replicate 32 0))),
   .deliver (.normalVote (sampleNormalVote 3 (Vector.replicate 32 1))),
   .deliver (.commit {
    blockHash := sampleBftEnv.hashBlock (sampleBlock 0), epoch := 1
    votes := [sampleFastVote 1 0, sampleFastVote 2 0] })]

/-- The fourth of these steps sends a rollback, which removes the block that is
committed when it arrives. -/
theorem mismatch_removes_block :
    (((Node.new [0] fourValidators).run sampleBftEnv (mismatchRun.take 3)).deliver sampleBftEnv
        (.normalVote (sampleNormalVote 3 (Vector.replicate 32 1)))).2
      = [.rollback sampleRollback] ∧
    ¬ Node.Final sampleBftEnv (Node.new [0] fourValidators)
      (mismatchRun ++ [.deliver (.rollback sampleRollback)]) := by
  constructor
  · decide +kernel
  · intro h
    have hlast := (h mismatchRun _ [] rfl).1.length_le
    exact absurd hlast (by decide +kernel)

end InterBit.Consensus
