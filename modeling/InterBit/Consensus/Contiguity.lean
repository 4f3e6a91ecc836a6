import InterBit.Consensus.CommitOnce

/-!
# A chain without gaps

The committed blocks should be a chain: heights that count up from one, and each parent
hash the hash of the block before. `commit_block` makes sure of neither. It takes the first
executed block with the hash, wherever that is in `executed_blocks`, and drops those before
it as committed, which they are not.

`InOrder` is what the caller would have to see to, and `contiguous_iff` says that a run keeps
the chain without gaps if and only if all of its commits are in order.
-/

namespace InterBit.Consensus

open InterBit.Lib

variable {env : BftEnv}

namespace Chain

/-- The parent hash of a block that comes after these. -/
def lastHash (env : BftEnv) (blocks : List OptimisticBlock) : H256 :=
  match blocks.getLast? with
  | some block => env.hashBlock block
  | none => Vector.replicate 32 0

/-- The `i`-th block has height `i`, counted from one, and the hash of the one before it. -/
def Contiguous (env : BftEnv) (blocks : List OptimisticBlock) : Prop :=
  ∀ i block, blocks[i]? = some block →
    block.height.toNat = i + 1 ∧ block.parentHash = lastHash env (blocks.take i)

theorem contiguous_nil : Contiguous env [] := by
  intro i block h
  cases h

theorem contiguous_concat {blocks : List OptimisticBlock} {block : OptimisticBlock} :
    Contiguous env (blocks ++ [block]) ↔ Contiguous env blocks ∧
      block.height.toNat = blocks.length + 1 ∧ block.parentHash = lastHash env blocks := by
  constructor
  · intro h
    refine ⟨fun i b hb => ?_, ?_⟩
    · have hlt : i < blocks.length := (List.getElem?_eq_some_iff.mp hb).1
      have hi := h i b (by rw [List.getElem?_append_left hlt, hb])
      rw [List.take_append_of_le_length hlt.le] at hi
      exact hi
    · have hlast := h blocks.length block List.getElem?_concat_length
      rw [List.take_left] at hlast
      exact hlast
  · rintro ⟨h, hlast⟩ i b hb
    rcases Nat.lt_or_ge i blocks.length with hlt | hge
    · rw [List.getElem?_append_left hlt] at hb
      rw [List.take_append_of_le_length hlt.le]
      exact h i b hb
    · rw [List.getElem?_append_right hge, List.getElem?_singleton] at hb
      split at hb
      next hzero =>
        obtain rfl : blocks.length = i := by omega
        rw [← Option.some.inj hb, List.take_left]
        exact hlast
      next => cases hb

theorem Contiguous.take {blocks : List OptimisticBlock} (h : Contiguous env blocks) (n : Nat) :
    Contiguous env (blocks.take n) := by
  intro i block hb
  rw [List.getElem?_take] at hb
  split at hb
  next hlt =>
    rw [List.take_take, Nat.min_eq_left hlt.le]
    exact h i block hb
  next => cases hb

/-- The committed blocks are contiguous, and the height counts them. -/
structure Linked (env : BftEnv) (chain : Chain) : Prop where
  contiguous : Contiguous env chain.committed
  height : chain.height = chain.committed.length

theorem Linked.rollback {chain : Chain} (h : chain.Linked env) (targetHeight : U64) :
    (chain.rollback targetHeight).Linked env := by
  unfold Chain.rollback
  split
  next hlt =>
    refine ⟨h.contiguous.take _, ?_⟩
    rw [h.height] at hlt
    exact (List.length_take_of_le hlt.le).symm
  next => exact ⟨h.contiguous, h.height⟩

end Chain

namespace Node

/-- The blocks that an action takes to be committed with the one that it commits. -/
def discards (env : BftEnv) (node : Node) (action : NodeAction) : List OptimisticBlock :=
  match node.commits env action with
  | some blockHash =>
    let chain := node.chainExecuted env action
    if (chain.found env blockHash).isSome then chain.passed env blockHash else []
  | none => []

/-- After the action the chain has no gaps, and has what the action discards. -/
def LinksUp (env : BftEnv) (node : Node) (action : NodeAction) : Prop :=
  (node.next env action).chain.Linked env ∧
    node.discards env action ⊆ (node.next env action).committedBlocks

/-- If the action makes `commit_block` find a block, it is the one to come next, and those
before it in `executed_blocks` have been committed. -/
def InOrder (env : BftEnv) (node : Node) (action : NodeAction) : Prop :=
  ∀ blockHash, node.commits env action = some blockHash →
    ∀ block, (node.chainExecuted env action).found env blockHash = some block →
      block.height.toNat = node.height + 1 ∧ block.parentHash = node.getParentHash env ∧
        (node.chainExecuted env action).passed env blockHash ⊆ node.committedBlocks

theorem linked_new (nodeId : List UInt8) (validators : List (List UInt8)) :
    (new nodeId validators).chain.Linked env :=
  ⟨Chain.contiguous_nil, rfl⟩

/-- One step keeps the chain without gaps if and only if it is in order. -/
theorem linksUp_iff {node : Node} (h : node.chain.Linked env) (action : NodeAction) :
    node.LinksUp env action ↔ node.InOrder env action := by
  obtain ⟨_, hcommitted, hheight⟩ := chainExecuted_handed env node action
  have hlinked : (node.chainExecuted env action).Linked env := by
    refine ⟨?_, ?_⟩
    · rw [hcommitted]
      exact h.contiguous
    · rw [hcommitted, hheight]
      exact h.height
  have hstep : (node.next env action).chain = _ := step_chain env node action
  have hnextCommitted : (node.next env action).committedBlocks
      = (node.next env action).chain.committed := rfl
  rw [LinksUp, InOrder, discards, hnextCommitted, hstep]
  cases hcommits : node.commits env action with
  | none =>
    -- Nothing is committed, so the chain stays or is cut off.
    refine iff_of_true ⟨?_, List.nil_subset _⟩ fun _ hsome => nomatch hsome
    cases node.rollsBack action with
    | none => exact hlinked
    | some targetHeight => exact hlinked.rollback targetHeight
  | some blockHash =>
    rw [rollsBack_of_commits hcommits]
    simp only [Option.elim_some, Option.elim_none, Option.some.injEq, forall_eq']
    cases Chain.commits_commit env (node.chainExecuted env action) blockHash with
    | missing _ hfound hnext =>
      rw [hnext, hfound]
      exact iff_of_true ⟨hlinked, List.nil_subset _⟩ fun _ hsome => nomatch hsome
    | found passed rest block _ hhash hpassed hfound heq hnext =>
      rw [hnext, hfound, heq, hcommitted, hheight]
      simp only [Option.isSome_some, if_true, Option.some.injEq, forall_eq']
      constructor
      · rintro ⟨⟨hcontiguous, _⟩, hdiscards⟩
        obtain ⟨_, hnumber, hparent⟩ := Chain.contiguous_concat.mp hcontiguous
        refine ⟨hnumber.trans (congrArg (· + 1) h.height.symm), hparent, fun b hb => ?_⟩
        rcases List.mem_append.mp (hdiscards hb) with hb' | hb'
        · exact hb'
        · -- The block that is found has another hash than those before it.
          rw [List.mem_singleton.mp hb'] at hb
          exact absurd hhash (hpassed block hb)
      · rintro ⟨hnumber, hparent, hdiscards⟩
        refine ⟨⟨Chain.contiguous_concat.mpr ⟨h.contiguous, ?_, hparent⟩, ?_⟩, ?_⟩
        · exact hnumber.trans (congrArg (· + 1) h.height)
        · show node.chain.height + 1 = (node.chain.committed ++ [block]).length
          rw [h.height, List.length_append, List.length_singleton]
        · exact List.subset_append_of_subset_left _ hdiscards

/-- In a run the chain never has a gap, and has all that is taken to be committed, if and
only if every commit of the run is in order. -/
theorem contiguous_iff (env : BftEnv) (nodeId : List UInt8) (validators : List (List UInt8))
    (actions : List NodeAction) :
    Always (next env) (LinksUp env) (new nodeId validators) actions ↔
      Always (next env) (InOrder env) (new nodeId validators) actions :=
  always_iff (I := fun node => node.chain.Linked env) (linked_new nodeId validators)
    (fun _ action h hok => ((linksUp_iff h action).mpr hok).1)
    fun _ action h => linksUp_iff h action

/-! ## A child that is committed before its parent -/

/-- The block after the sample block. -/
def sampleChild : OptimisticBlock :=
  { sampleBlock 0 with height := 2, parentHash := sampleBftEnv.hashBlock (sampleBlock 0) }

/-- The two blocks are proposed in order, and the second has its votes first. -/
def childFirst : List NodeAction :=
  [.deliver (.fastProposal { block := sampleBlock 0, epoch := 1, sender := [1] }),
   .deliver (.fastProposal { block := sampleChild, epoch := 1, sender := [1] }),
   .deliver (.commit {
     blockHash := sampleBftEnv.hashBlock sampleChild, epoch := 1
     votes := [0, 1].map fun voter =>
       { sampleFastVote voter 0 with blockHash := sampleBftEnv.hashBlock sampleChild } })]

/-- The chain begins at height 2, and the block of height 1 is gone. -/
theorem childFirst_breaks_chain :
    ¬ Always (next sampleBftEnv) (LinksUp sampleBftEnv) (new [0] fourValidators) childFirst ∧
    ¬ ((new [0] fourValidators).run sampleBftEnv childFirst).chain.Linked sampleBftEnv ∧
    ∃ block ∈ ((new [0] fourValidators).run sampleBftEnv (childFirst.take 2)).executedBlocks,
      block ∉ ((new [0] fourValidators).run sampleBftEnv childFirst).executedBlocks ∧
      block ∉ ((new [0] fourValidators).run sampleBftEnv childFirst).committedBlocks := by
  have hbroken : ¬ ((new [0] fourValidators).run sampleBftEnv childFirst).chain.Linked
      sampleBftEnv := by
    intro h
    have hfirst := (h.contiguous 0 sampleChild (by decide +kernel)).1
    exact absurd hfirst (by decide)
  refine ⟨fun h => hbroken h.2.2.1.1, hbroken, sampleBlock 0, ?_, ?_, ?_⟩
  · decide +kernel
  · decide +kernel
  · decide +kernel

end Node

end InterBit.Consensus
