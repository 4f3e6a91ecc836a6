import InterBit.Consensus.HotStuff

/-!
# The three-chain rule

With a chain of three blocks, each with a certificate for the one before, the first should
be committed and the second locked. `update` puts the new block into `b_leaf` before it asks
`get_block` for the parent, and `get_block` knows only `b_leaf` and `b_lock`: the parent was
in `b_leaf`, and is gone. So nothing is ever locked (`updates_lock_nothing`), except if a
block has its own hash as its parent hash, and then what comes of it is no three-chain
either: `threeChain_fails` is for every chain and every hash function.
-/

namespace InterBit.Consensus

variable {env : HotStuffEnv}

namespace HotStuffConsensus

/-- The fields that the three-chain rule is about. -/
def locked (node : HotStuffConsensus) :
    Option HotStuffBlock × Option HotStuffBlock × List HotStuffBlock :=
  (node.bLock, node.bExec, node.sent)

/-- The block has its own hash as its parent hash. -/
def SelfParent (env : HotStuffEnv) (block : HotStuffBlock) : Prop :=
  env.hashBlock block = block.parentHash

theorem commitBlock_locked (env : HotStuffEnv) (node : HotStuffConsensus) (block : HotStuffBlock) :
    (node.commitBlock env block).locked = (node.bLock, some block, node.sent ++ [block]) := by
  unfold commitBlock
  dsimp only
  split
  next => rfl
  next => rfl

variable {node : HotStuffConsensus} {block : HotStuffBlock}

theorem getBlock_leaf {hash : H256} (hleaf : node.bLeaf = some block)
    (hhash : env.hashBlock block = hash) :
    node.getBlock env hash = some block := by
  rw [getBlock, hleaf, Option.filter_some, if_pos (decide_eq_true hhash)]
  rfl

theorem getBlock_lock {block lock : HotStuffBlock} {hash : H256} (hleaf : node.bLeaf = some block)
    (hne : env.hashBlock block ≠ hash) (hlock : node.bLock = some lock)
    (hhash : env.hashBlock lock = hash) :
    node.getBlock env hash = some lock := by
  rw [getBlock, hleaf, hlock, Option.filter_some, if_neg (by simpa using hne), Option.filter_some,
    if_pos (decide_eq_true hhash)]
  rfl

theorem getBlock_eq_none {hash : H256} (hleaf : node.bLeaf = some block)
    (hne : env.hashBlock block ≠ hash)
    (hlock : ∀ lock, node.bLock = some lock → env.hashBlock lock ≠ hash) :
    node.getBlock env hash = none := by
  rw [getBlock, hleaf, Option.filter_some, if_neg (by simpa using hne)]
  cases h : node.bLock with
  | none => rfl
  | some lock =>
    rw [Option.filter_some, if_neg (by simpa using hlock lock h)]
    rfl

/-- A block that is its own parent, with a certificate for itself, is locked and committed. -/
theorem update_self (hlocks : env.reentrantLocks = true) (hself : SelfParent env block)
    (hqc : block.qc.blockHash = env.hashBlock block) :
    (node.update env block block.qc).locked = (some block, some block, node.sent ++ [block]) := by
  unfold update
  dsimp only
  rw [if_pos hlocks, getBlock_leaf rfl hself]
  dsimp only
  rw [if_pos hqc, getBlock_leaf rfl hself]
  dsimp only
  rw [if_pos hqc]
  exact commitBlock_locked ..

/-- A block that is not its own parent, with the parent locked. -/
theorem update_lock {block lock : HotStuffBlock} (hlocks : env.reentrantLocks = true)
    (hself : ¬ SelfParent env block) (hlock : node.bLock = some lock)
    (hparent : env.hashBlock lock = block.parentHash)
    (hqc : block.qc.blockHash = env.hashBlock lock) (hlockSelf : SelfParent env lock)
    (hlockQc : lock.qc.blockHash = env.hashBlock lock) :
    (node.update env block block.qc).locked = (some lock, some lock, node.sent ++ [lock]) := by
  have hne : env.hashBlock block ≠ lock.parentHash := by
    rw [← hlockSelf, hparent]
    exact hself
  unfold update
  dsimp only
  rw [if_pos hlocks, getBlock_lock ?_ hself ?_ hparent]
  · dsimp only
    rw [if_pos hqc, getBlock_lock ?_ hne ?_ hlockSelf]
    · dsimp only
      rw [if_pos hlockQc]
      exact commitBlock_locked ..
    · rfl
    · rfl
  · rfl
  · exact hlock

/-- A block whose parent is neither itself nor locked changes only `b_leaf`. -/
theorem update_nothing {qc : QuorumCertificate} (hself : ¬ SelfParent env block)
    (hlock : ∀ lock, node.bLock = some lock → env.hashBlock lock ≠ block.parentHash) :
    (node.update env block qc).locked = node.locked := by
  unfold update
  dsimp only
  split
  next =>
    rw [getBlock_eq_none ?_ hself ?_]
    · rfl
    · rfl
    · exact hlock
  next => rfl

/-- Without a block that is its own parent nothing is ever locked, executed or sent. -/
theorem updates_lock_nothing (nodeId : List UInt8) (validators : List (List UInt8))
    (updates : List (HotStuffBlock × QuorumCertificate))
    (h : ∀ u ∈ updates, ¬ SelfParent env u.1) :
    (updates.foldl (fun node u => node.update env u.1 u.2) (new nodeId validators)).locked
      = (none, none, []) := by
  induction updates using List.reverseRecOn with
  | nil => rfl
  | append_singleton updates u ih =>
    have hlast := ih fun u hu => h u (List.mem_append_left _ hu)
    rw [List.foldl_append, List.foldl_cons, List.foldl_nil, update_nothing, hlast]
    · exact h u (List.mem_append_right _ (List.mem_singleton_self _))
    · intro lock hlock
      cases hlock.symm.trans (congrArg Prod.fst hlast)

/-! ## A chain of blocks -/

/-- Each block has the one before as its parent, and a certificate for it. -/
def Linked (env : HotStuffEnv) (parent block : HotStuffBlock) : Prop :=
  block.parentHash = env.hashBlock parent ∧ block.qc.blockHash = env.hashBlock parent

/-- The node after it has been updated with the blocks one after another, each with its own
certificate. -/
def afterUpdates (env : HotStuffEnv) (node : HotStuffConsensus) (blocks : List HotStuffBlock) :
    HotStuffConsensus :=
  blocks.foldl (fun node block => node.update env block block.qc) node

/-- After `k` blocks, `k` at least 3, block `k - 1` is locked, block `k - 2` is executed, and the
blocks up to it have been sent. -/
def ThreeChain (env : HotStuffEnv) (nodeId : List UInt8) (validators : List (List UInt8))
    (blocks : List HotStuffBlock) : Prop :=
  ∀ k, 3 ≤ k → k ≤ blocks.length →
    ((new nodeId validators).afterUpdates env (blocks.take k)).locked
      = (blocks[k - 2]?, blocks[k - 3]?, blocks.take (k - 2))

/-- Before the second block of a chain. -/
theorem first_update (hlocks : env.reentrantLocks = true) (nodeId : List UInt8)
    (validators : List (List UInt8)) (b₁ : HotStuffBlock) :
    let node := (new nodeId validators).afterUpdates env [b₁]
    node.locked = (none, none, []) ∨
      node.locked = (some b₁, some b₁, [b₁]) ∧ SelfParent env b₁ ∧
        b₁.qc.blockHash = env.hashBlock b₁ := by
  intro node
  by_cases hself : SelfParent env b₁
  · by_cases hqc : b₁.qc.blockHash = env.hashBlock b₁
    · exact .inr ⟨update_self hlocks hself hqc, hself, hqc⟩
    · left
      show (update env (new nodeId validators) b₁ b₁.qc).locked = _
      unfold update
      dsimp only
      rw [if_pos hlocks, getBlock_leaf ?_ hself]
      · dsimp only
        rw [if_neg hqc]
        rfl
      · rfl
  · exact .inl (update_nothing hself fun lock hlock => by cases hlock)

/-- Before the third: nothing has been sent, or the second block or too much has been. -/
theorem second_update (hlocks : env.reentrantLocks = true) (nodeId : List UInt8)
    (validators : List (List UInt8)) {b₁ b₂ : HotStuffBlock} (hlink : Linked env b₁ b₂) :
    let node := (new nodeId validators).afterUpdates env [b₁, b₂]
    (node.locked = (none, none, []) ∧ ¬ SelfParent env b₂) ∨
      (node.bLock = some b₂ ∧ SelfParent env b₂ ∧ 1 ≤ node.sent.length) ∨
      (node.bLock = some b₁ ∧ ¬ SelfParent env b₂ ∧ 2 ≤ node.sent.length) := by
  intro node
  obtain ⟨hparent, hqc⟩ := hlink
  let first := (new nodeId validators).afterUpdates env [b₁]
  have hnode : node = first.update env b₂ b₂.qc := rfl
  by_cases hself : SelfParent env b₂
  · -- The second block is its own parent, so its certificate is for itself.
    have hsame : env.hashBlock b₂ = env.hashBlock b₁ := hself.trans hparent
    have hlocked : node.locked = (some b₂, some b₂, first.sent ++ [b₂]) := by
      rw [hnode]
      exact update_self hlocks hself (hqc.trans hsame.symm)
    refine .inr (.inl ⟨congrArg Prod.fst hlocked, hself, ?_⟩)
    rw [show node.sent = _ from congrArg (·.2.2) hlocked, List.length_append]
    exact Nat.le_add_left ..
  · rcases first_update hlocks nodeId validators b₁ with hfirst | ⟨hfirst, hself₁, hqc₁⟩
    · refine .inl ⟨?_, hself⟩
      rw [hnode, update_nothing hself, hfirst]
      intro lock hlock
      rw [show first.bLock = none from congrArg Prod.fst hfirst] at hlock
      cases hlock
    · have hlocked : node.locked = (some b₁, some b₁, first.sent ++ [b₁]) := by
        rw [hnode]
        exact update_lock hlocks hself (congrArg Prod.fst hfirst) hparent.symm hqc hself₁ hqc₁
      refine .inr (.inr ⟨congrArg Prod.fst hlocked, hself, ?_⟩)
      rw [show node.sent = _ from congrArg (·.2.2) hlocked,
        show first.sent = [b₁] from congrArg (·.2.2) hfirst]
      exact Nat.le_refl _

/-- After the third block the rule does not hold. -/
theorem third_update (hlocks : env.reentrantLocks = true) (nodeId : List UInt8)
    (validators : List (List UInt8)) {b₁ b₂ b₃ : HotStuffBlock} (hlink : Linked env b₁ b₂)
    (hlink' : Linked env b₂ b₃) :
    ((new nodeId validators).afterUpdates env [b₁, b₂, b₃]).locked ≠ (some b₂, some b₁, [b₁]) := by
  intro hrule
  obtain ⟨hparent, hqc⟩ := hlink
  obtain ⟨hparent', hqc'⟩ := hlink'
  let second := (new nodeId validators).afterUpdates env [b₁, b₂]
  have hupdate : (second.update env b₃ b₃.qc).locked
      = (some b₂, some b₁, [b₁]) := hrule
  have hsecond := second_update hlocks nodeId validators ⟨hparent, hqc⟩
  by_cases hself : SelfParent env b₃
  · have hsame : env.hashBlock b₃ = env.hashBlock b₂ := hself.trans hparent'
    rw [update_self hlocks hself (hqc'.trans hsame.symm)] at hupdate
    obtain ⟨hlock, hrest⟩ := Prod.mk.inj hupdate
    obtain ⟨hexec, hsent⟩ := Prod.mk.inj hrest
    -- The third block is the first and the second, and is sent once more than that.
    have hself₂ : SelfParent env b₂ := by
      rw [SelfParent, hparent, ← Option.some.inj hexec, Option.some.inj hlock]
    have hlength := congrArg List.length hsent
    rw [List.length_append, List.length_singleton, List.length_singleton] at hlength
    have hnone : second.sent.length = 0 := by omega
    rcases hsecond with ⟨_, hself'⟩ | ⟨_, _, hlen⟩ | ⟨_, _, hlen⟩
    · exact hself' hself₂
    · exact absurd (hnone ▸ hlen) (by decide)
    · exact absurd (hnone ▸ hlen) (by decide)
  · rcases hsecond with ⟨hlocked, _⟩ | ⟨hlock, hself₂, hlen⟩ | ⟨hlock, hself₂, hlen⟩
    · have hlock : second.bLock = none := congrArg Prod.fst hlocked
      rw [update_nothing hself (by rw [hlock]; exact fun _ h => nomatch h),
        show second.locked = _ from hlocked] at hupdate
      cases congrArg Prod.fst hupdate
    · -- The locked second block is committed once more.
      have hsame : b₂.qc.blockHash = env.hashBlock b₂ :=
        hqc.trans (hparent.symm.trans hself₂.symm)
      rw [update_lock hlocks hself hlock hparent'.symm hqc' hself₂ hsame] at hupdate
      have hlength := congrArg (·.2.2.length) hupdate
      simp only [List.length_append, List.length_singleton] at hlength
      have hlen' : 1 ≤ second.sent.length := hlen
      omega
    · -- The locked first block is not the parent of the third.
      have hne : ∀ lock, second.bLock = some lock → env.hashBlock lock ≠ b₃.parentHash := by
        intro lock hsome hhash
        obtain rfl := Option.some.inj (hlock.symm.trans hsome)
        exact hself₂ (hparent'.symm.trans (hhash.symm.trans hparent.symm))
      rw [update_nothing hself hne] at hupdate
      have hlength : second.sent.length = 1 := congrArg (·.2.2.length) hupdate
      have hlen' : 2 ≤ second.sent.length := hlen
      omega

/-- With re-entrant locks, too, the three-chain rule fails for every chain of at least three
blocks. -/
theorem threeChain_fails (env : HotStuffEnv) (hlocks : env.reentrantLocks = true)
    (nodeId : List UInt8) (validators : List (List UInt8)) (blocks : List HotStuffBlock)
    (hlong : 3 ≤ blocks.length) (hchain : blocks.IsChain (Linked env)) :
    ¬ ThreeChain env nodeId validators blocks := by
  intro h
  match blocks, hlong, hchain with
  | b₁ :: b₂ :: b₃ :: rest, _, hchain =>
    rw [List.isChain_cons_cons, List.isChain_cons_cons] at hchain
    exact third_update hlocks nodeId validators hchain.1 hchain.2.1 (h 3 (Nat.le_refl _) (by simp))

/-! ## A chain of three -/

/-- A block with the given parent, and a certificate for it. -/
def sampleSuccessor (parent : HotStuffBlock) : HotStuffBlock :=
  let parentHash := (sampleHotStuffEnv true).hashBlock parent
  { height := parent.height + 1, view := parent.view + 1, parentHash
    qc := { blockHash := parentHash, view := parent.view, signatures := [] }
    transactions := [], timestamp := 0 }

/-- The first of three blocks. -/
def sampleFirst : HotStuffBlock :=
  { height := 1, view := 0, parentHash := Vector.replicate 32 0, qc := genesisQc
    transactions := [], timestamp := 0 }

/-- Three blocks in a row. -/
def sampleChain : List HotStuffBlock :=
  [sampleFirst, sampleSuccessor sampleFirst, sampleSuccessor (sampleSuccessor sampleFirst)]

theorem sampleChain_linked : sampleChain.IsChain (Linked (sampleHotStuffEnv true)) := by
  rw [sampleChain, List.isChain_cons_cons, List.isChain_cons_cons]
  exact ⟨⟨rfl, rfl⟩, ⟨rfl, rfl⟩, .singleton _⟩

theorem threeChain_fails_sample :
    ¬ ThreeChain (sampleHotStuffEnv true) [0, 0, 0, 0] sampleIds sampleChain :=
  threeChain_fails (sampleHotStuffEnv true) rfl [0, 0, 0, 0] sampleIds sampleChain (Nat.le_refl 3)
    sampleChain_linked

/-- After the three updates nothing is locked, executed or sent. -/
theorem sampleChain_commits_nothing :
    sampleChain.IsChain (Linked (sampleHotStuffEnv true)) ∧
    ((new [0, 0, 0, 0] sampleIds).afterUpdates (sampleHotStuffEnv true) sampleChain).locked
      = (none, none, []) ∧
    ¬ ThreeChain (sampleHotStuffEnv true) [0, 0, 0, 0] sampleIds sampleChain := by
  have hnothing : ((new [0, 0, 0, 0] sampleIds).afterUpdates (sampleHotStuffEnv true)
      sampleChain).locked = (none, none, []) := by decide +kernel
  refine ⟨sampleChain_linked, hnothing, fun h => ?_⟩
  have hrule := h 3 (Nat.le_refl _) (Nat.le_refl _)
  rw [show sampleChain.take 3 = sampleChain from rfl, hnothing] at hrule
  cases congrArg Prod.fst hrule

end HotStuffConsensus

end InterBit.Consensus
