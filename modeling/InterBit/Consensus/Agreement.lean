import InterBit.Lib.Run
import InterBit.Consensus.Finality

/-!
# Agreement

`n` nodes and a network that keeps every message: an honest node may take in any
message that has been sent, at any time or never, and a faulty node may send anything.

A block gets into a chain only out of `executed_blocks`, so the nodes agree as long as
no two of them put different blocks of one height there (`Undisputed`). Nothing in the
handlers keeps them from it. A node executes and votes for every block that passes
`quick_verify`, and a `Commit` counts its votes without looking at them:
`exists_split` makes two nodes disagree with any single faulty one. Honest nodes alone
agree because they never commit anything: their blocks have epoch 0, which
`quick_verify` refuses.

The network never forgets: what has been sent stays available, so that delay, reordering,
repetition and loss are all the same thing, namely when and how often an honest node takes a
message in. A faulty node is not modelled as a node that runs other code. Its actions are the
messages that appear (`inject`).

The condition is looked at where a block is executed. From there agreement follows without any
argument about votes, since a node commits only what it has executed. That the votes do not help is
the content of the other half: with the smallest possible fault, and for any number of nodes, there
is a run that ends in a split.
-/

namespace InterBit.Consensus

open InterBit.Lib

variable {env : BftEnv}

/-! ## One node -/

namespace Chain

/-- The blocks that are committed, or still can be. -/
def pending (chain : Chain) : List OptimisticBlock := chain.executed ++ chain.handed

/-- An execution makes one more block pending. -/
theorem execute_pending (chain : Chain) (block : OptimisticBlock) :
    (chain.execute block).pending ⊆ chain.pending ++ [block] := by
  intro b hb
  rcases List.mem_append.mp hb with hb | hb
  · rcases List.mem_append.mp hb with hb | hb
    · exact List.mem_append_left _ (List.mem_append_left _ (chain.kept_sublist.subset hb))
    · exact List.mem_append_right _ hb
  · exact List.mem_append_left _ (List.mem_append_right _ hb)

/-- A commit makes none pending. -/
theorem commit_pending (chain : Chain) (blockHash : H256) :
    (chain.commit env blockHash).pending ⊆ chain.pending := by
  cases commits_commit env chain blockHash with
  | found passed rest block hsplit _ _ _ _ hnext =>
    rw [hnext, pending, pending, hsplit]
    intro b hb
    simp only [List.mem_append, List.mem_cons, List.not_mem_nil, or_false] at hb ⊢
    tauto
  | missing _ _ hnext =>
    rw [hnext]
    exact List.Subset.refl _

/-- A rollback makes no block pending. -/
theorem rollback_pending (chain : Chain) (targetHeight : U64) :
    (chain.rollback targetHeight).pending ⊆ chain.pending := by
  obtain ⟨hexecuted, hhanded⟩ := rollback_handed chain targetHeight
  rw [pending, hexecuted, hhanded]
  exact List.subset_append_right ..

end Chain

namespace Node

/-- The blocks that are committed, or still can be. -/
def pending (node : Node) : List OptimisticBlock := node.executedBlocks ++ node.handed

/-- A block that can be committed could be before the step, or the step executes it. -/
theorem step_pending {node : Node} {action : NodeAction} {b : OptimisticBlock}
    (h : b ∈ (node.step env action).1.pending) :
    b ∈ node.pending ∨ node.executes env action = some b := by
  have hexecuted : (node.chainExecuted env action).pending
      ⊆ node.pending ++ (node.executes env action).toList := by
    unfold chainExecuted
    cases node.executes env action with
    | none => exact List.subset_append_left ..
    | some block => exact Chain.execute_pending ..
  -- What comes after the execution only moves blocks, or drops them.
  have hchain : (node.step env action).1.chain.pending ⊆ (node.chainExecuted env action).pending := by
    rw [step_chain]
    cases hrolls : node.rollsBack action with
    | some targetHeight =>
      obtain ⟨_, _, hcommits⟩ := rollsBack_eq_some env hrolls
      rw [hcommits]
      exact Chain.rollback_pending ..
    | none =>
      cases node.commits env action with
      | none => exact List.Subset.refl _
      | some blockHash => exact Chain.commit_pending ..
  rcases List.mem_append.mp (hexecuted (hchain h)) with h | h
  · exact .inl h
  · exact .inr (Option.mem_toList.mp h)

end Node

/-! ## The network -/

/-- The nodes, and all messages that have been sent. -/
structure Network (n : Nat) where
  nodes : Fin n → Node
  sent : List OptimisticMessage

/-- What can happen next. -/
inductive NetAction (n : Nat) where
  /-- An honest node moves; what it takes in has been sent. -/
  | act (i : Fin n) (action : NodeAction)
  /-- A faulty node sends anything. -/
  | inject (i : Fin n) (msg : OptimisticMessage)

namespace Network

variable {n : Nat}

/-- Fresh nodes with the given public keys. -/
def start (keys : Fin n → List UInt8) : Network n where
  nodes i := Node.new (keys i) (List.ofFn keys)
  sent := []

/-- What the action takes in has been sent. -/
def available (net : Network n) : NodeAction → Bool
  | .deliver msg => msg ∈ net.sent
  | _ => true

/-- One step of the network. -/
def step (env : BftEnv) (faulty : Finset (Fin n)) (net : Network n) :
    NetAction n → Option (Network n × Unit)
  | .act i action =>
    if i ∉ faulty ∧ net.available action then
      let (node, out) := (net.nodes i).step env action
      some ({ nodes := Function.update net.nodes i node, sent := net.sent ++ out }, ())
    else none
  | .inject i msg =>
    if i ∈ faulty then some ({ net with sent := net.sent ++ [msg] }, ()) else none

/-- What a step does. -/
inductive Moves (env : BftEnv) (faulty : Finset (Fin n)) (net : Network n) :
    NetAction n → Network n → Prop
  | act {i : Fin n} {action : NodeAction} : i ∉ faulty → net.available action →
      Moves env faulty net (.act i action)
        { nodes := Function.update net.nodes i ((net.nodes i).step env action).1
          sent := net.sent ++ ((net.nodes i).step env action).2 }
  | inject {i : Fin n} {msg : OptimisticMessage} : i ∈ faulty →
      Moves env faulty net (.inject i msg) { net with sent := net.sent ++ [msg] }

variable {faulty : Finset (Fin n)} {action : NetAction n} {net : Network n}
  {block : OptimisticBlock}

/-- A step of the network is one of the moves. -/
theorem moves_of_step {net next : Network n} {out : Unit}
    (h : step env faulty net action = some (next, out)) :
    Moves env faulty net action next := by
  cases action with
  | act i action =>
    rw [step] at h
    split at h
    next hguard =>
      cases h
      exact .act hguard.1 hguard.2
    next => cases h
  | inject i msg =>
    rw [step] at h
    split at h
    next hmem =>
      cases h
      exact .inject hmem
    next => cases h

/-- No two honest nodes have committed different blocks of one height. `handed` has all
blocks that have ever been committed. -/
def Agreement (env : BftEnv) (faulty : Finset (Fin n)) (net : Network n) : Prop :=
  ∀ i, i ∉ faulty → ∀ j, j ∉ faulty → i ≠ j → ∀ b ∈ (net.nodes i).handed,
    ∀ c ∈ (net.nodes j).handed, b.height = c.height → env.hashBlock b = env.hashBlock c

/-! ## Undisputed blocks -/

/-- If the action makes an honest node execute a block, no other honest node has executed or
committed a different one of this height. -/
def Undisputed (env : BftEnv) (faulty : Finset (Fin n)) (net : Network n) :
    NetAction n → Prop
  | .act i action => ∀ b, (net.nodes i).executes env action = some b →
      ∀ j, j ∉ faulty → i ≠ j → ∀ c ∈ (net.nodes j).pending, b.height = c.height →
        env.hashBlock b = env.hashBlock c
  | .inject _ _ => True

/-- The pending blocks of honest nodes agree, too. -/
def PendingAgree (env : BftEnv) (faulty : Finset (Fin n)) (net : Network n) : Prop :=
  ∀ i, i ∉ faulty → ∀ j, j ∉ faulty → i ≠ j → ∀ b ∈ (net.nodes i).pending,
    ∀ c ∈ (net.nodes j).pending, b.height = c.height → env.hashBlock b = env.hashBlock c

theorem PendingAgree.agreement (h : PendingAgree env faulty net) : Agreement env faulty net :=
  fun i hi j hj hne b hb c hc =>
    h i hi j hj hne b (List.mem_append_right _ hb) c (List.mem_append_right _ hc)

/-- An undisputed step keeps the agreement. -/
theorem PendingAgree.moves {net next : Network n} (h : PendingAgree env faulty net)
    (hok : Undisputed env faulty net action) (hmoves : Moves env faulty net action next) :
    PendingAgree env faulty next := by
  cases hmoves with
  | inject _ => exact h
  | @act k action hk _ =>
    -- A block of the node that has moved agrees with every block of another one.
    have hmoved : ∀ b ∈ ((net.nodes k).step env action).1.pending, ∀ j, j ∉ faulty → k ≠ j →
        ∀ c ∈ (net.nodes j).pending, b.height = c.height → env.hashBlock b = env.hashBlock c := by
      intro b hb j hj hne c hc
      rcases Node.step_pending hb with hb | hb
      · exact h k hk j hj hne b hb c hc
      · exact hok b hb j hj hne c hc
    intro i hi j hj hne b hb c hc heq
    dsimp only at hb hc
    by_cases hik : i = k
    · subst hik
      rw [Function.update_self] at hb
      rw [Function.update_of_ne (Ne.symm hne)] at hc
      exact hmoved b hb j hj hne c hc heq
    · rw [Function.update_of_ne hik] at hb
      by_cases hjk : j = k
      · subst hjk
        rw [Function.update_self] at hc
        exact (hmoved c hc i hi (Ne.symm hne) b hb heq.symm).symm
      · rw [Function.update_of_ne hjk] at hc
        exact h i hi j hj hne b hb c hc heq

theorem agreement_of_undisputed {keys : Fin n → List UInt8} {as : List (NetAction n)}
    (hrun : Run (step env faulty) (Undisputed env faulty) (start keys) as net) :
    Agreement env faulty net := by
  refine PendingAgree.agreement (hrun.invariant (I := PendingAgree env faulty) ?_ ?_)
  · exact fun net action next _ _ hok he h => h.moves hok (moves_of_step he)
  · intro i _ j _ _ b hb
    cases hb

/-! ## Honest nodes alone -/

/-- A proposal of a block of epoch 0. -/
def EpochZero : OptimisticMessage → Prop
  | .fastProposal proposal => proposal.block.epoch = 0
  | .normalProposal proposal => proposal.block.epoch = 0
  | _ => False

/-- The node has committed nothing and is in epoch 0. -/
def Idle (node : Node) : Prop := node.handed = [] ∧ node.epoch = 0

theorem quickVerify_epoch (h : block.epoch = 0) : Node.quickVerify block = false := by
  rw [Node.quickVerify, h]
  exact decide_eq_false fun hpos => absurd hpos.2 (by decide)

/-- A node ignores every message of epoch 0. -/
theorem handle_epochZero {node : Node} {msg : OptimisticMessage} (h : EpochZero msg) :
    node.handle env msg = (node, []) := by
  cases msg with
  | fastProposal proposal =>
    rw [Node.handle, Node.handleFastProposal, quickVerify_epoch h]
    rfl
  | normalProposal proposal =>
    rw [Node.handle, Node.handleNormalProposal, Node.fullVerify, quickVerify_epoch h]
    exact if_neg (by simp)
  | fastVote _ => exact h.elim
  | normalVote _ => exact h.elim
  | commit _ => exact h.elim
  | rollback _ => exact h.elim

/-- A node that has got messages of epoch 0 only sends such. -/
theorem step_idle (env : BftEnv) {node : Node} (action : NodeAction) (hnode : Idle node)
    (hmsg : ∀ msg, action = .deliver msg → EpochZero msg) :
    Idle (node.step env action).1 ∧ ∀ msg ∈ (node.step env action).2, EpochZero msg := by
  cases action with
  | deliver msg =>
    have hsame : node.deliver env msg = (node, []) := by
      rw [Node.deliver, handle_epochZero (hmsg msg rfl), ite_self]
    rw [Node.step, hsame]
    exact ⟨hnode, List.forall_mem_nil _⟩
  | propose timestamp goodNetwork =>
    rw [Node.step]
    split
    next =>
      simp only [Node.propose]
      split
      next =>
        refine ⟨hnode, fun msg hmem => ?_⟩
        rw [List.mem_singleton.mp hmem]
        exact hnode.2
      next =>
        refine ⟨hnode, fun msg hmem => ?_⟩
        rw [List.mem_singleton.mp hmem]
        exact hnode.2
    next => exact ⟨hnode, List.forall_mem_nil _⟩
  | monitorNetwork enable => exact ⟨hnode, List.forall_mem_nil _⟩

/-- All nodes are idle, and only blocks of epoch 0 have been proposed. -/
def Quiet (net : Network n) : Prop := (∀ i, Idle (net.nodes i)) ∧ ∀ msg ∈ net.sent, EpochZero msg

/-- Without faulty nodes the network stays quiet. -/
theorem Quiet.moves {net next : Network n} (h : Quiet net) (hmoves : Moves env ∅ net action next) :
    Quiet next := by
  cases hmoves with
  | inject hmem => exact absurd hmem (Finset.notMem_empty _)
  | @act k action _ havailable =>
    have hstep := step_idle env action (h.1 k) fun msg hmsg => by
      subst hmsg
      exact h.2 msg (of_decide_eq_true havailable)
    constructor
    · exact (Function.forall_update_iff net.nodes fun _ => Idle).mpr
        ⟨hstep.1, fun i _ => h.1 i⟩
    · exact fun msg hmem => (List.mem_append.mp hmem).elim (h.2 msg) (hstep.2 msg)

theorem agreement_of_honest {keys : Fin n → List UInt8} {as : List (NetAction n)}
    (hrun : Run (step env ∅) (fun _ _ => True) (start keys) as net) :
    Agreement env ∅ net := by
  have hquiet : Quiet net := hrun.invariant
    (fun net action next _ _ _ he h => h.moves (moves_of_step he))
    ⟨fun _ => ⟨rfl, rfl⟩, fun _ h => nomatch h⟩
  intro i _ j _ _ b hb
  rw [(hquiet.1 i).1] at hb
  cases hb

/-! ## One faulty node -/

/-- A fresh node commits a block that is proposed and then committed by nobody else. -/
theorem new_commits {key : List UInt8} {keys : List (List UInt8)} (hkeys : keys ≠ [])
    (hvalid : Node.quickVerify block = true) (sender : List UInt8) (vote : FastVoteMsg) :
    (((Node.new key keys).deliver env (.fastProposal { block, epoch := block.epoch, sender })).1.deliver
      env (.commit {
        blockHash := env.hashBlock block, epoch := block.epoch
        votes := List.replicate (keys.length / 3 + 1) vote })).1.handed = [block] := by
  have hlt : block.epoch.toNat % keys.length < keys.length :=
    Nat.mod_lt _ (List.length_pos_iff.mpr hkeys)
  -- Whether or not the node is the leader of the epoch, the block is all it has executed.
  have hexecuted : ∀ node, node = ((Node.new key keys).deliver env
      (.fastProposal { block, epoch := block.epoch, sender })).1 →
      node.executedBlocks = [block] ∧ node.handed = [] ∧ node.looping = true ∧
        node.validators = keys := by
    rintro node rfl
    have hloop : (Node.new key keys).looping = true := rfl
    rw [Node.deliver, if_pos hloop, Node.handle, Node.handleFastProposal, if_pos hvalid]
    dsimp only
    rw [Node.castVote]
    split
    next =>
      rw [Node.handleFastVote]
      dsimp only
      split
      next => exact ⟨rfl, rfl, rfl, rfl⟩
      next => exact ⟨rfl, rfl, rfl, rfl⟩
    next => exact ⟨rfl, rfl, rfl, rfl⟩
    next hleader =>
      rw [Node.isLeader, Option.map_eq_none_iff] at hleader
      exact absurd hlt (Nat.not_lt.mpr (List.getElem?_eq_none_iff.mp hleader))
  generalize ((Node.new key keys).deliver env _).1 = node at hexecuted ⊢
  obtain ⟨hblocks, hhanded, hloop, hvalidators⟩ := hexecuted node rfl
  rw [Node.deliver, if_pos hloop, Node.handle, Node.handleCommit, hvalidators]
  dsimp only
  have hfound : [block].find? (env.hashBlock · = env.hashBlock block) = some block :=
    List.find?_cons_of_pos (decide_eq_true rfl)
  rw [if_pos (by rw [List.length_replicate]), Node.commitBlock, hblocks, hfound]
  dsimp only
  rw [hhanded, List.nil_append]

theorem step_inject {i : Fin n} (hi : i ∈ faulty) (msg : OptimisticMessage) :
    step env faulty net (.inject i msg) = some ({ net with sent := net.sent ++ [msg] }, ()) :=
  if_pos hi

theorem step_deliver {i : Fin n} (hi : i ∉ faulty) {msg : OptimisticMessage}
    (hmsg : msg ∈ net.sent) :
    step env faulty net (.act i (.deliver msg)) = some ({
      nodes := Function.update net.nodes i ((net.nodes i).deliver env msg).1
      sent := net.sent ++ ((net.nodes i).deliver env msg).2 }, ()) :=
  if_pos ⟨hi, decide_eq_true hmsg⟩

/-- A faulty node makes an honest one that is still fresh commit a block, while the
others see nothing. -/
theorem exists_commit (env : BftEnv) (net : Network n) (keys : Fin n → List UInt8) {f i : Fin n}
    (hf : f ∈ faulty) (hi : i ∉ faulty) (hfresh : net.nodes i = Node.new (keys i) (List.ofFn keys))
    (hvalid : Node.quickVerify block = true) :
    ∃ as t, Run (step env faulty) (fun _ _ => True) net as t ∧ (t.nodes i).handed = [block] ∧
      ∀ j, j ≠ i → t.nodes j = net.nodes j := by
  have hkeys : List.ofFn keys ≠ [] := by
    intro h
    rw [List.ofFn_eq_nil_iff] at h
    exact absurd f.isLt (by omega)
  let vote : FastVoteMsg := {
    blockHash := env.hashBlock block, epoch := block.epoch, voter := [], signature := [] }
  let proposal : OptimisticMessage := .fastProposal { block, epoch := block.epoch, sender := [] }
  let commit : OptimisticMessage := .commit {
    blockHash := env.hashBlock block, epoch := block.epoch
    votes := List.replicate ((List.ofFn keys).length / 3 + 1) vote }
  refine ⟨[.inject f proposal, .inject f commit, .act i (.deliver proposal),
    .act i (.deliver commit)], _, .cons trivial (step_inject hf _) (.cons trivial (step_inject hf _)
      (.cons trivial (step_deliver hi ?_) (.cons trivial (step_deliver hi ?_) .nil))), ?_, ?_⟩
  · exact List.mem_append_left _ (List.mem_append_right _ (List.mem_singleton_self _))
  · exact List.mem_append_left _ (List.mem_append_right _ (List.mem_singleton_self _))
  · dsimp only
    rw [Function.update_self, Function.update_self, hfresh]
    exact new_commits hkeys hvalid [] vote
  · intro j hj
    dsimp only
    rw [Function.update_of_ne hj, Function.update_of_ne hj]

/-- Two honest nodes are left if at most a third of the others is faulty. -/
theorem exists_two_honest (hfaulty : faulty.card ≤ (n - 1) / 3) (hne : faulty.Nonempty) :
    ∃ i, i ∉ faulty ∧ ∃ j, j ∉ faulty ∧ i ≠ j := by
  have hpos := hne.card_pos
  have hcard : 1 < (faultyᶜ).card := by
    rw [Finset.card_compl, Fintype.card_fin]
    omega
  obtain ⟨i, hi, j, hj, hij⟩ := Finset.one_lt_card.mp hcard
  exact ⟨i, Finset.mem_compl.mp hi, j, Finset.mem_compl.mp hj, hij⟩

/-- Two accepted blocks of one height that the hash tells apart. -/
def Fork (env : BftEnv) (b c : OptimisticBlock) : Prop :=
  Node.quickVerify b = true ∧ Node.quickVerify c = true ∧ b.height = c.height ∧
    env.hashBlock b ≠ env.hashBlock c

/-- A single faulty node makes two honest ones disagree. -/
theorem exists_split (keys : Fin n → List UInt8) (hfaulty : faulty.card ≤ (n - 1) / 3)
    (hne : faulty.Nonempty) {b c : OptimisticBlock} (hfork : Fork env b c) :
    ∃ as net, Run (step env faulty) (fun _ _ => True) (start keys) as net ∧
      ¬ Agreement env faulty net := by
  obtain ⟨f, hf⟩ := hne
  obtain ⟨i, hi, j, hj, hij⟩ := exists_two_honest hfaulty ⟨f, hf⟩
  obtain ⟨hb, hc, hheight, hhash⟩ := hfork
  obtain ⟨as, net₁, hrun₁, hhanded₁, hsame₁⟩ :=
    exists_commit env (start keys) keys hf hi rfl hb
  obtain ⟨bs, net₂, hrun₂, hhanded₂, hsame₂⟩ :=
    exists_commit env net₁ keys hf hj (hsame₁ j (Ne.symm hij)) hc
  refine ⟨as ++ bs, net₂, hrun₁.append hrun₂, fun h => hhash ?_⟩
  refine h i hi j hj hij b ?_ c ?_ hheight
  · rw [hsame₂ i hij, hhanded₁]
    exact List.mem_singleton_self _
  · rw [hhanded₂]
    exact List.mem_singleton_self _

/-- With up to a third of faulty nodes a run keeps agreement as long as no honest node
executes a block where another has executed or committed a different one of this height.
That this never happens is not a property of the protocol: every run keeps agreement if
and only if no node is faulty. -/
theorem agreement_iff (env : BftEnv) (keys : Fin n → List UInt8) (faulty : Finset (Fin n))
    (hfaulty : faulty.card ≤ (n - 1) / 3) (hfork : ∃ b c, Fork env b c) :
    (∀ as net, Run (step env faulty) (Undisputed env faulty) (start keys) as net →
      Agreement env faulty net) ∧
    ((∀ as net, Run (step env faulty) (fun _ _ => True) (start keys) as net →
      Agreement env faulty net) ↔ faulty = ∅) := by
  refine ⟨fun _ _ hrun => agreement_of_undisputed hrun, ?_, ?_⟩
  · intro h
    by_contra hne
    obtain ⟨b, c, hfork⟩ := hfork
    obtain ⟨as, net, hrun, hsplit⟩ :=
      exists_split keys hfaulty (Finset.nonempty_iff_ne_empty.mpr hne) hfork
    exact hsplit (h as net hrun)
  · rintro rfl as net hrun
    exact agreement_of_honest hrun

/-! ## A split of four nodes -/

/-- The keys 0 to 3. -/
def fourKeys (i : Fin 4) : List UInt8 := [UInt8.ofNat i]

/-- Node 3 proposes a block and commits it with two votes that it makes up. -/
def sampleAttack (i : Fin 4) (timestamp : U64) : List (NetAction 4) :=
  let proposal : OptimisticMessage :=
    .fastProposal { block := sampleBlock timestamp, epoch := 1, sender := [3] }
  let commit : OptimisticMessage := .commit {
    blockHash := sampleBftEnv.hashBlock (sampleBlock timestamp), epoch := 1
    votes := [sampleFastVote 3 timestamp, sampleFastVote 3 timestamp] }
  [.inject 3 proposal, .inject 3 commit, .act i (.deliver proposal), .act i (.deliver commit)]

theorem agreement_iff_four :
    (∀ as net, Run (step sampleBftEnv {3}) (Undisputed sampleBftEnv {3}) (start fourKeys) as net →
      Agreement sampleBftEnv {3} net) ∧
    ((∀ as net, Run (step sampleBftEnv {3}) (fun _ _ => True) (start fourKeys) as net →
      Agreement sampleBftEnv {3} net) ↔ ({3} : Finset (Fin 4)) = ∅) :=
  agreement_iff sampleBftEnv fourKeys {3} (by decide)
    ⟨sampleBlock 0, sampleBlock 1, by decide, by decide, rfl, by decide +kernel⟩

/-- Nodes 0 and 1 commit different blocks of height 1. -/
theorem sampleAttack_splits :
    ∃ net, Run (step sampleBftEnv {3}) (fun _ _ => True) (start fourKeys)
        (sampleAttack 0 0 ++ sampleAttack 1 1) net ∧
      ¬ Agreement sampleBftEnv {3} net := by
  refine ⟨_, run_of_replay rfl, fun h => ?_⟩
  have hsame := h 0 (by decide) 1 (by decide) (by decide) (sampleBlock 0) (by decide +kernel)
    (sampleBlock 1) (by decide +kernel) rfl
  exact absurd hsame (by decide +kernel)

end Network

end InterBit.Consensus
