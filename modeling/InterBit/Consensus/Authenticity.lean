import InterBit.Consensus.CommitOnce

/-!
# Votes behind a commit

A commit should stand on the votes of enough validators. The handlers count messages: a
vote is put into its box whoever it names and however often it arrives, and `handle_commit`
looks at the number of the votes in the message only. Signatures are not checked either, so
a vote need not be by the validator that it names.

`World` has a node and, as a ghost, the ballots that have really been cast. `Authentic` says
what would have to hold of the messages, and `commits_authorized` that in a run where it
does each commit has the validators behind it.
-/

namespace InterBit.Consensus

open InterBit.Lib

variable {env : BftEnv}

/-- A vote that a validator, or somebody else, has made for a block hash. -/
structure Ballot where
  voter : List UInt8
  blockHash : H256
  epoch : U64
  deriving DecidableEq

namespace Node

/-- The ballot that the node casts itself. -/
def ownBallot (env : BftEnv) (node : Node) : NodeAction → Option Ballot
  | .deliver (.fastProposal proposal) =>
    if node.looping ∧ quickVerify proposal.block then
      some ⟨node.nodeId, env.hashBlock proposal.block, proposal.epoch⟩
    else none
  | .deliver (.normalProposal proposal) =>
    if node.looping ∧ fullVerify proposal.block proposal.proof then
      some ⟨node.nodeId, env.hashBlock proposal.block, proposal.epoch⟩
    else none
  | _ => none

/-! ## What is sent -/

/-- A `Commit` that is sent carries the votes of its box, and these are enough. -/
structure FromBox (next : Node) (vote : FastVoteMsg) (commit : CommitMsg) : Prop where
  blockHash : commit.blockHash = vote.blockHash
  epoch : commit.epoch = vote.epoch
  enough : next.validators.length / 3 + 1
    ≤ (bucket next.fastVotes (vote.blockHash, vote.epoch)).length

variable {commit : CommitMsg} {node : Node}

theorem handleFastVote_sends {vote : FastVoteMsg}
    (h : .commit commit ∈ (node.handleFastVote vote).2) :
    FromBox (node.handleFastVote vote).1 vote commit := by
  unfold handleFastVote at h ⊢
  dsimp only at h ⊢
  split at h
  next henough =>
    rw [if_pos henough]
    cases List.mem_singleton.mp h
    refine ⟨rfl, rfl, ?_⟩
    dsimp only
    rw [bucket, AList.lookup_insert, Option.getD_some]
    exact henough
  next => cases h

theorem handleNormalVote_sends {vote : NormalVoteMsg} :
    .commit commit ∉ (node.handleNormalVote env vote).2 := by
  unfold handleNormalVote
  dsimp only
  split
  next =>
    split
    next => exact List.not_mem_nil
    next => simp
  next => exact List.not_mem_nil

theorem step_sends {action : NodeAction} (h : .commit commit ∈ (node.step env action).2) :
    ∃ vote, node.countsFast env action = some vote ∧
      FromBox (node.next env action) vote commit := by
  cases action with
  | monitorNetwork enable => cases h
  | propose timestamp goodNetwork =>
    rw [step] at h
    split at h
    next =>
      rw [propose] at h
      split at h
      next => simp at h
      next => simp at h
    next => cases h
  | deliver msg =>
    rw [next]
    rw [step, deliver] at h ⊢
    by_cases hloop : node.looping = true
    · rw [if_pos hloop] at h ⊢
      cases msg with
      | fastProposal proposal =>
        rw [handle, handleFastProposal] at h ⊢
        split at h
        next hverify =>
          rw [if_pos hverify]
          dsimp only at h ⊢
          rw [castVote] at h ⊢
          split at h
          next hleader =>
            have hleader' : node.isLeader proposal.epoch = some true := hleader
            -- the leader counts its own vote at once, which may be the one that suffices
            exact ⟨node.ownFastVote env proposal, if_pos ⟨hloop, hverify, hleader'⟩,
              handleFastVote_sends h⟩
          next hleader =>
            rw [sendToLeader, hleader] at h
            cases h
          next => cases h
        next => cases h
      | normalProposal proposal =>
        rw [handle, handleNormalProposal] at h
        split at h
        next =>
          dsimp only at h
          rw [castVote] at h
          split at h
          -- normal votes commit, but send nothing
          next => exact absurd h handleNormalVote_sends
          next hleader =>
            rw [sendToLeader, hleader] at h
            cases h
          next => cases h
        next => cases h
      | fastVote vote => exact ⟨vote, if_pos hloop, handleFastVote_sends h⟩
      | normalVote vote => exact absurd h handleNormalVote_sends
      | commit commit => cases h
      | rollback rollback => cases h
    · rw [if_neg hloop] at h
      cases h

/-- The votes it takes for the `commit_block` of an action. -/
def needed (node : Node) : NodeAction → Nat
  | .deliver (.commit _) => node.validators.length / 3 + 1
  | _ => node.validators.length * 2 / 3 + 1

/-- `commit_block` is called for a `Commit`, or for normal votes. -/
theorem commits_cases {action : NodeAction} {blockHash : H256}
    (h : node.commits env action = some blockHash) :
    (∃ commit, action = .deliver (.commit commit) ∧ commit.blockHash = blockHash ∧
      node.validators.length / 3 + 1 ≤ commit.votes.length) ∨
    (∃ vote, node.countsNormal env action = some vote ∧ vote.blockHash = blockHash ∧
      node.settles vote = true ∧ node.needed action = node.validators.length * 2 / 3 + 1) := by
  cases action with
  | monitorNetwork enable => cases h
  | propose timestamp goodNetwork => cases h
  | deliver msg =>
    cases msg with
    | fastProposal proposal => cases h
    | fastVote vote => cases h
    | rollback rollback => cases h
    | normalProposal proposal =>
      right
      rw [commits, Option.ite_none_right_eq_some] at h
      obtain ⟨⟨hloop, hverify, hleader, hsettles⟩, hhash⟩ := h
      exact ⟨_, if_pos ⟨hloop, hverify, hleader⟩, Option.some.inj hhash, hsettles, rfl⟩
    | normalVote vote =>
      right
      rw [commits, Option.ite_none_right_eq_some] at h
      obtain ⟨⟨hloop, hsettles⟩, hhash⟩ := h
      exact ⟨vote, if_pos hloop, Option.some.inj hhash, hsettles, rfl⟩
    | commit commit =>
      left
      rw [commits, Option.ite_none_right_eq_some] at h
      exact ⟨commit, rfl, Option.some.inj h.2, h.1.2⟩

end Node

/-! ## The world around a node -/

/-- A node, the ballots that have been cast, and what the node has sent. -/
structure World where
  node : Node
  cast : List Ballot
  sent : List OptimisticMessage

/-- Somebody casts a ballot, or the node acts. -/
inductive Event where
  | casts (ballot : Ballot)
  | acts (action : NodeAction)

namespace World

/-- A fresh node, and no ballots. -/
def start (nodeId : List UInt8) (validators : List (List UInt8)) : World where
  node := Node.new nodeId validators
  cast := []
  sent := []

/-- One event; a proposal that is accepted makes the node cast its own ballot. -/
def next (env : BftEnv) (world : World) : Event → World
  | .casts ballot => { world with cast := world.cast ++ [ballot] }
  | .acts action => {
      node := world.node.next env action
      cast := world.cast ++ (world.node.ownBallot env action).toList
      sent := world.sent ++ (world.node.step env action).2 }

/-- Enough members have cast a ballot for the hash in the epoch. -/
def Backed (world : World) (blockHash : H256) (epoch : U64) (k : Nat) : Prop :=
  Quorum world.node.validators (fun voter => ⟨voter, blockHash, epoch⟩ ∈ world.cast) k

/-- The hash that the event commits is backed in one epoch. -/
def Authorized (env : BftEnv) (world : World) : Event → Prop
  | .casts _ => True
  | .acts action => ∀ blockHash, world.node.commits env action = some blockHash →
      ∃ epoch, (world.next env (.acts action)).Backed blockHash epoch (world.node.needed action)

/-- What a message has to be: a vote is genuine and by a member, the box has none of this
voter, and a `Commit` is one that the node has sent, or carries genuine votes of enough
members for its hash. -/
def Authentic (env : BftEnv) (world : World) : Event → Prop
  | .casts _ => True
  | .acts action =>
    (∀ vote, world.node.countsFast env action = some vote →
      vote.voter ∉ (bucket world.node.fastVotes (vote.blockHash, vote.epoch)).map (·.voter)) ∧
    (∀ vote, world.node.countsNormal env action = some vote →
      vote.voter ∉ (bucket world.node.normalVotes (vote.blockHash, vote.epoch)).map (·.voter)) ∧
    match action with
    | .deliver (.fastVote vote) =>
      vote.voter ∈ world.node.validators ∧ ⟨vote.voter, vote.blockHash, vote.epoch⟩ ∈ world.cast
    | .deliver (.normalVote vote) =>
      vote.voter ∈ world.node.validators ∧ ⟨vote.voter, vote.blockHash, vote.epoch⟩ ∈ world.cast
    | .deliver (.commit commit) =>
      .commit commit ∈ world.sent ∨
        ∃ epoch, Quorum world.node.validators
          (fun voter => (∃ vote ∈ commit.votes, vote.voter = voter ∧
              vote.blockHash = commit.blockHash ∧ vote.epoch = epoch) ∧
            ⟨voter, commit.blockHash, epoch⟩ ∈ world.cast)
          (world.node.validators.length / 3 + 1)
    | _ => True

/-- The boxes have genuine votes of different members, and so has every `Commit` that was
sent. -/
structure AuthenticInv (world : World) : Prop where
  fast : Tallied world.node.validators (·.voter)
    (fun key vote => ⟨vote.voter, key.1, key.2⟩ ∈ world.cast) world.node.fastVotes
  normal : Tallied world.node.validators (·.voter)
    (fun key vote => ⟨vote.voter, key.1, key.2⟩ ∈ world.cast) world.node.normalVotes
  sent : ∀ commit, .commit commit ∈ world.sent →
    world.Backed commit.blockHash commit.epoch (world.node.validators.length / 3 + 1)

theorem authenticInv_start (nodeId : List UInt8) (validators : List (List UInt8)) :
    (start nodeId validators).AuthenticInv :=
  ⟨.empty, .empty, fun _ h => nomatch h⟩

theorem next_validators (env : BftEnv) (world : World) (event : Event) :
    (world.next env event).node.validators = world.node.validators := by
  cases event with
  | casts ballot => rfl
  | acts action => exact Node.step_validators env world.node action

theorem cast_subset (env : BftEnv) (world : World) (event : Event) :
    world.cast ⊆ (world.next env event).cast := by
  cases event with
  | casts ballot => exact List.subset_append_left ..
  | acts action => exact List.subset_append_left ..

/-- What an authentic action counts is the genuine vote of a member. -/
theorem genuine_fast {world : World} {action : NodeAction} {vote : FastVoteMsg}
    (hok : world.Authentic env (.acts action))
    (h : world.node.countsFast env action = some vote) :
    vote.voter ∈ world.node.validators ∧
      ⟨vote.voter, vote.blockHash, vote.epoch⟩ ∈ (world.next env (.acts action)).cast := by
  cases action with
  | monitorNetwork enable => cases h
  | propose timestamp goodNetwork => cases h
  | deliver msg =>
    cases msg with
    | fastVote other =>
      rw [Node.countsFast, Option.ite_none_right_eq_some] at h
      obtain rfl := Option.some.inj h.2
      exact ⟨hok.2.2.1, cast_subset env world _ hok.2.2.2⟩
    | fastProposal proposal =>
      -- The vote of the leader for the proposal, which it casts now.
      rw [Node.countsFast, Option.ite_none_right_eq_some] at h
      obtain ⟨⟨hloop, hverify, hleader⟩, heq⟩ := h
      obtain rfl := Option.some.inj heq
      refine ⟨Node.mem_validators_of_isLeader hleader, List.mem_append_right _ ?_⟩
      rw [Node.ownBallot, if_pos ⟨hloop, hverify⟩]
      exact List.mem_singleton_self _
    | normalProposal proposal => cases h
    | normalVote vote => cases h
    | commit commit => cases h
    | rollback rollback => cases h

theorem genuine_normal {world : World} {action : NodeAction} {vote : NormalVoteMsg}
    (hok : world.Authentic env (.acts action))
    (h : world.node.countsNormal env action = some vote) :
    vote.voter ∈ world.node.validators ∧
      ⟨vote.voter, vote.blockHash, vote.epoch⟩ ∈ (world.next env (.acts action)).cast := by
  cases action with
  | monitorNetwork enable => cases h
  | propose timestamp goodNetwork => cases h
  | deliver msg =>
    cases msg with
    | normalVote other =>
      rw [Node.countsNormal, Option.ite_none_right_eq_some] at h
      obtain rfl := Option.some.inj h.2
      exact ⟨hok.2.2.1, cast_subset env world _ hok.2.2.2⟩
    | normalProposal proposal =>
      rw [Node.countsNormal, Option.ite_none_right_eq_some] at h
      obtain ⟨⟨hloop, hverify, hleader⟩, heq⟩ := h
      obtain rfl := Option.some.inj heq
      refine ⟨Node.mem_validators_of_isLeader hleader, List.mem_append_right _ ?_⟩
      rw [Node.ownBallot, if_pos ⟨hloop, hverify⟩]
      exact List.mem_singleton_self _
    | fastProposal proposal => cases h
    | fastVote vote => cases h
    | commit commit => cases h
    | rollback rollback => cases h

theorem AuthenticInv.next {world : World} {event : Event} (h : world.AuthenticInv)
    (hok : world.Authentic env event) : (world.next env event).AuthenticInv := by
  have hcast := cast_subset env world event
  have hvalidators := next_validators env world event
  have hfast := h.fast.mono fun key vote hvote => hcast hvote
  have hnormal := h.normal.mono fun key vote hvote => hcast hvote
  -- what has been sent stays backed, since votes are never taken back
  have hsent : ∀ commit, .commit commit ∈ world.sent →
      (world.next env event).Backed commit.blockHash commit.epoch
        ((world.next env event).node.validators.length / 3 + 1) := fun commit hmem => by
    rw [Backed, hvalidators]
    exact (h.sent commit hmem).mono fun voter hvoter => hcast hvoter
  cases event with
  | casts ballot => exact ⟨hfast, hnormal, hsent⟩
  | acts action =>
    have hfast' : Tallied (world.next env (.acts action)).node.validators (·.voter)
        (fun key vote => ⟨vote.voter, key.1, key.2⟩ ∈ (world.next env (.acts action)).cast)
        (world.next env (.acts action)).node.fastVotes := by
      show Tallied _ _ _ (world.node.next env action).fastVotes
      rw [hvalidators, Node.step_fastVotes]
      cases hcounts : world.node.countsFast env action with
      | none => exact hfast
      | some vote =>
        obtain ⟨hmember, hgenuine⟩ := genuine_fast hok hcounts
        exact hfast.pushVote hmember hgenuine (hok.1 vote hcounts)
    refine ⟨hfast', ?_, fun commit hmem => ?_⟩
    · show Tallied _ _ _ (world.node.next env action).normalVotes
      rw [hvalidators, Node.step_normalVotes]
      cases hcounts : world.node.countsNormal env action with
      | none => exact hnormal
      | some vote =>
        obtain ⟨hmember, hgenuine⟩ := genuine_normal hok hcounts
        exact hnormal.pushVote hmember hgenuine (hok.2.1 vote hcounts)
    · rcases List.mem_append.mp hmem with hmem | hmem
      · exact hsent commit hmem
      · obtain ⟨vote, _, hbox⟩ := Node.step_sends hmem
        rw [Backed, hbox.blockHash, hbox.epoch]
        exact (hfast' _).quorum hbox.enough fun _ _ hgenuine => hgenuine

/-- Under the invariant an authentic action only commits what is backed. -/
theorem authorized_of_authentic {world : World} {event : Event} (h : world.AuthenticInv)
    (hok : world.Authentic env event) : world.Authorized env event := by
  have hnext := h.next hok
  have hvalidators := next_validators env world event
  cases event with
  | casts ballot => trivial
  | acts action =>
    intro blockHash hcommits
    rcases Node.commits_cases hcommits with
      ⟨commit, rfl, rfl, _⟩ | ⟨vote, hcounts, rfl, hsettles, hneeded⟩
    · rcases hok.2.2 with hsent | ⟨epoch, hquorum⟩
      · have hbacked := hnext.sent commit (List.mem_append_left _ hsent)
        rw [hvalidators] at hbacked
        exact ⟨commit.epoch, hbacked⟩
      · refine ⟨epoch, ?_⟩
        rw [Backed, hvalidators]
        exact hquorum.mono fun voter hvoter => cast_subset env world _ hvoter.2
    · -- The box of normal votes, with the vote that has just been put into it.
      refine ⟨vote.epoch, ?_⟩
      have htally := hnext.normal (vote.blockHash, vote.epoch)
      have hnormalVotes : (world.next env (.acts action)).node.normalVotes = _ :=
        Node.step_normalVotes env world.node action
      rw [hnormalVotes, hcounts, Option.elim_some, Node.countNormal, bucket_pushVote] at htally
      rw [hneeded]
      exact htally.quorum (of_decide_eq_true hsettles).1 fun _ _ hgenuine => hgenuine

/-- In a run in which all messages are authentic, every hash that is committed has enough
validators behind it. -/
theorem commits_authorized (env : BftEnv) (nodeId : List UInt8) (validators : List (List UInt8))
    (events : List Event)
    (h : Always (next env) (Authentic env) (start nodeId validators) events) :
    Always (next env) (Authorized env) (start nodeId validators) events :=
  h.mono (authenticInv_start nodeId validators) (fun _ _ => AuthenticInv.next)
    fun _ _ => authorized_of_authentic

/-! ## Two samples -/

/-- The ballot of a validator for the sample block. -/
def sampleBallot (voter : UInt8) : Ballot :=
  ⟨[voter], sampleBftEnv.hashBlock (sampleBlock 0), 1⟩

/-- The leader gets a proposal, the vote of another validator, and its own `Commit`. -/
def authenticEvents : List Event :=
  [.acts (.deliver (.fastProposal { block := sampleBlock 0, epoch := 1, sender := [0] })),
   .casts (sampleBallot 0),
   .acts (.deliver (.fastVote (sampleFastVote 0 0))),
   .acts (.deliver (Node.sampleCommit [1, 0]))]

theorem commits_authorized_sample :
    Always (next sampleBftEnv) (Authorized sampleBftEnv) (start [1] fourValidators)
      authenticEvents := by
  refine commits_authorized sampleBftEnv [1] fourValidators authenticEvents
    ⟨⟨fun vote h => ?_, fun vote h => ?_, trivial⟩, trivial,
      ⟨fun vote h => ?_, fun vote h => ?_, ?_, ?_⟩, ⟨fun vote h => ?_, fun vote h => ?_, .inl ?_⟩,
      trivial⟩
  · exact List.not_mem_nil
  · cases h
  · cases h
    decide +kernel
  · cases h
  · decide +kernel
  · decide +kernel
  · cases h
  · cases h
  · decide +kernel

/-- The leader gets a proposal twice, and counts its own vote twice. -/
def repeatedEvents : List Event :=
  [.acts (.deliver (.fastProposal { block := sampleBlock 0, epoch := 1, sender := [0] })),
   .acts (.deliver (.fastProposal { block := sampleBlock 0, epoch := 1, sender := [0] })),
   .acts (.deliver (Node.sampleCommit [1, 1]))]

/-- It sends the `Commit` for the second vote, and commits with one validator behind it. -/
theorem repeatedEvents_unauthorized :
    Node.sampleCommit [1, 1]
      ∈ ((repeatedEvents.take 2).foldl (next sampleBftEnv) (start [1] fourValidators)).sent ∧
    ¬ Always (next sampleBftEnv) (Authorized sampleBftEnv) (start [1] fourValidators)
      repeatedEvents := by
  refine ⟨by decide +kernel, fun h => ?_⟩
  obtain ⟨epoch, hbacked⟩ := h.2.2.1 (sampleBftEnv.hashBlock (sampleBlock 0)) (by decide +kernel)
  have hcast : (repeatedEvents.foldl (next sampleBftEnv) (start [1] fourValidators)).cast
      = [sampleBallot 1, sampleBallot 1] := by decide +kernel
  -- The leader is the only one who has cast a ballot.
  have hle : 2 ≤ [[(1 : UInt8)]].length := hbacked.le_length fun voter hvoter => by
    have hmem : ⟨voter, _, epoch⟩ ∈ [sampleBallot 1, sampleBallot 1] := hcast ▸ hvoter
    simp only [List.mem_cons, List.not_mem_nil, or_false, or_self] at hmem
    exact List.mem_singleton.mpr (congrArg Ballot.voter hmem)
  exact absurd hle (by decide)

end World

end InterBit.Consensus
