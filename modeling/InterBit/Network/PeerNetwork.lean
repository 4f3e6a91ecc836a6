import InterBit.Lib.LockInvariants
import InterBit.Network.TransactionPool

/-!
# The peers

`P2PNetwork` of `network/mod.rs`: its calls with their guards, as routines. A peer has a channel for
a thousand messages. A message for a full channel waits, and whoever sends it waits with it; the
worker of the channel lets it in when it takes one out. The worker hands messages to channels whose
receivers are gone since `new`, so nothing comes of them.

`measure_peer_latency` keeps its guard on the peers while it asks for them again, to write. So it
answers for no peer that it knows, and no latency is ever set (`latency_of_run`); and from then on
nobody adds a peer (`frozen_of_measured`).
-/

namespace InterBit.Network

open Consensus.Tendermint Lib

/-- `enum MessageType`. -/
inductive MessageType where
  | consensus
  | transaction
  | block
  | stateSync
  | ping
  | pong
  deriving DecidableEq

/-- `struct NetworkMessage`. -/
structure NetworkMessage where
  msgType : MessageType
  payload : List UInt8
  sender : List UInt8
  deriving DecidableEq

/-- `struct ConsensusMessage`. -/
structure ConsensusMessage where
  height : U64
  round : BitVec 32
  msgType : UInt8
  data : List UInt8

/-- `struct Block`. -/
structure Block where
  height : U64
  hash : H256
  parentHash : H256
  transactions : List Transaction
  stateRoot : H256

/-- `struct PeerConnection`; the queue is the number of its channel. -/
structure PeerConnection where
  peerId : List UInt8
  address : String
  latencyMs : U64
  bandwidthMbps : U64
  messageQueue : Nat

/-- A channel, with those that wait to send, in their order, each with its number. -/
structure Channel where
  queue : List NetworkMessage
  waiting : List (Nat × NetworkMessage)

/-- What is outside of the code: `bincode::serialize`, and the order of a hash map. -/
structure Wire where
  transaction : Transaction → List UInt8
  consensusMessage : ConsensusMessage → List UInt8
  block : Block → List UInt8
  order : List PeerConnection → List PeerConnection
  order_perm : ∀ peers, (order peers).Perm peers

/-- `struct P2PNetwork`, with the channels, the tasks that `sync_block` has spawned and that have
not ended, and what the next ones are called. -/
structure P2PNetwork where
  nodeId : List UInt8
  peers : AList fun _ : List UInt8 => PeerConnection
  txPool : TransactionPool
  channels : Nat → Channel
  spawned : List (Nat × Nat × NetworkMessage)
  sending : List Nat
  next : Nat

/-- The locks. -/
inductive NetworkLock where
  | peers
  | messageHandler
  | txPool
  deriving DecidableEq

namespace P2PNetwork

/-- `P2PNetwork::new`. -/
def new (nodeId : List UInt8) : P2PNetwork where
  nodeId
  peers := ∅
  txPool := .new
  channels _ := ⟨[], []⟩
  spawned := []
  sending := []
  next := 0

/-! ## The channels -/

/-- A channel changes. -/
def setChannel (n : P2PNetwork) (channel : Nat) (new : Channel) : P2PNetwork :=
  { n with channels := Function.update n.channels channel new }

/-- `send`: the message is in the channel, or waits under a number. -/
def offer (channel : Nat) (msg : NetworkMessage) (n : P2PNetwork) :
    P2PNetwork × Option (Option Nat) :=
  if (n.channels channel).queue.length < 1000 then
    (n.setChannel channel ⟨(n.channels channel).queue ++ [msg], (n.channels channel).waiting⟩,
      some none)
  else
    (({ n with next := n.next + 1 } : P2PNetwork).setChannel channel
      ⟨(n.channels channel).queue, (n.channels channel).waiting ++ [(n.next, msg)]⟩,
      some (some n.next))

/-- The message does not wait any more. -/
def letIn (channel ticket : Nat) (n : P2PNetwork) : Bool :=
  (n.channels channel).waiting.all fun waiting => waiting.1 ≠ ticket

/-- `recv`: the first message, and there is room for one that waits. -/
def take (channel : Nat) (n : P2PNetwork) : P2PNetwork × Option (Option NetworkMessage) :=
  match (n.channels channel).queue with
  | [] => (n, some none)
  | msg :: queue =>
    (n.setChannel channel
      ⟨queue ++ ((n.channels channel).waiting.take 1).map Prod.snd,
        (n.channels channel).waiting.drop 1⟩,
      some (some msg))

/-- `add_peer` makes a channel. -/
def openChannel (n : P2PNetwork) : P2PNetwork × Option Nat :=
  ({ n with next := n.next + 1 }, some n.next)

/-- `tokio::spawn`, of what sends a message to each of some channels. -/
def spawn (channels : List Nat) (msg : NetworkMessage) (n : P2PNetwork) :
    P2PNetwork × Option (List Nat) :=
  let handles := List.range' n.next channels.length
  ({ n with
      spawned := n.spawned ++ handles.zip (channels.map (·, msg))
      sending := n.sending ++ handles
      next := n.next + channels.length }, some handles)

/-- The spawned task starts. -/
def unspawn (handle : Nat) (n : P2PNetwork) : P2PNetwork × Option (Option (Nat × NetworkMessage)) :=
  match n.spawned.find? (·.1 = handle) with
  | none => (n, some none)
  | some task => ({ n with spawned := n.spawned.filter (·.1 ≠ handle) }, some (some task.2))

/-! ## The calls with their guards -/

/-- A call that takes the locks one after another. -/
abbrev Call := Routine NetworkLock P2PNetwork

/-- What a call answers. -/
inductive Answer where
  | done
  | latency (result : Option U64)
  | count (n : Nat)

/-- `peer.message_queue.send(msg).await`. -/
def send (channel : Nat) (msg : NetworkMessage) : Call Unit := do
  match ← .perform (offer channel msg) with
  | none => return ()
  | some ticket => .await (letIn channel ticket) (.ret ())

/-- The message goes to one peer after the other. -/
def sendAll (msg : NetworkMessage) : List PeerConnection → Call Unit
  | [] => return ()
  | peer :: peers => do
    send peer.messageQueue msg
    sendAll msg peers

/-- The peers, as the hash map gives them. -/
def values (wire : Wire) (n : P2PNetwork) : List PeerConnection :=
  wire.order (n.peers.entries.map Sigma.snd)

/-- `broadcast_transaction`. -/
def broadcastTransaction (env : Env) (wire : Wire) (tx : Transaction) : Call Answer := do
  .guarded ⟨.txPool, .write⟩ (.modify fun n =>
    { n with txPool := (n.txPool.addTransaction env tx).2 })
  .guarded ⟨.peers, .read⟩ do
    let n ← .state
    sendAll ⟨.transaction, wire.transaction tx, n.nodeId⟩ (n.values wire)
    return .done

/-- `sorted_peers.sort_by_key(|p| p.latency_ms)`. -/
def sortPeers (peers : List PeerConnection) : List PeerConnection :=
  peers.mergeSort fun p q => p.latencyMs ≤ q.latencyMs

/-- `broadcast_consensus_message`. -/
def broadcastConsensusMessage (wire : Wire) (msg : ConsensusMessage) : Call Answer :=
  .guarded ⟨.peers, .read⟩ do
    let n ← .state
    sendAll ⟨.consensus, wire.consensusMessage msg, n.nodeId⟩ (sortPeers (n.values wire))
    return .done

/-- The handles, one after the other. -/
def join : List Nat → Call Unit
  | [] => return ()
  | handle :: handles => .await (fun n => handle ∉ n.sending) (join handles)

/-- `sync_block`. -/
def syncBlock (wire : Wire) (block : Block) : Call Answer :=
  .guarded ⟨.peers, .read⟩ do
    let n ← .state
    let handles ← .perform (spawn ((n.values wire).map (·.messageQueue))
      ⟨.block, wire.block block, n.nodeId⟩)
    join handles
    return .done

/-- A task that `sync_block` has spawned. -/
def runSpawned (handle : Nat) : Call Answer :=
  .await (fun n => handle ∈ n.spawned.map Prod.fst) do
    match ← .perform (unspawn handle) with
    | none => return .done
    | some (channel, msg) =>
      send channel msg
      .modify fun n => { n with sending := n.sending.filter (· ≠ handle) }
      return .done

/-- The peer is in the map. -/
def insertPeer (peerId : List UInt8) (peer : PeerConnection) (n : P2PNetwork) : P2PNetwork :=
  { n with peers := n.peers.insert peerId peer }

/-- `add_peer`, without its worker. -/
def addPeer (peerId : List UInt8) (address : String) : Call Answer := do
  let messageQueue ← .perform openChannel
  .guarded ⟨.peers, .write⟩ (.modify (insertPeer peerId
    { peerId, address, latencyMs := 0, bandwidthMbps := 100, messageQueue }))
  return .done

/-- The worker of a channel, and `handle_message`, for one message. -/
def handleNext (channel : Nat) : Call Answer :=
  .await (fun n => (n.channels channel).queue ≠ []) do
    match ← .perform (take channel) with
    | none => return .done
    | some _ => .guarded ⟨.messageHandler, .read⟩ (.ret .done)

/-- The latency is set. -/
def setLatency (peerId : List UInt8) (latency : U64) (n : P2PNetwork) : P2PNetwork :=
  match n.peers.lookup peerId with
  | none => n
  | some peer => n.insertPeer peerId { peer with latencyMs := latency }

/-- What `measure_peer_latency` does with what it finds; `latency` is what the clock shows. -/
def ping (peerId : List UInt8) (latency : U64) (n : P2PNetwork) : Call Answer :=
  match n.peers.lookup peerId with
  | none => return .latency none
  | some peer => do
    send peer.messageQueue ⟨.ping, [], n.nodeId⟩
    .guarded ⟨.peers, .write⟩ (.modify (setLatency peerId latency))
    return .latency (some latency)

/-- `measure_peer_latency`. The guard of the condition is held to the end. -/
def measurePeerLatency (peerId : List UInt8) (latency : U64) : Call Answer :=
  .guarded ⟨.peers, .read⟩ do
    let n ← .state
    ping peerId latency n

/-- `get_peer_count`. -/
def getPeerCount : Call Answer :=
  .guarded ⟨.peers, .read⟩ (.get fun n => .count n.peers.entries.length)

/-- `get_tx_pool_size`. -/
def getTxPoolSize : Call Answer :=
  .guarded ⟨.txPool, .read⟩ (.get fun n => .count n.txPool.pending.entries.length)

end P2PNetwork

/-- What may run. -/
inductive NetworkCall where
  | broadcastTransaction (tx : Transaction)
  | broadcastConsensusMessage (msg : ConsensusMessage)
  | syncBlock (block : Block)
  | runSpawned (handle : Nat)
  | addPeer (peerId : List UInt8) (address : String)
  | handleNext (channel : Nat)
  | measurePeerLatency (peerId : List UInt8) (latency : U64)
  | getPeerCount
  | getTxPoolSize

namespace P2PNetwork

/-- The routine of a call. -/
def routine (env : Env) (wire : Wire) : NetworkCall → Call Answer
  | .broadcastTransaction tx => broadcastTransaction env wire tx
  | .broadcastConsensusMessage msg => broadcastConsensusMessage wire msg
  | .syncBlock block => syncBlock wire block
  | .runSpawned handle => runSpawned handle
  | .addPeer peerId address => addPeer peerId address
  | .handleNext channel => handleNext channel
  | .measurePeerLatency peerId latency => measurePeerLatency peerId latency
  | .getPeerCount => getPeerCount
  | .getTxPoolSize => getTxPoolSize

/-! ## What the calls do with the peers -/

/-- The latencies stay zero, and the peers change under the guard for writing. -/
def Keeps (held : List (Guard NetworkLock)) (n n' : P2PNetwork) : Prop :=
  ((∀ id peer, n.peers.lookup id = some peer → peer.latencyMs = 0) →
      ∀ id peer, n'.peers.lookup id = some peer → peer.latencyMs = 0) ∧
    (n'.peers = n.peers ∨ ⟨.peers, .write⟩ ∈ held)

/-- No latency is answered. -/
def Answer.Blank : Answer → Prop
  | .latency result => result = none
  | _ => True

variable {held : List (Guard NetworkLock)} {n n' : P2PNetwork}

theorem keeps_of_peers (h : n'.peers = n.peers) : Keeps held n n' := by
  refine ⟨fun hzero => ?_, .inl h⟩
  rw [h]
  exact hzero

theorem peers_offer (channel : Nat) (msg : NetworkMessage) (n : P2PNetwork) :
    (offer channel msg n).1.peers = n.peers := by
  rw [offer]
  split
  next => rfl
  next => rfl

theorem peers_take (channel : Nat) (n : P2PNetwork) : (take channel n).1.peers = n.peers := by
  rw [take]
  split
  next => rfl
  next => rfl

theorem peers_unspawn (handle : Nat) (n : P2PNetwork) :
    (unspawn handle n).1.peers = n.peers := by
  rw [unspawn]
  split
  next => rfl
  next => rfl

theorem keeps_insertPeer (peerId : List UInt8) {peer : PeerConnection} (hpeer : peer.latencyMs = 0)
    (h : ⟨.peers, .write⟩ ∈ held) (n : P2PNetwork) :
    Keeps held n (n.insertPeer peerId peer) := by
  refine ⟨fun hzero id other hother => ?_, .inr h⟩
  change (n.peers.insert peerId peer).lookup id = some other at hother
  by_cases hid : id = peerId
  · subst hid
    rw [AList.lookup_insert] at hother
    rw [← Option.some.inj hother, hpeer]
  · rw [AList.lookup_insert_ne hid] at hother
    exact hzero id other hother

/-- Sending touches neither the locks nor the peers. -/
theorem abides_send_bind {α : Type} {Q : α → Prop} (channel : Nat) (msg : NetworkMessage)
    {next : Unit → Call α} (h : (next ()).Abides Keeps Q held) :
    (send channel msg >>= next).Abides Keeps Q held := by
  intro n
  refine ⟨fun n => keeps_of_peers (peers_offer ..), ?_⟩
  cases (offer channel msg n).2 with
  | none => trivial
  | some ticket =>
    cases ticket with
    | none => exact h
    | some ticket => exact h

theorem abides_sendAll (msg : NetworkMessage) (peers : List PeerConnection) :
    (sendAll msg peers).Abides Keeps (fun _ => True) held := by
  induction peers generalizing held with
  | nil => trivial
  | cons peer peers ih => exact abides_send_bind _ _ ih

theorem abides_join (handles : List Nat) :
    (join handles).Abides Keeps (fun _ => True) held := by
  induction handles with
  | nil => trivial
  | cons handle handles ih => exact ih

theorem abides_ping (peerId : List UInt8) (latency : U64) (n : P2PNetwork)
    (h : ⟨.peers, .read⟩ ∈ held) : (ping peerId latency n).Abides Keeps Answer.Blank held := by
  rw [ping]
  split
  next => exact rfl
  next => exact abides_send_bind _ _ fun hfree => absurd (hfree _ h) not_admits_write

/-- No call answers a latency, and each changes the peers under the guard for writing only. -/
theorem abides_routine (env : Env) (wire : Wire) (call : NetworkCall) :
    (routine env wire call).Abides Keeps Answer.Blank [] := by
  cases call with
  | broadcastTransaction tx =>
    refine fun _ => ⟨fun _ => keeps_of_peers rfl, Routine.abides_guarded fun _ n => ?_⟩
    exact (abides_sendAll _ _).bind fun _ _ _ => trivial
  | broadcastConsensusMessage msg =>
    exact Routine.abides_guarded fun _ n => (abides_sendAll _ _).bind fun _ _ _ => trivial
  | syncBlock block =>
    refine Routine.abides_guarded fun _ n => ?_
    refine (Routine.abides_perform (Q := fun _ => True) (fun n => keeps_of_peers rfl)
      fun _ _ _ => trivial).bind fun handles held _ => ?_
    exact (abides_join handles).bind fun _ _ _ => trivial
  | runSpawned handle =>
    refine (Routine.abides_perform (Q := fun _ => True) (fun n => keeps_of_peers (peers_unspawn ..))
      fun _ _ _ => trivial).bind fun task held _ => ?_
    cases task with
    | none => trivial
    | some task => exact abides_send_bind _ _ ⟨fun _ => keeps_of_peers rfl, trivial⟩
  -- the only call that writes a peer, with latency 0
  | addPeer peerId address =>
    refine (Routine.abides_perform (Q := fun _ => True) (fun n => keeps_of_peers rfl)
      fun _ _ _ => trivial).bind fun channel held _ => ?_
    exact fun _ => ⟨keeps_insertPeer peerId rfl List.mem_cons_self, trivial⟩
  | handleNext channel =>
    refine (Routine.abides_perform (Q := fun _ => True) (fun n => keeps_of_peers (peers_take ..))
      fun _ _ _ => trivial).bind fun msg held _ => ?_
    cases msg with
    | none => trivial
    | some msg => exact fun _ => trivial
  -- the write would come under the read guard of the same lock, so it is never reached
  | measurePeerLatency peerId latency =>
    exact Routine.abides_guarded fun _ n => abides_ping peerId latency n List.mem_cons_self
  | getPeerCount => exact fun _ _ => trivial
  | getTxPoolSize => exact fun _ _ => trivial

theorem shutsOut_send_bind {α : Type} {own : Guard NetworkLock} {P : P2PNetwork → Prop}
    (channel : Nat) (msg : NetworkMessage) {next : Unit → Call α}
    (h : (next ()).ShutsOut own P) : (send channel msg >>= next).ShutsOut own P := by
  intro n _
  have hsent : ∃ ticket, (offer channel msg n).2 = some ticket := by
    rw [offer]
    split
    next => exact ⟨_, rfl⟩
    next => exact ⟨_, rfl⟩
  obtain ⟨ticket, hticket⟩ := hsent
  change Routine.ShutsOut own P (Routine.orPanic (offer channel msg n).2 >>= _ >>= next)
  rw [hticket]
  cases ticket with
  | none => exact h
  | some ticket => exact h

/-- What pings a known peer keeps its guard on the peers until it asks for them to write. -/
theorem shutsOut_ping {peerId : List UInt8} {peer : PeerConnection} (latency : U64)
    (hknown : n.peers.lookup peerId = some peer) (P : P2PNetwork → Prop) :
    (ping peerId latency n).ShutsOut ⟨.peers, .read⟩ P := by
  rw [ping, hknown]
  exact shutsOut_send_bind _ _ fun hfree => absurd hfree not_admits_write

/-! ## Runs -/

section Runs

variable {ι : Type} [DecidableEq ι] {env : Env} {wire : Wire} {nodeId : List UInt8}
  {calls : ι → NetworkCall} {is js : List ι}
  {c c₁ c' : Config ι NetworkLock P2PNetwork Answer}

/-- A new network, and any number of calls, workers and spawned tasks. -/
def begin (env : Env) (wire : Wire) (nodeId : List UInt8) (calls : ι → NetworkCall) :
    Config ι NetworkLock P2PNetwork Answer :=
  .start (new nodeId) fun i => routine env wire (calls i)

theorem abides_of_run {ok : Config ι NetworkLock P2PNetwork Answer → ι → Prop}
    (hrun : Run Config.step ok (begin env wire nodeId calls) is c) :
    c.AbidesAll Keeps (fun _ => Answer.Blank) :=
  Config.AbidesAll.run (fun i => abides_routine env wire (calls i)) hrun

/-- Peers of one latency are sent to as they come. -/
theorem sortPeers_eq {peers : List PeerConnection} (h : ∀ peer ∈ peers, peer.latencyMs = 0) :
    sortPeers peers = peers := by
  refine List.mergeSort_of_pairwise (List.pairwise_of_forall_mem_list fun p hp q hq => ?_)
  rw [h p hp, h q hq]
  rfl

/-- In every run no latency is answered and none is set, and a consensus message goes to the peers
as the hash map gives them. -/
theorem latency_of_run {ok : Config ι NetworkLock P2PNetwork Answer → ι → Prop}
    (hrun : Run Config.step ok (begin env wire nodeId calls) is c) :
    (∀ i latency, c.rest i = .ret (.latency latency) → latency = none) ∧
      (∀ id peer, c.state.peers.lookup id = some peer → peer.latencyMs = 0) ∧
      sortPeers (c.state.values wire) = c.state.values wire := by
  have hzero : ∀ id peer, c.state.peers.lookup id = some peer → peer.latencyMs = 0 := by
    have hboth : c.AbidesAll Keeps (fun _ => Answer.Blank) ∧
        ∀ id peer, c.state.peers.lookup id = some peer → peer.latencyMs = 0 := by
      refine hrun.invariant (I := fun d => d.AbidesAll Keeps (fun _ => Answer.Blank) ∧
        ∀ id peer, d.state.peers.lookup id = some peer → peer.latencyMs = 0) ?_ ⟨?_, ?_⟩
      · rintro d j d' o - - hstep ⟨habides, hzero⟩
        obtain ⟨habides', hstate⟩ := habides.step hstep
        refine ⟨habides', ?_⟩
        rcases hstate with hstate | hkeeps
        · rwa [hstate]
        · exact hkeeps.1 hzero
      · exact fun i => abides_routine env wire (calls i)
      · exact fun id peer hpeer => by cases hpeer
    exact hboth.2
  refine ⟨fun i latency hret => ?_, hzero, sortPeers_eq fun peer hpeer => ?_⟩
  · have hblank := abides_of_run hrun i
    rw [hret] at hblank
    exact hblank
  · obtain ⟨entry, hentry, rfl⟩ := List.mem_map.mp ((wire.order_perm _).mem_iff.mp hpeer)
    exact hzero entry.1 entry.2 (AList.mem_lookup_iff.mpr hentry)

/-- Once `measure_peer_latency` has taken its guard when the peer was known, it never returns, the
peers stay as they are, and nobody holds the guard to change them. -/
theorem frozen_of_measured {peerId : List UInt8} {latency : U64} {i : ι} {peer : PeerConnection}
    {o : Unit} (hrun : Run Config.step (fun _ _ => True) (begin env wire nodeId calls) is c)
    (hrest : c.rest i = measurePeerLatency peerId latency)
    (hknown : c.state.peers.lookup peerId = some peer) (hstep : c.step i = some (c₁, o))
    (hlater : Run Config.step (fun _ _ => True) c₁ js c') :
    (∀ answer, c'.rest i ≠ .ret answer) ∧ c'.state.peers = c.state.peers ∧
      ∀ j, ⟨.peers, .write⟩ ∉ c'.held j := by
  have hexclusive := (Config.exclusive_start _ _).run hrun
  have hcompatible := (Config.compatible_start _ _).run hrun
  obtain ⟨hself, -⟩ := Config.step_local hstep
  -- the step takes the guard
  have htaken : c₁.ShutOut i ⟨.peers, .read⟩ (fun n => n.peers = c.state.peers) ∧
      c₁.state = c.state := by
    rw [hrest] at hself
    generalize hheld : c₁.held i = held at hself
    generalize hnext : c₁.rest i = next at hself
    generalize hstate : c₁.state = state at hself
    cases hself with
    | acquire hfree =>
      refine ⟨⟨hheld ▸ List.mem_cons_self, ?_⟩, rfl⟩
      rw [hnext]
      refine Routine.ShutsOut.bind fun n hn => ?_
      have hpeer : n.peers.lookup peerId = some peer := by rw [hn, hknown]
      exact shutsOut_ping latency hpeer _
  obtain ⟨hshut, hsame⟩ := htaken
  have hend := hshut.run (congrArg peers hsame) (hexclusive.step hstep) (hcompatible.step hstep)
    (fun _ => ⟨rfl, rfl⟩) ((abides_of_run hrun).step hstep).1 ?_ hlater
  · refine ⟨hend.1.not_returned, hend.2, fun j hwrite => ?_⟩
    exact not_admits_write (Config.admits_of_held ((hexclusive.step hstep).run hlater)
      ((hcompatible.step hstep).run hlater) hend.1.1 hwrite fun _ => ⟨rfl, rfl⟩)
  · rintro held n n' ⟨-, hpeers | hwrite⟩
    · exact .inl fun hn => hpeers.trans hn
    · exact .inr ⟨_, hwrite, not_admits_write⟩

end Runs

local instance twoTasks : NeZero 2 := ⟨by decide⟩

/-- A peer is added and measured. -/
def sampleBegin : Config (Fin 2) NetworkLock P2PNetwork Answer :=
  begin { overflowChecks := true, sha256 := fun _ => Vector.replicate 32 0 }
    ⟨fun _ => [], fun _ => [], fun _ => [], id, fun _ => .refl _⟩ [0]
    fun i => if i = 0 then .addPeer [1] "peer" else .measurePeerLatency [1] 5

theorem latency_of_run_sample :
    ∃ c, replay Config.step sampleBegin [0, 0, 0, 0, 0, 1, 1, 1, 1] = some c ∧
      c.state.peers.lookup [1] = some ⟨[1], "peer", 0, 100, 0⟩ ∧
      ∀ i latency, c.rest i = .ret (.latency latency) → latency = none := by
  have hrun : ∃ c, replay Config.step sampleBegin [0, 0, 0, 0, 0, 1, 1, 1, 1] = some c ∧
      c.state.peers.lookup [1] = some ⟨[1], "peer", 0, 100, 0⟩ := ⟨_, rfl, rfl⟩
  obtain ⟨c, hreplay, hpeer⟩ := hrun
  exact ⟨c, hreplay, hpeer, (latency_of_run (run_of_replay hreplay)).1⟩

/-- The peer is known when it is measured. -/
theorem frozen_of_measured_sample :
    ∃ c c₁, replay Config.step sampleBegin [0, 0, 0, 0, 0] = some c ∧
      c.step 1 = some (c₁, ()) ∧
      ∀ js c', Run Config.step (fun _ _ => True) c₁ js c' → ∀ answer, c'.rest 1 ≠ .ret answer := by
  have hrun : ∃ c c₁, replay Config.step sampleBegin [0, 0, 0, 0, 0] = some c ∧
      c.step 1 = some (c₁, ()) ∧ c.rest 1 = measurePeerLatency [1] 5 ∧
      c.state.peers.lookup [1] = some ⟨[1], "peer", 0, 100, 0⟩ := ⟨_, _, rfl, rfl, rfl, rfl⟩
  obtain ⟨c, c₁, hreplay, hstep, hrest, hpeer⟩ := hrun
  exact ⟨c, c₁, hreplay, hstep, fun _ _ hlater =>
    (frozen_of_measured (run_of_replay hreplay) hrest hpeer hstep hlater).1⟩

end P2PNetwork

end InterBit.Network
