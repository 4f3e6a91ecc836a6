import InterBit.CrossChain.Types

/-!
# Channels between chains

`cross_chain/ibc.rs`. The handshake of a channel, and the packets that are sent, received and
acknowledged on it. The proofs that come with packets are not checked in the source, and the
connections are never used.

`IBCSession` is a handler together with what has happened on it, in the order in which it has
happened.
-/

namespace InterBit.CrossChain

/-- `enum ChannelState`. -/
inductive ChannelState where
  | init
  | tryOpen
  | opened
  | closed
  deriving DecidableEq

/-- `enum ChannelOrder`. -/
inductive ChannelOrder where
  | ordered
  | unordered
  deriving DecidableEq

/-- `struct IBCChannel`. -/
structure IBCChannel where
  channelId : String
  portId : String
  counterpartyChannelId : String
  counterpartyPortId : String
  connectionId : String
  state : ChannelState
  version : String
  ordering : ChannelOrder

/-- `struct IBCPacket`. -/
structure IBCPacket where
  sequence : U64
  sourcePort : String
  sourceChannel : String
  destinationPort : String
  destinationChannel : String
  data : List UInt8
  timeoutHeight : U64
  timeoutTimestamp : U64

/-- `struct IBCHandler`, without the connections. -/
structure IBCHandler where
  channels : AList fun _ : String => IBCChannel
  packetCommitments : AList fun _ : String × U64 => H256
  packetReceipts : AList fun _ : String × U64 => Bool
  packetAcknowledgements : AList fun _ : String × U64 => List UInt8
  nextSequence : AList fun _ : String => U64

/-- `verify_packet_commitment`. -/
def verifyPacketCommitment (_packet : IBCPacket) (_proof : List UInt8) :
    Except CrossChainError Bool := .ok true

/-- `verify_acknowledgement`. -/
def verifyAcknowledgement (_channelId : String) (_sequence : U64)
    (_acknowledgement _proof : List UInt8) : Except CrossChainError Bool := .ok true

/-- `process_packet_data`. -/
def processPacketData (_data : List UInt8) : Except CrossChainError (List UInt8) := .ok [1]

/-- `str::as_bytes`. -/
def asBytes (text : String) : List UInt8 := text.toUTF8.data.toList

/-- `compute_packet_commitment`. -/
def computePacketCommitment (env : KeccakEnv) (packet : IBCPacket) : H256 :=
  env.keccak256 (toLeBytes 8 packet.sequence ++ asBytes packet.sourcePort
    ++ asBytes packet.sourceChannel ++ asBytes packet.destinationPort
    ++ asBytes packet.destinationChannel ++ packet.data ++ toLeBytes 8 packet.timeoutHeight
    ++ toLeBytes 8 packet.timeoutTimestamp)

namespace IBCHandler

/-- `IBCHandler::new`. -/
def new : IBCHandler where
  channels := ∅
  packetCommitments := ∅
  packetReceipts := ∅
  packetAcknowledgements := ∅
  nextSequence := ∅

/-- `create_channel`, with the reading of the clock in nanoseconds that `generate_id` makes. -/
def createChannel (handler : IBCHandler) (portId connectionId version : String)
    (ordering : ChannelOrder) (id : U64) : IBCHandler × String :=
  let channelId := "channel-" ++ toString id.toNat
  let channel : IBCChannel :=
    { channelId, portId, counterpartyChannelId := "", counterpartyPortId := "", connectionId
      state := .init, version, ordering }
  ({ handler with channels := handler.channels.insert channelId channel }, channelId)

/-- `channel_open_try`. -/
def channelOpenTry (handler : IBCHandler)
    (channelId counterpartyChannelId counterpartyPortId : String) :
    IBCHandler × Except CrossChainError Unit :=
  match handler.channels.lookup channelId with
  | none => (handler, .error (.lightClientError "Channel not found"))
  | some channel =>
    if channel.state ≠ .init then (handler, .error (.lightClientError "Invalid channel state"))
    else
      let channel := { channel with counterpartyChannelId, counterpartyPortId, state := .tryOpen }
      ({ handler with channels := handler.channels.insert channelId channel }, .ok ())

/-- `channel_open_confirm`. -/
def channelOpenConfirm (handler : IBCHandler) (channelId : String) :
    IBCHandler × Except CrossChainError Unit :=
  match handler.channels.lookup channelId with
  | none => (handler, .error (.lightClientError "Channel not found"))
  | some channel =>
    if channel.state ≠ .tryOpen then (handler, .error (.lightClientError "Invalid channel state"))
    else
      let channel := { channel with state := .opened }
      ({ handler with channels := handler.channels.insert channelId channel }, .ok ())

/-- `close_channel`. -/
def closeChannel (handler : IBCHandler) (channelId : String) :
    IBCHandler × Except CrossChainError Unit :=
  match handler.channels.lookup channelId with
  | none => (handler, .error (.lightClientError "Channel not found"))
  | some channel =>
    let channel := { channel with state := .closed }
    ({ handler with channels := handler.channels.insert channelId channel }, .ok ())

/-- `send_packet`. -/
def sendPacket (env : KeccakEnv) (handler : IBCHandler) (channelId portId : String)
    (data : List UInt8) (timeoutHeight : U64) (now : Seconds) : IBCHandler × Outcome U64 :=
  match handler.channels.lookup channelId with
  | none => (handler, some (.error (.lightClientError "Channel not found")))
  | some channel =>
    if channel.state ≠ .opened then
      (handler, some (.error (.lightClientError "Channel not open")))
    else
      let sequence := (handler.nextSequence.lookup channelId).getD 1
      match env.add64 sequence 1 with
      | none =>
        ({ handler with nextSequence := handler.nextSequence.insert channelId sequence }, none)
      | some following =>
        let packet : IBCPacket :=
          { sequence
            sourcePort := portId
            sourceChannel := channelId
            destinationPort := channel.counterpartyPortId
            destinationChannel := channel.counterpartyChannelId
            data
            timeoutHeight
            timeoutTimestamp := now.after 3600 }
        ({ handler with
            nextSequence := handler.nextSequence.insert channelId following
            packetCommitments := handler.packetCommitments.insert (channelId, sequence)
              (computePacketCommitment env packet) },
          some (.ok sequence))

/-- `receive_packet`. -/
def receivePacket (handler : IBCHandler) (packet : IBCPacket) (proof : List UInt8) :
    IBCHandler × Except CrossChainError (List UInt8) :=
  match handler.channels.lookup packet.destinationChannel with
  | none => (handler, .error (.lightClientError "Channel not found"))
  | some channel =>
    if channel.state ≠ .opened then (handler, .error (.lightClientError "Channel not open"))
    else
      match verifyPacketCommitment packet proof with
      | .error error => (handler, .error error)
      | .ok false => (handler, .error .invalidProof)
      | .ok true =>
        let key := (packet.destinationChannel, packet.sequence)
        let received := { handler with packetReceipts := handler.packetReceipts.insert key true }
        match processPacketData packet.data with
        | .error error => (received, .error error)
        | .ok acknowledgement =>
          ({ received with
              packetAcknowledgements := received.packetAcknowledgements.insert key acknowledgement },
            .ok acknowledgement)

/-- `acknowledge_packet`. -/
def acknowledgePacket (handler : IBCHandler) (channelId : String) (sequence : U64)
    (acknowledgement proof : List UInt8) : IBCHandler × Except CrossChainError Unit :=
  match handler.channels.lookup channelId with
  | none => (handler, .error (.lightClientError "Channel not found"))
  | some _ =>
    match verifyAcknowledgement channelId sequence acknowledgement proof with
    | .error error => (handler, .error error)
    | .ok false => (handler, .error .invalidProof)
    | .ok true =>
      ({ handler with packetCommitments := handler.packetCommitments.erase (channelId, sequence) },
        .ok ())

/-- The channel of that name, if it is open. -/
def openChannel (handler : IBCHandler) (channelId : String) : Option IBCChannel :=
  (handler.channels.lookup channelId).filter (·.state = .opened)

/-- The sequence number that the next packet on a channel gets. -/
def sequence (handler : IBCHandler) (channelId : String) : U64 :=
  (handler.nextSequence.lookup channelId).getD 1

variable {channelId : String} {channel : IBCChannel}

theorem openChannel_eq_some {handler : IBCHandler} :
    handler.openChannel channelId = some channel ↔
      handler.channels.lookup channelId = some channel ∧ channel.state = .opened := by
  rw [openChannel, Option.filter_eq_some_iff, decide_eq_true_iff]

theorem openChannel_eq_none {handler : IBCHandler} :
    handler.openChannel channelId = none ↔
      ∀ channel, handler.channels.lookup channelId = some channel → channel.state ≠ .opened := by
  rw [openChannel, Option.filter_eq_none_iff]
  exact forall_congr' fun channel => imp_congr_right fun _ => not_congr decide_eq_true_iff

theorem sendPacket_of_none (env : KeccakEnv) {handler : IBCHandler}
    (h : handler.openChannel channelId = none) (portId : String) (data : List UInt8)
    (timeoutHeight : U64) (now : Seconds) :
    ∃ error, handler.sendPacket env channelId portId data timeoutHeight now
      = (handler, some (.error error)) := by
  unfold sendPacket
  cases hlookup : handler.channels.lookup channelId with
  | none => exact ⟨_, rfl⟩
  | some channel => exact ⟨_, if_pos (openChannel_eq_none.mp h channel hlookup)⟩

/-- A packet on an open channel is sent, unless the sequence number overflows. -/
theorem sendPacket_of_some (env : KeccakEnv) {handler : IBCHandler}
    (h : handler.openChannel channelId = some channel) (portId : String) (data : List UInt8)
    (timeoutHeight : U64) (now : Seconds) :
    ∃ commitment, handler.sendPacket env channelId portId data timeoutHeight now =
      match env.add64 (handler.sequence channelId) 1 with
      | none =>
        ({ handler with
            nextSequence := handler.nextSequence.insert channelId (handler.sequence channelId) },
          none)
      | some following =>
        ({ handler with
            nextSequence := handler.nextSequence.insert channelId following
            packetCommitments := handler.packetCommitments.insert
              (channelId, handler.sequence channelId) commitment },
          some (.ok (handler.sequence channelId))) := by
  obtain ⟨hlookup, hopen⟩ := openChannel_eq_some.mp h
  unfold sendPacket
  rw [hlookup]
  exact ⟨_, if_neg (not_not.mpr hopen)⟩

theorem receivePacket_of_none {handler : IBCHandler} {packet : IBCPacket}
    (h : handler.openChannel packet.destinationChannel = none) (proof : List UInt8) :
    ∃ error, handler.receivePacket packet proof = (handler, .error error) := by
  unfold receivePacket
  cases hlookup : handler.channels.lookup packet.destinationChannel with
  | none => exact ⟨_, rfl⟩
  | some channel => exact ⟨_, if_pos (openChannel_eq_none.mp h channel hlookup)⟩

/-- A packet on an open channel is accepted, whatever it is. -/
theorem receivePacket_of_some {handler : IBCHandler} {packet : IBCPacket}
    (h : handler.openChannel packet.destinationChannel = some channel) (proof : List UInt8) :
    handler.receivePacket packet proof =
      ({ handler with
          packetReceipts := handler.packetReceipts.insert
            (packet.destinationChannel, packet.sequence) true
          packetAcknowledgements := handler.packetAcknowledgements.insert
            (packet.destinationChannel, packet.sequence) [1] },
        .ok [1]) := by
  obtain ⟨hlookup, hopen⟩ := openChannel_eq_some.mp h
  unfold receivePacket
  rw [hlookup]
  exact if_neg (not_not.mpr hopen)

theorem acknowledgePacket_of_none {handler : IBCHandler}
    (h : handler.channels.lookup channelId = none) (sequence : U64)
    (acknowledgement proof : List UInt8) :
    ∃ error, handler.acknowledgePacket channelId sequence acknowledgement proof
      = (handler, .error error) := by
  unfold acknowledgePacket
  rw [h]
  exact ⟨_, rfl⟩

/-- Anything on a channel can be acknowledged. -/
theorem acknowledgePacket_of_some {handler : IBCHandler}
    (h : handler.channels.lookup channelId = some channel) (sequence : U64)
    (acknowledgement proof : List UInt8) :
    handler.acknowledgePacket channelId sequence acknowledgement proof =
      ({ handler with
          packetCommitments := handler.packetCommitments.erase (channelId, sequence) }, .ok ()) := by
  unfold acknowledgePacket
  rw [h]
  rfl

end IBCHandler

/-! ## Sessions -/

/-- A call that is about a channel itself. -/
inductive ChannelCall where
  | create (portId connectionId version : String) (ordering : ChannelOrder) (id : U64)
  | openTry (channelId counterpartyChannelId counterpartyPortId : String)
  | openConfirm (channelId : String)
  | close (channelId : String)

/-- A call that is about a channel itself. -/
def IBCHandler.change (handler : IBCHandler) : ChannelCall → IBCHandler
  | .create portId connectionId version ordering id =>
    (handler.createChannel portId connectionId version ordering id).1
  | .openTry channelId counterpartyChannelId counterpartyPortId =>
    (handler.channelOpenTry channelId counterpartyChannelId counterpartyPortId).1
  | .openConfirm channelId => (handler.channelOpenConfirm channelId).1
  | .close channelId => (handler.closeChannel channelId).1

/-- A call. -/
inductive IBCCall where
  | channel (call : ChannelCall)
  | send (channelId portId : String) (data : List UInt8) (timeoutHeight : U64) (now : Seconds)
  | receive (packet : IBCPacket) (proof : List UInt8)
  | acknowledge (channelId : String) (sequence : U64) (acknowledgement proof : List UInt8)

/-- What has happened to a packet. -/
inductive IBCEvent where
  | sent (channelId : String) (sequence : U64)
  /-- `process_packet_data` has been applied to it, and it has been accepted. -/
  | accepted (channelId : String) (ordering : ChannelOrder) (sequence : U64)
  | acknowledged (channelId : String) (sequence : U64)
  deriving DecidableEq

/-- The packet of an event that is the acceptance of one. -/
def IBCEvent.processed : IBCEvent → Option (String × U64)
  | .accepted channelId _ sequence => some (channelId, sequence)
  | _ => none

/-- Its number, if it has been accepted on the channel while that was ordered. -/
def IBCEvent.inOrderOn (channelId : String) : IBCEvent → Option U64
  | .accepted channelId' .ordered sequence => if channelId' = channelId then some sequence else none
  | _ => none

/-- Its number, if it has been sent on the channel. -/
def IBCEvent.sentOn (channelId : String) : IBCEvent → Option U64
  | .sent channelId' sequence => if channelId' = channelId then some sequence else none
  | _ => none

/-- Its number, if it has been acknowledged on the channel. -/
def IBCEvent.acknowledgedOn (channelId : String) : IBCEvent → Option U64
  | .acknowledged channelId' sequence => if channelId' = channelId then some sequence else none
  | _ => none

theorem filterMap_concat {α : Type} (f : IBCEvent → Option α) (events : List IBCEvent)
    (event : IBCEvent) :
    (events ++ [event]).filterMap f = events.filterMap f ++ (f event).toList := by
  rw [List.filterMap_append, List.filterMap_cons]
  cases f event with
  | none => rfl
  | some a => rfl

/-- An event that is not one of those that are looked for. -/
theorem filterMap_concat_none {α : Type} {f : IBCEvent → Option α} {event : IBCEvent}
    (h : f event = none) (events : List IBCEvent) :
    (events ++ [event]).filterMap f = events.filterMap f := by
  rw [filterMap_concat, h]
  exact List.append_nil _

/-- An event that may be one of them. -/
theorem filterMap_concat_ite {α : Type} {f : IBCEvent → Option α} {event : IBCEvent} {p : Prop}
    [Decidable p] {a : α} (h : f event = if p then some a else none) (events : List IBCEvent) :
    (events ++ [event]).filterMap f = events.filterMap f ++ if p then [a] else [] := by
  rw [filterMap_concat, h]
  split
  next => rfl
  next => rfl

/-- A handler, and what has happened on it. -/
structure IBCSession where
  handler : IBCHandler
  events : List IBCEvent

namespace IBCSession

/-- A new handler. -/
def new : IBCSession := ⟨.new, []⟩

/-- One call. -/
def next (env : KeccakEnv) (session : IBCSession) : IBCCall → IBCSession
  | .channel call => { session with handler := session.handler.change call }
  | .send channelId portId data timeoutHeight now =>
    match session.handler.sendPacket env channelId portId data timeoutHeight now with
    | (handler, some (.ok sequence)) => ⟨handler, session.events ++ [.sent channelId sequence]⟩
    | (handler, _) => { session with handler }
  | .receive packet proof =>
    match session.handler.receivePacket packet proof with
    | (handler, .ok _) =>
      ⟨handler, session.events ++ ((session.handler.openChannel packet.destinationChannel).map
        fun channel =>
          .accepted packet.destinationChannel channel.ordering packet.sequence).toList⟩
    | (handler, .error _) => { session with handler }
  | .acknowledge channelId sequence acknowledgement proof =>
    match session.handler.acknowledgePacket channelId sequence acknowledgement proof with
    | (handler, .ok ()) => ⟨handler, session.events ++ [.acknowledged channelId sequence]⟩
    | (handler, .error _) => { session with handler }

/-- Nothing but the channels change. -/
theorem change_eq (handler : IBCHandler) (call : ChannelCall) :
    ∃ channels, handler.change call = { handler with channels } := by
  cases call with
  | create portId connectionId version ordering id => exact ⟨_, rfl⟩
  | openTry channelId counterpartyChannelId counterpartyPortId =>
    show ∃ channels, (handler.channelOpenTry channelId _ _).1 = { handler with channels }
    unfold IBCHandler.channelOpenTry
    split
    next => exact ⟨_, rfl⟩
    next =>
      split
      next => exact ⟨_, rfl⟩
      next => exact ⟨_, rfl⟩
  | openConfirm channelId =>
    show ∃ channels, (handler.channelOpenConfirm channelId).1 = { handler with channels }
    unfold IBCHandler.channelOpenConfirm
    split
    next => exact ⟨_, rfl⟩
    next =>
      split
      next => exact ⟨_, rfl⟩
      next => exact ⟨_, rfl⟩
  | close channelId =>
    show ∃ channels, (handler.closeChannel channelId).1 = { handler with channels }
    unfold IBCHandler.closeChannel
    split
    next => exact ⟨_, rfl⟩
    next => exact ⟨_, rfl⟩

variable {session : IBCSession} {env : KeccakEnv} {channelId : String}

theorem next_send_none (h : session.handler.openChannel channelId = none) (portId : String)
    (data : List UInt8) (timeoutHeight : U64) (now : Seconds) :
    session.next env (.send channelId portId data timeoutHeight now) = session := by
  obtain ⟨error, heq⟩ := IBCHandler.sendPacket_of_none env h portId data timeoutHeight now
  unfold next
  dsimp only
  rw [heq]

theorem next_receive_none {packet : IBCPacket}
    (h : session.handler.openChannel packet.destinationChannel = none) (proof : List UInt8) :
    session.next env (.receive packet proof) = session := by
  obtain ⟨error, heq⟩ := IBCHandler.receivePacket_of_none h proof
  unfold next
  dsimp only
  rw [heq]

theorem next_receive_some {packet : IBCPacket} {channel : IBCChannel}
    (h : session.handler.openChannel packet.destinationChannel = some channel)
    (proof : List UInt8) : session.next env (.receive packet proof) =
      ⟨(session.handler.receivePacket packet proof).1, session.events
        ++ [.accepted packet.destinationChannel channel.ordering packet.sequence]⟩ := by
  unfold next
  dsimp only
  rw [IBCHandler.receivePacket_of_some h proof, h]
  rfl

theorem next_acknowledge_none (h : session.handler.channels.lookup channelId = none)
    (sequence : U64) (acknowledgement proof : List UInt8) :
    session.next env (.acknowledge channelId sequence acknowledgement proof) = session := by
  obtain ⟨error, heq⟩ :=
    IBCHandler.acknowledgePacket_of_none h sequence acknowledgement proof
  unfold next
  dsimp only
  rw [heq]

theorem next_acknowledge_some {channel : IBCChannel}
    (h : session.handler.channels.lookup channelId = some channel) (sequence : U64)
    (acknowledgement proof : List UInt8) :
    session.next env (.acknowledge channelId sequence acknowledgement proof) =
      ⟨{ session.handler with
          packetCommitments := session.handler.packetCommitments.erase (channelId, sequence) },
        session.events ++ [.acknowledged channelId sequence]⟩ := by
  unfold next
  dsimp only
  rw [IBCHandler.acknowledgePacket_of_some h sequence acknowledgement proof]

end IBCSession

end InterBit.CrossChain
