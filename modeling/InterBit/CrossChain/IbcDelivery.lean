import InterBit.CrossChain.Ibc
import InterBit.Lib.Numbered
import InterBit.Lib.Trace

/-!
# What a channel delivers

`receive_packet` writes a receipt for each packet and never looks for one, and it does not ask for
the ordering of the channel. So what is delivered, and in which order, is up to whoever relays the
packets. `delivered_once_iff`: no packet is processed twice exactly if none comes to an open
channel for which there is a receipt already. `delivered_in_order_iff`: the ordered channels deliver
in order exactly if each packet that comes to one of them, while it is open, is the next.
-/

namespace InterBit.CrossChain

open InterBit.Lib

namespace IBCSession

/-! ## Exactly once -/

/-- The packets to which `process_packet_data` has been applied. -/
def processed (session : IBCSession) : List (String × U64) :=
  session.events.filterMap IBCEvent.processed

/-- Two handlers in which everything is found alike. -/
structure SameMaps (handler handler' : IBCHandler) : Prop where
  channels : ∀ key, handler'.channels.lookup key = handler.channels.lookup key
  packetCommitments : ∀ key,
    handler'.packetCommitments.lookup key = handler.packetCommitments.lookup key
  packetReceipts : ∀ key, handler'.packetReceipts.lookup key = handler.packetReceipts.lookup key
  packetAcknowledgements : ∀ key,
    handler'.packetAcknowledgements.lookup key = handler.packetAcknowledgements.lookup key
  nextSequence : ∀ key, handler'.nextSequence.lookup key = handler.nextSequence.lookup key

theorem SameMaps.refl (handler : IBCHandler) : SameMaps handler handler :=
  ⟨fun _ => rfl, fun _ => rfl, fun _ => rfl, fun _ => rfl, fun _ => rfl⟩

/-- After the call, no packet has been processed twice; what has been acknowledged stays as it is;
and if the call is for a packet that has been processed, the handler stays as it is. -/
structure DeliversOnce (env : KeccakEnv) (session : IBCSession) (call : IBCCall) : Prop where
  once : (session.next env call).processed.Nodup
  kept : ∀ key acknowledgement,
    session.handler.packetAcknowledgements.lookup key = some acknowledgement →
    (session.next env call).handler.packetAcknowledgements.lookup key = some acknowledgement
  unchanged : ∀ packet proof, call = .receive packet proof →
    (packet.destinationChannel, packet.sequence) ∈ session.processed →
    SameMaps session.handler (session.next env call).handler

/-- A packet for an open channel has no receipt yet. -/
def Fresh (session : IBCSession) : IBCCall → Prop
  | .receive packet _ => session.handler.openChannel packet.destinationChannel ≠ none →
    session.handler.packetReceipts.lookup (packet.destinationChannel, packet.sequence) = none
  | _ => True

/-- There are a receipt and an acknowledgement for each packet that has been processed. -/
structure Recorded (session : IBCSession) : Prop where
  receipts : ∀ key, session.handler.packetReceipts.lookup key
    = if key ∈ session.processed then some true else none
  acknowledgements : ∀ key, session.handler.packetAcknowledgements.lookup key
    = if key ∈ session.processed then some [1] else none

/-- What a call does that is not the receipt of a packet. -/
theorem next_of_not_receive (env : KeccakEnv) (session : IBCSession) {call : IBCCall}
    (h : ∀ packet proof, call ≠ .receive packet proof) :
    (session.next env call).processed = session.processed ∧
      (session.next env call).handler.packetReceipts = session.handler.packetReceipts ∧
      (session.next env call).handler.packetAcknowledgements
        = session.handler.packetAcknowledgements := by
  cases call with
  | channel call =>
    obtain ⟨channels, heq⟩ := change_eq session.handler call
    unfold next
    dsimp only
    rw [heq]
    exact ⟨rfl, rfl, rfl⟩
  | send channelId portId data timeoutHeight now =>
    cases hopen : session.handler.openChannel channelId with
    | none =>
      rw [next_send_none hopen]
      exact ⟨rfl, rfl, rfl⟩
    | some channel =>
      obtain ⟨commitment, heq⟩ := IBCHandler.sendPacket_of_some env hopen portId data
        timeoutHeight now
      unfold next
      dsimp only
      rw [heq]
      cases env.add64 (session.handler.sequence channelId) 1 with
      | none => exact ⟨rfl, rfl, rfl⟩
      | some following => exact ⟨filterMap_concat_none rfl _, rfl, rfl⟩
  | receive packet proof => exact absurd rfl (h packet proof)
  | acknowledge channelId sequence acknowledgement proof =>
    cases hlookup : session.handler.channels.lookup channelId with
    | none =>
      rw [next_acknowledge_none hlookup]
      exact ⟨rfl, rfl, rfl⟩
    | some channel =>
      rw [next_acknowledge_some hlookup]
      exact ⟨filterMap_concat_none rfl _, rfl, rfl⟩

variable {session : IBCSession} {packet : IBCPacket}

theorem processed_receive {env : KeccakEnv} {channel : IBCChannel}
    (h : session.handler.openChannel packet.destinationChannel = some channel)
    (proof : List UInt8) : (session.next env (.receive packet proof)).processed
      = session.processed ++ [(packet.destinationChannel, packet.sequence)] := by
  rw [next_receive_some h]
  exact filterMap_concat ..

/-- An insertion writes down one more element. -/
theorem lookup_insert_ite {β : Type} {entries : AList fun _ : String × U64 => β}
    {keys : List (String × U64)} {value : β}
    (h : ∀ key, entries.lookup key = if key ∈ keys then some value else none)
    (new key : String × U64) :
    (entries.insert new value).lookup key = if key ∈ keys ++ [new] then some value else none := by
  by_cases hsame : key = new
  · subst hsame
    rw [AList.lookup_insert, if_pos (List.mem_append_right _ (List.mem_singleton_self key))]
  · rw [AList.lookup_insert_ne hsame, h key]
    refine if_congr ?_ rfl rfl
    rw [List.mem_append, List.mem_singleton, or_iff_left hsame]

theorem Recorded.next {session : IBCSession} (h : session.Recorded) (env : KeccakEnv)
    (call : IBCCall) : (session.next env call).Recorded := by
  by_cases hreceive : ∃ packet proof, call = .receive packet proof
  · obtain ⟨packet, proof, rfl⟩ := hreceive
    cases hopen : session.handler.openChannel packet.destinationChannel with
    | none =>
      rw [next_receive_none hopen]
      exact h
    | some channel =>
      refine ⟨fun key => ?_, fun key => ?_⟩
      · rw [processed_receive hopen, next_receive_some hopen,
          IBCHandler.receivePacket_of_some hopen]
        exact lookup_insert_ite h.receipts _ key
      · rw [processed_receive hopen, next_receive_some hopen,
          IBCHandler.receivePacket_of_some hopen]
        exact lookup_insert_ite h.acknowledgements _ key
  · obtain ⟨hprocessed, hreceipts, hacknowledgements⟩ := next_of_not_receive env session
      fun packet proof heq => hreceive ⟨packet, proof, heq⟩
    refine ⟨fun key => ?_, fun key => ?_⟩
    · rw [hprocessed, hreceipts]
      exact h.receipts key
    · rw [hprocessed, hacknowledgements]
      exact h.acknowledgements key

/-- Inserting what is there already. -/
theorem lookup_insert_of_mem {β : Type} {entries : AList fun _ : String × U64 => β}
    {new : String × U64} {value : β} (h : entries.lookup new = some value) (key : String × U64) :
    (entries.insert new value).lookup key = entries.lookup key := by
  by_cases hsame : key = new
  · subst hsame
    rw [AList.lookup_insert, h]
  · exact AList.lookup_insert_ne hsame

/-- A packet that has been processed changes nothing when it is processed again. -/
theorem Recorded.unchanged (h : session.Recorded) (env : KeccakEnv)
    (hmem : (packet.destinationChannel, packet.sequence) ∈ session.processed) (proof : List UInt8) :
    SameMaps session.handler (session.next env (.receive packet proof)).handler := by
  cases hopen : session.handler.openChannel packet.destinationChannel with
  | none =>
    rw [next_receive_none hopen]
    exact .refl _
  | some channel =>
    rw [next_receive_some hopen, IBCHandler.receivePacket_of_some hopen]
    refine ⟨fun _ => rfl, fun _ => rfl, ?_, ?_, fun _ => rfl⟩
    · exact lookup_insert_of_mem ((h.receipts _).trans (if_pos hmem))
    · exact lookup_insert_of_mem ((h.acknowledgements _).trans (if_pos hmem))

theorem Recorded.kept (h : session.Recorded) (env : KeccakEnv) (call : IBCCall) {key : String × U64}
    {acknowledgement : List UInt8}
    (hlookup : session.handler.packetAcknowledgements.lookup key = some acknowledgement) :
    (session.next env call).handler.packetAcknowledgements.lookup key = some acknowledgement := by
  have hmem : key ∈ session.processed := by
    by_contra hno
    rw [h.acknowledgements, if_neg hno] at hlookup
    cases hlookup
  have hkept : key ∈ (session.next env call).processed := by
    by_cases hreceive : ∃ packet proof, call = .receive packet proof
    · obtain ⟨packet, proof, rfl⟩ := hreceive
      cases hopen : session.handler.openChannel packet.destinationChannel with
      | none =>
        rw [next_receive_none hopen]
        exact hmem
      | some channel =>
        rw [processed_receive hopen]
        exact List.mem_append_left _ hmem
    · rw [(next_of_not_receive env session
        fun packet proof heq => hreceive ⟨packet, proof, heq⟩).1]
      exact hmem
  rw [h.acknowledgements, if_pos hmem] at hlookup
  rw [(h.next env call).acknowledgements, if_pos hkept, hlookup]

/-- Only a packet that is processed again is against the property. -/
theorem Recorded.deliversOnce_iff (h : session.Recorded) (honce : session.processed.Nodup)
    (env : KeccakEnv) (call : IBCCall) :
    session.DeliversOnce env call ↔ session.Fresh call := by
  -- The receipts and acknowledgements are right in any case, so it comes down to duplicates.
  have hrest : session.DeliversOnce env call ↔ (session.next env call).processed.Nodup := by
    refine ⟨DeliversOnce.once, fun hnodup => ⟨hnodup, fun _ _ => h.kept env call, ?_⟩⟩
    rintro packet proof rfl hmem
    exact h.unchanged env hmem proof
  rw [hrest]
  by_cases hreceive : ∃ packet proof, call = .receive packet proof
  · obtain ⟨packet, proof, rfl⟩ := hreceive
    cases hopen : session.handler.openChannel packet.destinationChannel with
    | none =>
      rw [next_receive_none hopen]
      exact iff_of_true honce fun hne => absurd hopen hne
    | some channel =>
      rw [processed_receive hopen, ← List.concat_eq_append, List.nodup_concat]
      constructor
      · rintro ⟨hnew, _⟩ -
        rw [h.receipts]
        exact if_neg hnew
      · intro hfresh
        have hnone := hfresh (hopen ▸ Option.some_ne_none channel)
        refine ⟨fun hmem => ?_, honce⟩
        rw [h.receipts, if_pos hmem] at hnone
        cases hnone
  · rw [(next_of_not_receive env session
      fun packet proof heq => hreceive ⟨packet, proof, heq⟩).1]
    refine iff_of_true honce ?_
    cases call with
    | receive packet proof => exact absurd ⟨packet, proof, rfl⟩ hreceive
    | channel _ => trivial
    | send _ _ _ _ _ => trivial
    | acknowledge _ _ _ _ => trivial

/-- Every packet is delivered at most once exactly if none comes to an open channel that has a
receipt. -/
theorem delivered_once_iff (env : KeccakEnv) (calls : List IBCCall) :
    Always (next env) (DeliversOnce env) new calls ↔ Always (next env) Fresh new calls := by
  refine always_iff (I := fun session => session.Recorded ∧ session.processed.Nodup) ?_ ?_ ?_
  · exact ⟨⟨fun _ => rfl, fun _ => rfl⟩, List.nodup_nil⟩
  · rintro session call ⟨h, honce⟩ hfresh
    exact ⟨h.next env call, ((h.deliversOnce_iff honce env call).mpr hfresh).once⟩
  · rintro session call ⟨h, honce⟩
    exact h.deliversOnce_iff honce env call

/-! ## In order -/

/-- The sequence numbers that have been accepted on a channel while it was ordered. -/
def inOrder (session : IBCSession) (channelId : String) : List U64 :=
  session.events.filterMap (IBCEvent.inOrderOn channelId)

/-- After the call, every ordered channel has delivered 1, 2, 3 and so on; and if the call is for a
packet on an unordered channel, the packet is accepted. -/
structure DeliversInOrder (env : KeccakEnv) (session : IBCSession) (call : IBCCall) : Prop where
  numbered : ∀ channelId, Numbered ((session.next env call).inOrder channelId)
  anyOrder : ∀ packet proof channel, call = .receive packet proof →
    session.handler.openChannel packet.destinationChannel = some channel →
    channel.ordering = .unordered →
    ∃ acknowledgement, (session.handler.receivePacket packet proof).2 = .ok acknowledgement

/-- A packet for an open ordered channel is the next. -/
def Sequential (session : IBCSession) : IBCCall → Prop
  | .receive packet _ => ∀ channel,
    session.handler.openChannel packet.destinationChannel = some channel →
    channel.ordering = .ordered →
    packet.sequence.toNat = (session.inOrder packet.destinationChannel).length + 1
  | _ => True

/-- Only a packet on an ordered channel goes into its order. -/
theorem inOrder_next_of_not_receive (env : KeccakEnv) (session : IBCSession) {call : IBCCall}
    (h : ∀ packet proof, call ≠ .receive packet proof) (channelId : String) :
    (session.next env call).inOrder channelId = session.inOrder channelId := by
  cases call with
  | channel call => rfl
  | receive packet proof => exact absurd rfl (h packet proof)
  | send _ _ _ _ _ =>
    unfold next
    dsimp only
    split
    next => exact filterMap_concat_none rfl _
    next => rfl
  | acknowledge _ _ _ _ =>
    unfold next
    dsimp only
    split
    next => exact filterMap_concat_none rfl _
    next => rfl

theorem inOrder_receive {env : KeccakEnv} {channel : IBCChannel}
    (h : session.handler.openChannel packet.destinationChannel = some channel) (proof : List UInt8)
    (channelId : String) :
    (session.next env (.receive packet proof)).inOrder channelId = session.inOrder channelId ++
      if packet.destinationChannel = channelId ∧ channel.ordering = .ordered then [packet.sequence]
      else [] := by
  rw [next_receive_some h, inOrder]
  refine filterMap_concat_ite ?_ _
  unfold IBCEvent.inOrderOn
  cases channel.ordering with
  | ordered => exact if_congr (and_iff_left rfl).symm rfl rfl
  | unordered => exact (if_neg fun h => nomatch h.2).symm

/-- The code accepts whatever comes, so what comes has to be in order. -/
theorem deliversInOrder_iff (h : ∀ channelId, Numbered (session.inOrder channelId))
    (env : KeccakEnv) (call : IBCCall) :
    session.DeliversInOrder env call ↔ session.Sequential call := by
  -- an open channel always answers, so only the order is left to prove
  have hrest : session.DeliversInOrder env call ↔
      ∀ channelId, Numbered ((session.next env call).inOrder channelId) := by
    refine ⟨DeliversInOrder.numbered, fun hnumbered => ⟨hnumbered, ?_⟩⟩
    rintro packet proof channel rfl hopen _
    exact ⟨[1], congrArg Prod.snd (IBCHandler.receivePacket_of_some hopen proof)⟩
  rw [hrest]
  by_cases hreceive : ∃ packet proof, call = .receive packet proof
  · obtain ⟨packet, proof, rfl⟩ := hreceive
    cases hopen : session.handler.openChannel packet.destinationChannel with
    | none =>
      rw [next_receive_none hopen]
      exact iff_of_true h fun _ hsome => nomatch hopen.symm.trans hsome
    | some channel =>
      constructor
      · intro hnumbered channel' hsome hordered
        obtain rfl := Option.some.inj (hopen.symm.trans hsome)
        have hlast := hnumbered packet.destinationChannel
        rw [inOrder_receive hopen, if_pos ⟨rfl, hordered⟩] at hlast
        exact (numbered_concat.mp hlast).2
      · intro hsequential channelId
        rw [inOrder_receive hopen]
        split
        next hsame =>
          have hnumber := hsequential channel hopen hsame.2
          rw [hsame.1] at hnumber
          exact numbered_concat.mpr ⟨h channelId, hnumber⟩
        next =>
          rw [List.append_nil]
          exact h channelId
  · have hsame := inOrder_next_of_not_receive env session
      fun packet proof heq => hreceive ⟨packet, proof, heq⟩
    refine iff_of_true (fun channelId => hsame channelId ▸ h channelId) ?_
    cases call with
    | receive packet proof => exact absurd ⟨packet, proof, rfl⟩ hreceive
    | channel _ => trivial
    | send _ _ _ _ _ => trivial
    | acknowledge _ _ _ _ => trivial

/-- The ordered channels deliver in order exactly if the packets come in order. -/
theorem delivered_in_order_iff (env : KeccakEnv) (calls : List IBCCall) :
    Always (next env) (DeliversInOrder env) new calls ↔ Always (next env) Sequential new calls := by
  refine always_iff (I := fun session => ∀ channelId, Numbered (session.inOrder channelId))
    (fun _ => numbered_nil) ?_ ?_
  · intro session call h hsequential
    exact ((deliversInOrder_iff h env call).mpr hsequential).numbered
  · intro session call h
    exact deliversInOrder_iff h env call

/-! ## Twice, and out of order -/

/-- The handshake of a channel. -/
def sampleHandshake (ordering : ChannelOrder) : List IBCCall :=
  [.channel (.create "transfer" "connection-0" "ics20-1" ordering 0),
    .channel (.openTry "channel-0" "channel-1" "transfer"),
    .channel (.openConfirm "channel-0")]

/-- A packet for the channel. -/
def samplePacket (sequence : U64) : IBCCall :=
  .receive ⟨sequence, "transfer", "channel-1", "transfer", "channel-0", [1, 2, 3], 1000, 0⟩ []

/-- A packet that is relayed twice is processed twice. -/
theorem delivered_twice :
    ¬ Always (next (sampleKeccakEnv true)) (DeliversOnce (sampleKeccakEnv true)) new
      (sampleHandshake .unordered ++ [samplePacket 1, samplePacket 1]) := by
  rw [Always.append]
  rintro ⟨_, _, hagain, _⟩
  exact absurd hagain.once (by decide +kernel)

/-- An ordered channel delivers the second packet before the first. -/
theorem delivered_out_of_order :
    ¬ Always (next (sampleKeccakEnv true)) (DeliversInOrder (sampleKeccakEnv true)) new
      (sampleHandshake .ordered ++ [samplePacket 2, samplePacket 1]) := by
  rw [Always.append]
  rintro ⟨_, hsecond, _⟩
  exact absurd (hsecond.numbered "channel-0") (by decide +kernel)

end IBCSession

end InterBit.CrossChain
