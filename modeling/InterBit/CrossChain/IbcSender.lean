import InterBit.CrossChain.Ibc
import InterBit.Lib.Numbered
import InterBit.Lib.Trace

/-!
# What a sender keeps of its packets

`send_packet` counts the packets of a channel and keeps a commitment to each, and
`acknowledge_packet` removes it, but also says so if there is none. `bookkept_iff`: the books are in
order after every call of a run exactly if each acknowledgement finds the commitment of its packet,
and no packet is sent after the counter has wrapped around, which a build without overflow checks
lets it do.
-/

namespace InterBit.CrossChain

open InterBit.Lib

namespace IBCSession

/-- The sequence numbers that `send_packet` has returned for a channel. -/
def sent (session : IBCSession) (channelId : String) : List U64 :=
  session.events.filterMap (IBCEvent.sentOn channelId)

/-- The sequence numbers for which `acknowledge_packet` has returned `Ok`. -/
def acknowledged (session : IBCSession) (channelId : String) : List U64 :=
  session.events.filterMap (IBCEvent.acknowledgedOn channelId)

/-- The numbers are 1, 2, 3 and so on, there are commitments to those that have been sent and not
acknowledged, and only packets that have been sent are acknowledged, once each. -/
structure Bookkept (session : IBCSession) : Prop where
  numbered : ∀ channelId, Numbered (session.sent channelId)
  outstanding : ∀ channelId sequence,
    (session.handler.packetCommitments.lookup (channelId, sequence)).isSome ↔
      sequence ∈ session.sent channelId ∧ sequence ∉ session.acknowledged channelId
  genuine : ∀ channelId, ∀ sequence ∈ session.acknowledged channelId,
    sequence ∈ session.sent channelId
  once : ∀ channelId, (session.acknowledged channelId).Nodup

/-- The counter has not wrapped around; and what is acknowledged is outstanding. -/
def Proper (session : IBCSession) : IBCCall → Prop
  | .send channelId _ _ _ _ => session.handler.openChannel channelId ≠ none →
    session.handler.sequence channelId ≠ 0
  | .acknowledge channelId sequence _ _ => session.handler.channels.lookup channelId ≠ none →
    (session.handler.packetCommitments.lookup (channelId, sequence)).isSome
  | _ => True

/-- The counter is the number of the next packet. -/
def Counted (session : IBCSession) : Prop :=
  ∀ channelId, (session.handler.sequence channelId).toNat
    = ((session.sent channelId).length + 1) % 2 ^ 64

/-- The books depend on the commitments and on what has been sent and acknowledged. -/
theorem Bookkept.congr {session session' : IBCSession} (h : session.Bookkept)
    (hcommitments : session'.handler.packetCommitments = session.handler.packetCommitments)
    (hsent : session'.sent = session.sent)
    (hacknowledged : session'.acknowledged = session.acknowledged) : session'.Bookkept := by
  refine ⟨hsent ▸ h.numbered, fun channelId sequence => ?_, ?_, hacknowledged ▸ h.once⟩
  · rw [hcommitments, hsent, hacknowledged]
    exact h.outstanding channelId sequence
  · rw [hsent, hacknowledged]
    exact h.genuine

/-- So does the counter. -/
theorem Counted.congr {session session' : IBCSession} (h : session.Counted)
    (hsequence : session'.handler.sequence = session.handler.sequence)
    (hsent : session'.sent = session.sent) : session'.Counted := by
  intro channelId
  rw [hsequence, hsent]
  exact h channelId

theorem sequence_insert (handler : IBCHandler) (channelId channelId' : String) (following : U64) :
    IBCHandler.sequence
      { handler with nextSequence := handler.nextSequence.insert channelId following } channelId'
        = if channelId' = channelId then following else handler.sequence channelId' := by
  unfold IBCHandler.sequence
  split
  next hsame => rw [hsame, AList.lookup_insert, Option.getD_some]
  next hother => rw [AList.lookup_insert_ne hother]

theorem mem_append_ite {p : Prop} [Decidable p] {sequences : List U64} {new sequence : U64} :
    sequence ∈ sequences ++ (if p then [new] else []) ↔
      sequence ∈ sequences ∨ p ∧ sequence = new := by
  rw [List.mem_append]
  split
  next h => rw [List.mem_singleton, and_iff_right h]
  next h => exact or_congr_right (iff_of_false List.not_mem_nil fun hand => h hand.1)

/-! ## Sending -/

/-- A session after a packet has been sent. -/
def afterSent (session : IBCSession) (channelId : String) (following : U64) (commitment : H256) :
    IBCSession where
  handler := { session.handler with
    nextSequence := session.handler.nextSequence.insert channelId following
    packetCommitments := session.handler.packetCommitments.insert
      (channelId, session.handler.sequence channelId) commitment }
  events := session.events ++ [.sent channelId (session.handler.sequence channelId)]

theorem sent_afterSent (session : IBCSession) (channelId channelId' : String) (following : U64)
    (commitment : H256) : (session.afterSent channelId following commitment).sent channelId'
      = session.sent channelId' ++
        if channelId = channelId' then [session.handler.sequence channelId] else [] :=
  filterMap_concat_ite rfl _

theorem acknowledged_afterSent (session : IBCSession) (channelId channelId' : String)
    (following : U64) (commitment : H256) :
    (session.afterSent channelId following commitment).acknowledged channelId'
      = session.acknowledged channelId' := filterMap_concat_none rfl _

variable {session : IBCSession}

theorem Counted.afterSent (h : session.Counted) (channelId : String) (commitment : H256) :
    (session.afterSent channelId
      (session.handler.sequence channelId + 1) commitment).Counted := by
  intro channelId'
  rw [sent_afterSent]
  refine (congrArg BitVec.toNat (sequence_insert session.handler channelId channelId' _)).trans ?_
  by_cases hsame : channelId' = channelId
  · have hcount := h channelId
    subst hsame
    rw [if_pos rfl, if_pos rfl, BitVec.toNat_add, hcount, List.length_append, List.length_singleton]
    show (_ + 1 % 2 ^ 64) % 2 ^ 64 = _
    omega
  · rw [if_neg hsame, if_neg (Ne.symm hsame), List.append_nil]
    exact h channelId'

/-- The books stay in order exactly if the number is not zero. -/
theorem Bookkept.afterSent_iff (h : session.Bookkept) (hcounted : session.Counted)
    (channelId : String) (following : U64) (commitment : H256) :
    (session.afterSent channelId following commitment).Bookkept ↔
      session.handler.sequence channelId ≠ 0 := by
  have hcount := hcounted channelId
  constructor
  · intro hafter hzero
    have hnumbered := hafter.numbered channelId
    rw [sent_afterSent, if_pos rfl] at hnumbered
    have hlast := (numbered_concat.mp hnumbered).2
    rw [hzero] at hlast
    -- the counter has wrapped, and number 0 is not the next one
    exact absurd hlast (Nat.succ_ne_zero _).symm
  · intro hne
    have hlength := (h.numbered channelId).length_lt
    have hpos : (session.handler.sequence channelId).toNat ≠ 0 :=
      fun hzero => hne (BitVec.eq_of_toNat_eq hzero)
    have hnumber : (session.handler.sequence channelId).toNat
        = (session.sent channelId).length + 1 := by omega
    -- a number that is above all earlier ones is new
    have hnew : session.handler.sequence channelId ∉ session.sent channelId := by
      intro hmem
      have hle := (h.numbered channelId).le_length hmem
      omega
    refine ⟨fun channelId' => ?_, fun channelId' sequence => ?_, fun channelId' sequence => ?_, ?_⟩
    · rw [sent_afterSent]
      split
      next hsame =>
        subst hsame
        exact numbered_concat.mpr ⟨h.numbered channelId, hnumber⟩
      next =>
        rw [List.append_nil]
        exact h.numbered channelId'
    · rw [sent_afterSent, acknowledged_afterSent, mem_append_ite]
      by_cases hsame : (channelId', sequence) = (channelId, session.handler.sequence channelId)
      · obtain ⟨rfl, rfl⟩ := Prod.mk.inj hsame
        refine iff_of_true ?_ ⟨.inr ⟨rfl, rfl⟩, fun hmem => hnew (h.genuine _ _ hmem)⟩
        show ((session.handler.packetCommitments.insert _ _).lookup _).isSome = true
        rw [AList.lookup_insert]
        rfl
      · show ((session.handler.packetCommitments.insert _ _).lookup _).isSome = true ↔ _
        rw [AList.lookup_insert_ne hsame, h.outstanding]
        refine and_congr_left fun _ => (or_iff_left ?_).symm
        rintro ⟨rfl, rfl⟩
        exact hsame rfl
    · rw [sent_afterSent, acknowledged_afterSent, mem_append_ite]
      exact fun hmem => .inl (h.genuine _ _ hmem)
    · intro channelId'
      rw [acknowledged_afterSent]
      exact h.once channelId'

/-- A packet on an open channel is sent, or the counter overflows and nothing has changed. -/
theorem next_send_some (env : KeccakEnv) {channelId : String} {channel : IBCChannel}
    (h : session.handler.openChannel channelId = some channel) (portId : String) (data : List UInt8)
    (timeoutHeight : U64) (now : Seconds) :
    (∃ commitment, session.next env (.send channelId portId data timeoutHeight now)
      = session.afterSent channelId (session.handler.sequence channelId + 1) commitment) ∨
    session.handler.sequence channelId ≠ 0 ∧
      session.next env (.send channelId portId data timeoutHeight now) =
        { session with handler := { session.handler with
            nextSequence := session.handler.nextSequence.insert channelId
              (session.handler.sequence channelId) } } := by
  obtain ⟨commitment, heq⟩ := IBCHandler.sendPacket_of_some env h portId data
    timeoutHeight now
  unfold next
  dsimp only
  rw [heq]
  cases hadd : env.add64 (session.handler.sequence channelId) 1 with
  | none =>
    refine .inr ⟨fun hzero => ?_, rfl⟩
    rw [hzero, Build.add64, if_neg fun h => absurd h.2 (by decide)] at hadd
    cases hadd
  | some following =>
    obtain ⟨rfl, _⟩ := Build.add64_eq_some hadd
    exact .inl ⟨commitment, rfl⟩

/-! ## Acknowledging -/

/-- A session after a packet has been acknowledged. -/
def afterAcknowledged (session : IBCSession) (channelId : String) (sequence : U64) :
    IBCSession where
  handler := { session.handler with
    packetCommitments := session.handler.packetCommitments.erase (channelId, sequence) }
  events := session.events ++ [.acknowledged channelId sequence]

theorem sent_afterAcknowledged (session : IBCSession) (channelId channelId' : String)
    (sequence : U64) :
    (session.afterAcknowledged channelId sequence).sent channelId' = session.sent channelId' :=
  filterMap_concat_none rfl _

theorem acknowledged_afterAcknowledged (session : IBCSession) (channelId channelId' : String)
    (sequence : U64) : (session.afterAcknowledged channelId sequence).acknowledged channelId'
      = session.acknowledged channelId' ++ if channelId = channelId' then [sequence] else [] :=
  filterMap_concat_ite rfl _

/-- The books stay in order exactly if the packet is outstanding. -/
theorem Bookkept.afterAcknowledged_iff (h : session.Bookkept) (channelId : String)
    (sequence : U64) :
    (session.afterAcknowledged channelId sequence).Bookkept ↔
      (session.handler.packetCommitments.lookup (channelId, sequence)).isSome := by
  rw [h.outstanding]
  constructor
  · intro hafter
    -- The number is the last that has been acknowledged, so it was sent, and not acknowledged
    -- before.
    have hnodup := hafter.once channelId
    have hgenuine := hafter.genuine channelId sequence
    rw [acknowledged_afterAcknowledged, if_pos rfl] at hnodup hgenuine
    rw [sent_afterAcknowledged] at hgenuine
    rw [← List.concat_eq_append, List.nodup_concat] at hnodup
    exact ⟨hgenuine (List.mem_append_right _ (List.mem_singleton_self _)), hnodup.1⟩
  · rintro ⟨hsent, hnew⟩
    refine ⟨fun channelId' => ?_, fun channelId' sequence' => ?_, fun channelId' sequence' => ?_,
      fun channelId' => ?_⟩
    · rw [sent_afterAcknowledged]
      exact h.numbered channelId'
    -- The commitment of this packet goes, and all others stay.
    · rw [sent_afterAcknowledged, acknowledged_afterAcknowledged, mem_append_ite]
      by_cases hsame : (channelId', sequence') = (channelId, sequence)
      · obtain ⟨rfl, rfl⟩ := Prod.mk.inj hsame
        refine iff_of_false ?_ fun hout => hout.2 (.inr ⟨rfl, rfl⟩)
        show ¬ ((session.handler.packetCommitments.erase _).lookup _).isSome = true
        rw [AList.lookup_erase]
        exact Bool.false_ne_true
      · show ((session.handler.packetCommitments.erase _).lookup _).isSome = true ↔ _
        rw [AList.lookup_erase_ne hsame, h.outstanding]
        refine and_congr_right fun _ => not_congr (or_iff_left ?_).symm
        rintro ⟨rfl, rfl⟩
        exact hsame rfl
    · rw [sent_afterAcknowledged, acknowledged_afterAcknowledged, mem_append_ite]
      rintro (hmem | ⟨rfl, rfl⟩)
      · exact h.genuine channelId' sequence' hmem
      · exact hsent
    · rw [acknowledged_afterAcknowledged]
      split
      next hchannel =>
        subst hchannel
        rw [← List.concat_eq_append]
        exact (h.once channelId).concat hnew
      next =>
        rw [List.append_nil]
        exact h.once channelId'

/-! ## Runs -/

/-- A receipt is not in the books. -/
theorem next_receive (env : KeccakEnv) (session : IBCSession) (packet : IBCPacket)
    (proof : List UInt8) :
    (session.next env (.receive packet proof)).handler.packetCommitments
        = session.handler.packetCommitments ∧
      (session.next env (.receive packet proof)).handler.nextSequence
        = session.handler.nextSequence ∧
      (session.next env (.receive packet proof)).sent = session.sent ∧
      (session.next env (.receive packet proof)).acknowledged = session.acknowledged := by
  cases hopen : session.handler.openChannel packet.destinationChannel with
  | none =>
    rw [next_receive_none hopen]
    exact ⟨rfl, rfl, rfl, rfl⟩
  | some channel =>
    rw [next_receive_some hopen, IBCHandler.receivePacket_of_some hopen]
    refine ⟨rfl, rfl, funext fun channelId => ?_, funext fun channelId => ?_⟩
    · exact filterMap_concat_none rfl _
    · exact filterMap_concat_none rfl _

theorem Counted.next {session : IBCSession} (h : session.Counted) (env : KeccakEnv)
    (call : IBCCall) : (session.next env call).Counted := by
  cases call with
  | channel call =>
    obtain ⟨channels, heq⟩ := change_eq session.handler call
    refine h.congr ?_ rfl
    show (session.handler.change call).sequence = _
    rw [heq]
    rfl
  | send channelId portId data timeoutHeight now =>
    cases hopen : session.handler.openChannel channelId with
    | none =>
      rw [next_send_none hopen]
      exact h
    | some channel =>
      rcases next_send_some env hopen portId data timeoutHeight now with
        ⟨commitment, heq⟩ | ⟨_, heq⟩
      · rw [heq]
        exact h.afterSent channelId commitment
      · rw [heq]
        -- A packet that is refused may have written the counter with the value it has.
        refine h.congr (funext fun channelId' => ?_) rfl
        refine (sequence_insert session.handler channelId channelId' _).trans ?_
        split
        next hsame => rw [hsame]
        next => rfl
  | receive packet proof =>
    obtain ⟨_, hcounter, hsent, _⟩ := next_receive env session packet proof
    refine h.congr (funext fun channelId => ?_) hsent
    rw [IBCHandler.sequence, hcounter]
    rfl
  | acknowledge channelId sequence acknowledgement proof =>
    cases hlookup : session.handler.channels.lookup channelId with
    | none =>
      rw [next_acknowledge_none hlookup]
      exact h
    | some channel =>
      rw [next_acknowledge_some hlookup]
      exact h.congr rfl
        (funext fun channelId' => sent_afterAcknowledged session channelId channelId' _)

/-- Sending and acknowledging can spoil the books, and nothing else can. -/
theorem Bookkept.next_iff (h : session.Bookkept) (hcounted : session.Counted) (env : KeccakEnv)
    (call : IBCCall) :
    (session.next env call).Bookkept ↔ session.Proper call := by
  cases call with
  | channel call =>
    obtain ⟨channels, heq⟩ := change_eq session.handler call
    refine iff_of_true (h.congr ?_ rfl rfl) trivial
    show (session.handler.change call).packetCommitments = _
    rw [heq]
  | send channelId portId data timeoutHeight now =>
    cases hopen : session.handler.openChannel channelId with
    | none =>
      rw [next_send_none hopen]
      exact iff_of_true h fun hne => absurd hopen hne
    | some channel =>
      have hproper : session.Proper (.send channelId portId data timeoutHeight now) ↔
          session.handler.sequence channelId ≠ 0 :=
        forall_prop_of_true (hopen ▸ Option.some_ne_none channel)
      rw [hproper]
      -- the packet is sent, or the counter overflows before anything is stored
      rcases next_send_some env hopen portId data timeoutHeight now with
        ⟨commitment, heq⟩ | ⟨hne, heq⟩
      · rw [heq]
        exact h.afterSent_iff hcounted channelId _ commitment
      · rw [heq]
        exact iff_of_true (h.congr rfl rfl rfl) hne
  | receive packet proof =>
    obtain ⟨hcommitments, _, hsent, hacknowledged⟩ := next_receive env session packet proof
    exact iff_of_true (h.congr hcommitments hsent hacknowledged) trivial
  | acknowledge channelId sequence acknowledgement proof =>
    cases hlookup : session.handler.channels.lookup channelId with
    | none =>
      rw [next_acknowledge_none hlookup]
      exact iff_of_true h fun hne => absurd hlookup hne
    | some channel =>
      have hproper : session.Proper (.acknowledge channelId sequence acknowledgement proof) ↔
          (session.handler.packetCommitments.lookup (channelId, sequence)).isSome :=
        forall_prop_of_true (hlookup ▸ Option.some_ne_none channel)
      rw [next_acknowledge_some hlookup, hproper]
      exact h.afterAcknowledged_iff channelId sequence

/-- The books are in order after every call exactly if every acknowledgement is of an outstanding
packet, and no packet is sent with a counter that has wrapped around. -/
theorem bookkept_iff (env : KeccakEnv) (calls : List IBCCall) :
    Always (next env) (fun session call => (session.next env call).Bookkept) new calls ↔
      Always (next env) Proper new calls := by
  refine always_iff (I := fun session => session.Bookkept ∧ session.Counted) ?_ ?_ ?_
  · refine ⟨⟨fun _ => numbered_nil, fun _ _ => ?_, fun _ _ hmem => ?_, fun _ => List.nodup_nil⟩,
      fun _ => rfl⟩
    · exact iff_of_false Bool.false_ne_true fun h => List.not_mem_nil h.1
    · exact absurd hmem List.not_mem_nil
  · rintro session call ⟨h, hcounted⟩ hproper
    exact ⟨(h.next_iff hcounted env call).mpr hproper, hcounted.next env call⟩
  · rintro session call ⟨h, hcounted⟩
    exact h.next_iff hcounted env call

/-- A packet that nobody has sent is acknowledged on a new channel. -/
theorem acknowledged_unsent :
    ¬ Always (next (sampleKeccakEnv true))
      (fun session call => (session.next (sampleKeccakEnv true) call).Bookkept) new
      [.channel (.create "transfer" "connection-0" "ics20-1" .ordered 0),
        .acknowledge "channel-0" 1 [1] []] := by
  rintro ⟨_, hunsent, _⟩
  exact absurd (hunsent.genuine "channel-0" 1) (by decide +kernel)

end IBCSession

end InterBit.CrossChain
