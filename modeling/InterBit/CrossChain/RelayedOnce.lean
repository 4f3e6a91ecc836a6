import InterBit.CrossChain.Relayer
import InterBit.Lib.Assoc

/-!
# Each message is relayed once, and only when it is confirmed

A message has many copies, but at most one that is ready: it comes into being when the pending copy
in the map becomes ready, and from then on it is in the queue or in a batch until it has been
relayed or has failed for good. `Tracked` says this of the ready copies, wherever they are;
`relayed_once` follows for every run in which no transfer is submitted twice.
-/

namespace InterBit.CrossChain

open InterBit.Lib
open InterBit.StateMachine (IterOrder)

/-! ## Histories -/

/-- The message has been submitted, and since then the pending messages have been gone through at
least `n` times. -/
def WaitedFor (n : Nat) (history : List RelayEvent) (id : H256) : Prop :=
  ∃ before after, history = before ++ .submitted id :: after ∧
    n ≤ after.count .confirmed

/-- No message is moved twice, and none is relayed before it is confirmed or after it has been
relayed. -/
structure RelayedOnce (config : RelayerConfig) (history : List RelayEvent) : Prop where
  movedOnce : ∀ id, history.count (.moved id) ≤ 1
  notAgain : ∀ before id succeeded, before ++ [.called id succeeded] <+: history →
    .called id true ∉ before
  confirmed : ∀ before id succeeded, before ++ [.called id succeeded] <+: history →
    WaitedFor config.minConfirmations.toNat before id

/-- The message has not been relayed. -/
def Unrelayed (history : List RelayEvent) (id : H256) : Prop :=
  .called id true ∉ history ∧ .moved id ∉ history

theorem WaitedFor.submitted_mem {n : Nat} {history : List RelayEvent} {id : H256}
    (h : WaitedFor n history id) : .submitted id ∈ history := by
  obtain ⟨before, after, rfl, _⟩ := h
  exact List.mem_append_right _ (List.mem_cons_self ..)

theorem WaitedFor.mono {m n : Nat} {history : List RelayEvent} {id : H256}
    (h : WaitedFor n history id) (hle : m ≤ n) : WaitedFor m history id := by
  obtain ⟨before, after, heq, hcount⟩ := h
  exact ⟨before, after, heq, Nat.le_trans hle hcount⟩

theorem WaitedFor.concat {n : Nat} {history : List RelayEvent} {id : H256}
    (h : WaitedFor n history id) (event : RelayEvent) : WaitedFor n (history ++ [event]) id := by
  obtain ⟨before, after, rfl, hcount⟩ := h
  refine ⟨before, after ++ [event], by rw [List.append_assoc, List.cons_append], ?_⟩
  rw [List.count_append]
  exact Nat.le_add_right_of_le hcount

/-- One more time. -/
theorem WaitedFor.succ {n : Nat} {history : List RelayEvent} {id : H256}
    (h : WaitedFor n history id) : WaitedFor (n + 1) (history ++ [.confirmed]) id := by
  obtain ⟨before, after, rfl, hcount⟩ := h
  refine ⟨before, after ++ [.confirmed], by rw [List.append_assoc, List.cons_append], ?_⟩
  rw [List.count_append, List.count_singleton_self]
  exact Nat.succ_le_succ hcount

theorem waitedFor_submitted (history : List RelayEvent) (id : H256) :
    WaitedFor 0 (history ++ [.submitted id]) id := ⟨history, [], rfl, Nat.zero_le _⟩

theorem Unrelayed.concat {history : List RelayEvent} {id : H256} (h : Unrelayed history id)
    {event : RelayEvent} (hcalled : event ≠ .called id true) (hmoved : event ≠ .moved id) :
    Unrelayed (history ++ [event]) id := by
  refine ⟨fun hmem => ?_, fun hmem => ?_⟩
  · rcases List.mem_append.mp hmem with hold | hnew
    · exact h.1 hold
    · exact hcalled (List.mem_singleton.mp hnew).symm
  · rcases List.mem_append.mp hmem with hold | hnew
    · exact h.2 hold
    · exact hmoved (List.mem_singleton.mp hnew).symm

/-- What may happen next: a move of a message that has not been moved, and a call for one that has
waited and has not been relayed. -/
theorem RelayedOnce.concat {config : RelayerConfig} {history : List RelayEvent}
    (h : RelayedOnce config history) {event : RelayEvent}
    (hmoved : ∀ id, event = .moved id → .moved id ∉ history)
    (hcalled : ∀ id succeeded, event = .called id succeeded →
      .called id true ∉ history ∧ WaitedFor config.minConfirmations.toNat history id) :
    RelayedOnce config (history ++ [event]) := by
  refine ⟨fun id => ?_, fun before id succeeded hprefix => ?_,
    fun before id succeeded hprefix => ?_⟩
  · rw [List.count_append, List.count_singleton]
    split
    next hsame =>
      rw [List.count_eq_zero_of_not_mem (hmoved id (beq_iff_eq.mp hsame))]
    next => exact h.movedOnce id
  all_goals rcases List.prefix_concat_iff.mp hprefix with heq | hold
  · obtain ⟨rfl, hlast⟩ := List.append_inj' heq rfl
    exact (hcalled id succeeded (List.singleton_inj.mp hlast).symm).1
  · exact h.notAgain before id succeeded hold
  · obtain ⟨rfl, hlast⟩ := List.append_inj' heq rfl
    exact (hcalled id succeeded (List.singleton_inj.mp hlast).symm).2
  · exact h.confirmed before id succeeded hold

/-- A relay leaves the other messages unrelayed. -/
theorem Unrelayed.relay {history : List RelayEvent} {id id' : H256} (h : Unrelayed history id')
    (hne : id' ≠ id) : Unrelayed (history ++ [.called id true] ++ [.moved id]) id' := by
  have hcalled : RelayEvent.called id true ≠ .called id' true :=
    fun heq => hne (RelayEvent.called.inj heq).1.symm
  have hmoved : RelayEvent.moved id ≠ .moved id' := fun heq => hne (RelayEvent.moved.inj heq).symm
  exact (h.concat hcalled nofun).concat nofun hmoved

theorem RelayedOnce.relay {config : RelayerConfig} {history : List RelayEvent}
    (h : RelayedOnce config history) {id : H256} (hunrelayed : Unrelayed history id)
    (hwaited : WaitedFor config.minConfirmations.toNat history id) :
    RelayedOnce config (history ++ [.called id true] ++ [.moved id]) := by
  have hcalled : RelayedOnce config (history ++ [.called id true]) := by
    refine h.concat (fun _ heq => nomatch heq) fun id' succeeded heq => ?_
    cases heq
    exact ⟨hunrelayed.1, hwaited⟩
  refine hcalled.concat (fun id' heq hmem => ?_) fun _ _ heq => nomatch heq
  cases heq
  rcases List.mem_append.mp hmem with hold | hnew
  · exact hunrelayed.2 hold
  · cases List.mem_singleton.mp hnew

/-! ## The ready copies -/

/-- The ids of the copies that are ready. -/
def readyIds (messages : List RelayMessage) : List H256 :=
  (messages.filter (·.status = .ready)).map (·.id)

theorem readyIds_append (messages messages' : List RelayMessage) :
    readyIds (messages ++ messages') = readyIds messages ++ readyIds messages' := by
  rw [readyIds, List.filter_append, List.map_append, readyIds, readyIds]

theorem readyIds_singleton_of_ready {message : RelayMessage} (h : message.status = .ready) :
    readyIds [message] = [message.id] := by
  rw [readyIds, List.filter_singleton, decide_eq_true h]
  rfl

theorem readyIds_singleton_of_not_ready {message : RelayMessage} (h : message.status ≠ .ready) :
    readyIds [message] = [] := by
  rw [readyIds, List.filter_singleton, decide_eq_false h]
  rfl

theorem readyIds_filter (messages : List RelayMessage) :
    readyIds (messages.filter (·.status = .ready)) = readyIds messages := by
  rw [readyIds, List.filter_filter]
  simp only [Bool.and_self]
  rfl

theorem readyIds_perm {messages messages' : List RelayMessage}
    (h : messages.Perm messages') : (readyIds messages).Perm (readyIds messages') :=
  (h.filter _).map _

/-- The transfers that have been submitted, the ready copies, the pending messages and the history
belong together. -/
structure Tracked (config : RelayerConfig) (submitted ready : List H256)
    (pending : AList fun _ : H256 => RelayMessage) (history : List RelayEvent) : Prop where
  relayedOnce : RelayedOnce config history
  /-- No message has two copies that are ready. -/
  nodup : ready.Nodup
  unrelayed : ∀ id ∈ ready, Unrelayed history id
  waited : ∀ id ∈ ready, WaitedFor config.minConfirmations.toNat history id
  /-- A message with a copy that is ready does not become ready again. -/
  settled : ∀ id ∈ ready, ∀ message, pending.lookup id = some message → message.status ≠ .pending
  keyed : ∀ id message, pending.lookup id = some message → message.id = id
  waiting : ∀ id message, pending.lookup id = some message → message.status = .pending →
    Unrelayed history id ∧ WaitedFor message.confirmations.toNat history id
  known : ∀ id, ¬ Unrelayed history id → .submitted id ∈ history
  listed : ∀ id, .submitted id ∈ history → id ∈ submitted

namespace Tracked

variable {config : RelayerConfig} {submitted ready ready' : List H256}
  {pending : AList fun _ : H256 => RelayMessage} {history : List RelayEvent}

/-- A new relayer tracks nothing. -/
theorem new (config : RelayerConfig) : Tracked config [] [] ∅ [] where
  relayedOnce := by
    refine ⟨fun id => Nat.zero_le _, fun before id succeeded hprefix => ?_,
      fun before id succeeded hprefix => ?_⟩
    all_goals exact absurd (List.prefix_nil.mp hprefix) (by simp)
  nodup := List.nodup_nil
  unrelayed := fun _ hmem => nomatch hmem
  waited := fun _ hmem => nomatch hmem
  settled := fun _ hmem => nomatch hmem
  keyed := fun _ _ hlookup => nomatch hlookup
  waiting := fun _ _ hlookup => nomatch hlookup
  known := fun _ hnot => absurd ⟨List.not_mem_nil, List.not_mem_nil⟩ hnot
  listed := fun _ hmem => nomatch hmem

/-- Copies can change places, and can be dropped. -/
theorem sub (h : Tracked config submitted ready pending history) (hnodup : ready'.Nodup)
    (hsub : ready' ⊆ ready) : Tracked config submitted ready' pending history where
  relayedOnce := h.relayedOnce
  nodup := hnodup
  unrelayed := fun id hmem => h.unrelayed id (hsub hmem)
  waited := fun id hmem => h.waited id (hsub hmem)
  settled := fun id hmem => h.settled id (hsub hmem)
  keyed := h.keyed
  waiting := h.waiting
  known := h.known
  listed := h.listed

/-- One more transfer is submitted. -/
theorem extend (h : Tracked config submitted ready pending history) (id : H256) :
    Tracked config (submitted ++ [id]) ready pending history :=
  { h with listed := fun id hmem => List.mem_append_left _ (h.listed id hmem) }

theorem perm (h : Tracked config submitted ready pending history) (hperm : ready'.Perm ready) :
    Tracked config submitted ready' pending history :=
  h.sub (hperm.nodup_iff.mpr h.nodup) hperm.subset

/-- A message among the pending messages changes. -/
theorem insert (h : Tracked config submitted ready pending history) {message : RelayMessage}
    (hwaiting : message.status = .pending → message.id ∉ ready ∧ Unrelayed history message.id ∧
      WaitedFor message.confirmations.toNat history message.id) :
    Tracked config submitted ready (pending.insert message.id message) history where
  relayedOnce := h.relayedOnce
  nodup := h.nodup
  unrelayed := h.unrelayed
  waited := h.waited
  settled := by
    intro id hmem message' hlookup hpending
    rcases lookup_insert_eq_some.mp hlookup with ⟨rfl, rfl⟩ | ⟨_, hold⟩
    · exact (hwaiting hpending).1 hmem
    · exact h.settled id hmem message' hold hpending
  keyed := by
    intro id message' hlookup
    rcases lookup_insert_eq_some.mp hlookup with ⟨rfl, rfl⟩ | ⟨_, hold⟩
    · rfl
    · exact h.keyed id message' hold
  waiting := by
    intro id message' hlookup hpending
    rcases lookup_insert_eq_some.mp hlookup with ⟨rfl, rfl⟩ | ⟨_, hold⟩
    · exact (hwaiting hpending).2
    · exact h.waiting id message' hold hpending
  known := h.known
  listed := h.listed

/-- A message becomes ready. -/
theorem push (h : Tracked config submitted ready pending history) {id : H256} (hnew : id ∉ ready)
    (hunrelayed : Unrelayed history id)
    (hwaited : WaitedFor config.minConfirmations.toNat history id)
    (hsettled : ∀ message, pending.lookup id = some message → message.status ≠ .pending) :
    Tracked config submitted (ready ++ [id]) pending history where
  relayedOnce := h.relayedOnce
  nodup := List.concat_eq_append ▸ h.nodup.concat hnew
  unrelayed := List.forall_mem_append.mpr ⟨h.unrelayed, List.forall_mem_singleton.mpr hunrelayed⟩
  waited := List.forall_mem_append.mpr ⟨h.waited, List.forall_mem_singleton.mpr hwaited⟩
  settled := List.forall_mem_append.mpr ⟨h.settled, List.forall_mem_singleton.mpr hsettled⟩
  keyed := h.keyed
  waiting := h.waiting
  known := h.known
  listed := h.listed

/-- Something happens that relays no message. -/
theorem record (h : Tracked config submitted ready pending history) {event : RelayEvent}
    (hmoved : ∀ id, event ≠ .moved id) (hcalled : ∀ id, event ≠ .called id true)
    (hfailed : ∀ id, event = .called id false → id ∈ ready)
    (hlisted : ∀ id, event = .submitted id → id ∈ submitted) :
    Tracked config submitted ready pending (history ++ [event]) where
  relayedOnce := by
    refine h.relayedOnce.concat (fun id heq => absurd heq (hmoved id)) ?_
    rintro id (_ | _) heq
    · exact ⟨(h.unrelayed id (hfailed id heq)).1, h.waited id (hfailed id heq)⟩
    · exact absurd heq (hcalled id)
  nodup := h.nodup
  unrelayed := fun id hmem => (h.unrelayed id hmem).concat (hcalled id) (hmoved id)
  waited := fun id hmem => (h.waited id hmem).concat event
  settled := h.settled
  keyed := h.keyed
  waiting := fun id message hlookup hpending =>
    ⟨(h.waiting id message hlookup hpending).1.concat (hcalled id) (hmoved id),
      (h.waiting id message hlookup hpending).2.concat event⟩
  known := fun id hnot => List.mem_append_left _
    (h.known id fun hunrelayed => hnot (hunrelayed.concat (hcalled id) (hmoved id)))
  listed := by
    intro id hmem
    rcases List.mem_append.mp hmem with hold | hnew
    · exact h.listed id hold
    · exact hlisted id (List.mem_singleton.mp hnew).symm

/-- A message is relayed. -/
theorem relay {id : H256} (h : Tracked config submitted (ready ++ id :: ready') pending history) :
    Tracked config submitted (ready ++ ready') (pending.erase id)
      (history ++ [.called id true] ++ [.moved id]) := by
  have hid : id ∈ ready ++ id :: ready' := List.mem_append_right _ (List.mem_cons_self ..)
  -- the id was listed once, so it is not listed any more
  have hnodup : id ∉ ready ++ ready' ∧ (ready ++ ready').Nodup :=
    List.nodup_cons.mp (List.perm_middle.nodup_iff.mp h.nodup)
  have hsub : ready ++ ready' ⊆ ready ++ id :: ready' := fun id' hmem =>
    List.perm_middle.mem_iff.mpr (List.mem_cons_of_mem id hmem)
  have herased : ∀ {id' message}, (pending.erase id).lookup id' = some message →
      id' ≠ id ∧ pending.lookup id' = some message := by
    intro id' message hlookup
    have hne : id' ≠ id := by
      intro heq
      rw [heq, AList.lookup_erase] at hlookup
      cases hlookup
    rw [AList.lookup_erase_ne hne] at hlookup
    exact ⟨hne, hlookup⟩
  refine ⟨?_, hnodup.2, ?_, ?_, ?_, ?_, ?_, ?_, ?_⟩
  · exact h.relayedOnce.relay (h.unrelayed id hid) (h.waited id hid)
  · intro id' hmem
    exact (h.unrelayed id' (hsub hmem)).relay fun heq => hnodup.1 (heq ▸ hmem)
  · exact fun id' hmem => ((h.waited id' (hsub hmem)).concat _).concat _
  · exact fun id' hmem message hlookup => h.settled id' (hsub hmem) message (herased hlookup).2
  · exact fun id' message hlookup => h.keyed id' message (herased hlookup).2
  · intro id' message hlookup hpending
    obtain ⟨hunrelayed, hwaited⟩ := h.waiting id' message (herased hlookup).2 hpending
    exact ⟨hunrelayed.relay (herased hlookup).1, (hwaited.concat _).concat _⟩
  -- an id that is no longer unrelayed was relayed before, or is this one
  · intro id' hnot
    rw [List.append_assoc]
    refine List.mem_append_left _ ?_
    by_cases hsame : id' = id
    · exact hsame ▸ (h.waited id hid).submitted_mem
    · exact h.known id' fun hunrelayed => hnot (hunrelayed.relay hsame)
  · intro id' hmem
    rw [List.append_assoc] at hmem
    exact h.listed id' ((List.mem_append.mp hmem).resolve_right (by simp))

end Tracked

namespace Relayer

variable {env : Env} {config : RelayerConfig} {submitted : List H256}

/-- The ready copies are in the queue, and in a batch. -/
def Tracks (relayer : Relayer) (config : RelayerConfig) (submitted batch : List H256) : Prop :=
  relayer.config = config ∧ Tracked config submitted (readyIds relayer.messageQueue ++ batch)
    relayer.pendingMessages relayer.history

variable {relayer : Relayer}

/-- The rest of the batch is dropped. -/
theorem Tracks.drop {batch : List H256} (h : relayer.Tracks config submitted batch) :
    relayer.Tracks config submitted [] := by
  refine ⟨h.1, ?_⟩
  rw [List.append_nil]
  exact h.2.sub h.2.nodup.of_append_left (List.subset_append_left ..)

/-! ## Submission -/

/-- A message that is submitted for the first time. -/
theorem tracks_submitTransfer (h : relayer.Tracks config submitted []) {transferId : H256}
    (hfresh : transferId ∉ submitted) (now : Seconds) :
    (relayer.submitTransfer env transferId now).1.Tracks config (submitted ++ [transferId]) [] := by
  obtain ⟨hconfig, h⟩ := h
  unfold submitTransfer getNextNonce
  dsimp only
  cases env.add64 ((relayer.chainNonces.lookup 1).getD 0) 1 with
  | none => exact ⟨hconfig, h.extend transferId⟩
  | some nonce =>
    have hnew : .submitted transferId ∉ relayer.history :=
      fun hmem => hfresh (h.listed transferId hmem)
    have hrecorded : Tracked config (submitted ++ [transferId])
        (readyIds relayer.messageQueue ++ []) relayer.pendingMessages
        (relayer.history ++ [.submitted transferId]) := by
      refine (h.extend transferId).record nofun nofun nofun fun id heq => ?_
      cases heq
      exact List.mem_append_right _ (List.mem_singleton_self _)
    have hinserted := @Tracked.insert _ _ _ _ _ hrecorded (message transferId nonce now) fun _ => by
      refine ⟨fun hmem => hnew (h.waited transferId hmem).submitted_mem, ?_,
        waitedFor_submitted _ _⟩
      by_contra hnot
      exact hnew (h.known transferId fun hunrelayed => hnot (hunrelayed.concat nofun nofun))
    have hqueue : readyIds (relayer.messageQueue ++ [message transferId nonce now])
        = readyIds relayer.messageQueue := by
      rw [readyIds_append, readyIds_singleton_of_not_ready (by exact nofun), List.append_nil]
    refine ⟨hconfig, ?_⟩
    dsimp only [record, push]
    rw [hqueue]
    exact hinserted

/-! ## Confirmation -/

theorem confirm_eq_some {message message' : RelayMessage}
    (h : confirm env config message = some message') :
    message'.id = message.id ∧
      message'.confirmations.toNat ≤ message.confirmations.toNat + 1 ∧
      (message'.status = message.status ∨
        message'.status = .ready ∧ config.minConfirmations ≤ message'.confirmations) := by
  unfold confirm at h
  cases hadd : env.add64 message.confirmations 1 with
  | none =>
    rw [hadd] at h
    cases h
  | some confirmations =>
    rw [hadd] at h
    have hle : confirmations.toNat ≤ message.confirmations.toNat + 1 := by
      rw [(Build.add64_eq_some hadd).1, BitVec.toNat_add]
      exact Nat.mod_le _ _
    dsimp only at h
    split at h
    next hready =>
      cases h
      exact ⟨rfl, hle, .inr ⟨rfl, hready⟩⟩
    next =>
      cases h
      exact ⟨rfl, hle, .inl rfl⟩

/-- One message is confirmed, and a copy of it may have become ready. -/
theorem tracked_confirm {ready : List H256} {pending : AList fun _ : H256 => RelayMessage}
    {history : List RelayEvent} {id : H256} {message message' : RelayMessage}
    (h : Tracked config submitted ready pending history)
    (hlookup : pending.lookup id = some message) (hpending : message.status = .pending)
    (hwait : WaitedFor (message.confirmations.toNat + 1) history id)
    (hconfirm : confirm env config message = some message') :
    Tracked config submitted (ready ++ readyIds [message']) (pending.insert id message')
      history := by
  obtain ⟨hid, hle, hstatus⟩ := confirm_eq_some hconfirm
  have hkeyed : message'.id = id := hid.trans (h.keyed id message hlookup)
  have hunrelayed : Unrelayed history id := (h.waiting id message hlookup hpending).1
  have hnotReady : id ∉ ready := fun hmem => h.settled id hmem message hlookup hpending
  have hinserted : Tracked config submitted ready (pending.insert id message') history := by
    have hinsert := @Tracked.insert _ _ _ _ _ h message'
    rw [hkeyed] at hinsert
    exact hinsert fun _ => ⟨hnotReady, hunrelayed, hwait.mono hle⟩
  by_cases hready : message'.status = .ready
  · -- it has been pending, so this is its first copy that is ready
    have hmin : config.minConfirmations ≤ message'.confirmations := by
      rcases hstatus with hsame | ⟨_, hmin⟩
      · rw [hready, hpending] at hsame
        cases hsame
      · exact hmin
    rw [readyIds_singleton_of_ready hready, hkeyed]
    refine hinserted.push hnotReady hunrelayed ?_ fun message'' hlookup' => ?_
    · exact hwait.mono (Nat.le_trans (BitVec.le_def.mp hmin) hle)
    · rw [AList.lookup_insert] at hlookup'
      cases hlookup'
      rw [hready]
      exact nofun
  · rw [readyIds_singleton_of_not_ready hready, List.append_nil]
    exact hinserted

/-- The loop: `entries` are those that it has not come to. -/
theorem tracked_confirmAll {ready : List H256} {history : List RelayEvent}
    (entries : List (Sigma fun _ : H256 => RelayMessage)) :
    ∀ (pending : AList fun _ : H256 => RelayMessage) (updated : List RelayMessage),
      entries.NodupKeys → (∀ e ∈ entries, pending.lookup e.1 = some e.2) →
      (∀ e ∈ entries, e.2.status = .pending →
        WaitedFor (e.2.confirmations.toNat + 1) history e.1) →
      Tracked config submitted (ready ++ readyIds updated) pending history →
      let confirmed := confirmAll env config entries pending updated
      Tracked config submitted (ready ++ readyIds (confirmed.2.getD [])) confirmed.1 history := by
  induction entries with
  | nil => exact fun pending updated _ _ _ h => h
  | cons e entries ih =>
    obtain ⟨id, message⟩ := e
    intro pending updated hnodup hlookups hwaits h
    obtain ⟨hkey, hnodup⟩ := List.nodupKeys_cons.mp hnodup
    obtain ⟨hlookup, hlookups⟩ := List.forall_mem_cons.mp hlookups
    obtain ⟨hwait, hwaits⟩ := List.forall_mem_cons.mp hwaits
    rw [confirmAll]
    by_cases hpending : message.status = .pending
    · rw [if_pos hpending]
      cases hconfirm : confirm env config message with
      | none =>
        -- the loop panics: the messages that have become ready are lost
        show Tracked config submitted (ready ++ []) pending history
        rw [List.append_nil]
        exact h.sub h.nodup.of_append_left (List.subset_append_left ..)
      | some message' =>
        have hrest : ∀ e ∈ entries, (pending.insert id message').lookup e.1 = some e.2 := by
          intro e he
          have hkeys : e.1 ∈ entries.keys := List.mem_keys_of_mem he
          have hne : e.1 ≠ id := fun heq => hkey (heq ▸ hkeys)
          rw [AList.lookup_insert_ne hne]
          exact hlookups e he
        have hupdated : readyIds (if message'.status = .ready then updated ++ [message']
            else updated) = readyIds updated ++ readyIds [message'] := by
          split
          next => exact readyIds_append ..
          next hready => rw [readyIds_singleton_of_not_ready hready, List.append_nil]
        refine ih _ _ hnodup hrest hwaits ?_
        rw [hupdated, ← List.append_assoc]
        exact tracked_confirm h hlookup hpending (hwait hpending) hconfirm
    · rw [if_neg hpending]
      exact ih pending updated hnodup hlookups hwaits h

/-- A pass over the pending messages, in any order of the map. -/
theorem tracks_processPendingMessages (h : relayer.Tracks config submitted [])
    (order : IterOrder (Sigma fun _ : H256 => RelayMessage)) :
    (relayer.processPendingMessages env order).1.Tracks config submitted [] := by
  obtain ⟨rfl, h⟩ := h
  have hperm := order.perm relayer.pendingMessages.entries
  have hlookups : ∀ e ∈ order.arrange relayer.pendingMessages.entries,
      relayer.pendingMessages.lookup e.1 = some e.2 :=
    fun e he => AList.mem_lookup_iff.mpr (hperm.mem_iff.mp he)
  have hrecorded : Tracked relayer.config submitted (readyIds relayer.messageQueue ++ [])
      relayer.pendingMessages (relayer.history ++ [.confirmed]) := h.record nofun nofun nofun nofun
  have hloop := @tracked_confirmAll env relayer.config submitted _ _
    (order.arrange relayer.pendingMessages.entries) relayer.pendingMessages []
    ((List.perm_nodupKeys hperm).mpr relayer.pendingMessages.nodupKeys) hlookups
    (fun e he hpending => ((h.waiting e.1 e.2 (hlookups e he) hpending).2).succ) hrecorded
  unfold processPendingMessages
  dsimp only [record]
  rcases hconfirm : confirmAll env relayer.config (order.arrange relayer.pendingMessages.entries)
    relayer.pendingMessages [] with ⟨pending, _ | updated⟩
  all_goals rw [hconfirm] at hloop
  · exact ⟨rfl, hloop⟩
  · refine ⟨rfl, ?_⟩
    dsimp only
    rw [readyIds_append, readyIds_filter, List.append_nil]
    exact hloop

/-! ## Relaying -/

/-- The batch takes its messages out of the queue, and they are ready. -/
theorem takeBatch_spec (n : Nat) : ∀ queue batch : List RelayMessage,
    (∀ message ∈ batch, message.status = .ready) →
    ((takeBatch n queue batch).1 ++ (takeBatch n queue batch).2).Perm (queue ++ batch) ∧
      ∀ message ∈ (takeBatch n queue batch).2, message.status = .ready := by
  induction n with
  | zero => exact fun queue batch h => ⟨.refl _, h⟩
  | succ n ih =>
    intro queue batch h
    cases queue with
    | nil => exact ih [] batch h
    | cons message queue =>
      rw [takeBatch]
      split
      next hready =>
        obtain ⟨hperm, hall⟩ := ih queue (batch ++ [message])
          (List.forall_mem_append.mpr ⟨h, List.forall_mem_singleton.mpr hready⟩)
        refine ⟨hperm.trans ?_, hall⟩
        rw [← List.append_assoc]
        exact List.perm_append_comm
      next =>
        obtain ⟨hperm, hall⟩ := ih (queue ++ [message]) batch h
        refine ⟨hperm.trans (List.Perm.append_right batch ?_), hall⟩
        exact List.perm_append_comm

/-- One message of the batch; `batch` is what comes after it. -/
theorem tracks_relayOne {relayer : Relayer} {message : RelayMessage} {batch : List H256}
    (hready : message.status = .ready)
    (h : relayer.Tracks config submitted (message.id :: batch)) (succeeds : Bool) :
    (relayer.relayOne env message succeeds).1.Tracks config submitted batch := by
  obtain ⟨hconfig, h⟩ := h
  unfold relayOne
  dsimp only [record]
  cases succeeds with
  | true => exact ⟨hconfig, h.relay⟩
  | false =>
    have hmem : message.id ∈ readyIds relayer.messageQueue ++ message.id :: batch :=
      List.mem_append_right _ (List.mem_cons_self ..)
    have hcalled : Tracked config submitted (readyIds relayer.messageQueue ++ message.id :: batch)
        relayer.pendingMessages (relayer.history ++ [.called message.id false]) := by
      refine h.record (fun _ heq => nomatch heq) (fun _ heq => ?_) (fun id heq => ?_)
        fun _ heq => nomatch heq
      · cases (RelayEvent.called.inj heq).2
      · cases heq
        exact hmem
    have hsub : (readyIds relayer.messageQueue ++ batch).Sublist
        (readyIds relayer.messageQueue ++ message.id :: batch) :=
      (List.sublist_cons_self ..).append_left _
    have hdropped := hcalled.sub (h.nodup.sublist hsub) hsub.subset
    rw [if_neg Bool.false_ne_true]
    cases env.succ32 message.retryCount with
    | none => exact ⟨hconfig, hdropped⟩
    | some retryCount =>
      dsimp only
      split
      next => exact ⟨hconfig, hdropped⟩
      next =>
        -- the message goes back into the queue
        have hback : readyIds [{ message with retryCount }] = [message.id] :=
          readyIds_singleton_of_ready hready
        refine ⟨hconfig, ?_⟩
        dsimp only
        rw [readyIds_append, hback, List.append_assoc]
        exact hcalled

/-- A batch of calls to the destination, by induction on the batch. -/
theorem tracks_relayBatch (batch : List RelayMessage) : ∀ (relayer : Relayer)
    (succeeds : Nat → Bool), (∀ message ∈ batch, message.status = .ready) →
    relayer.Tracks config submitted (readyIds batch) →
    (relayer.relayBatch env batch succeeds).1.Tracks config submitted [] := by
  induction batch with
  | nil => exact fun relayer succeeds _ h => h
  | cons message batch ih =>
    intro relayer succeeds hall h
    obtain ⟨hready, hall⟩ := List.forall_mem_cons.mp hall
    have hcons : readyIds (message :: batch) = message.id :: readyIds batch := by
      rw [← List.singleton_append, readyIds_append, readyIds_singleton_of_ready hready]
      rfl
    rw [hcons] at h
    have hone := @tracks_relayOne env _ _ _ _ _ hready h (succeeds 0)
    rw [relayBatch]
    rcases hrelay : relayer.relayOne env message (succeeds 0) with ⟨relayer', _ | _ | _⟩
    all_goals rw [hrelay] at hone
    · exact hone.drop
    · exact hone.drop
    · exact ih relayer' (fun i => succeeds (i + 1)) hall hone

/-- A round takes a batch off the queue and relays it. -/
theorem tracks_relayReadyMessages (h : relayer.Tracks config submitted []) (succeeds : Nat → Bool) :
    (relayer.relayReadyMessages env succeeds).1.Tracks config submitted [] := by
  obtain ⟨hperm, hall⟩ := takeBatch_spec (min relayer.config.batchSize relayer.messageQueue.length)
    relayer.messageQueue [] fun _ hmem => nomatch hmem
  have hready := readyIds_perm hperm
  rw [readyIds_append, readyIds_append] at hready
  unfold relayReadyMessages
  exact tracks_relayBatch _ { relayer with messageQueue := _ } succeeds hall
    ⟨h.1, h.2.perm hready⟩

/-! ## Runs -/

/-- The step lemma, one case for each call. -/
theorem tracks_next (h : relayer.Tracks config submitted []) {call : RelayCall}
    (hfresh : ∀ id, call.submitted = some id → id ∉ submitted) :
    (relayer.next env call).Tracks config (submitted ++ call.submitted.toList) [] := by
  cases call with
  | submit transferId now => exact tracks_submitTransfer h (hfresh transferId rfl) now
  | process order =>
    have hnone : submitted ++ (RelayCall.process order).submitted.toList = submitted :=
      List.append_nil submitted
    rw [hnone]
    exact tracks_processPendingMessages h order
  | relay succeeds =>
    have hnone : submitted ++ (RelayCall.relay succeeds).submitted.toList = submitted :=
      List.append_nil submitted
    rw [hnone]
    exact tracks_relayReadyMessages h succeeds

/-- The ready copies are tracked along a run in which no transfer is submitted twice. -/
theorem tracks_run (calls : List RelayCall) : ∀ (submitted : List H256) (relayer : Relayer),
    relayer.Tracks config submitted [] →
    (submitted ++ calls.filterMap RelayCall.submitted).Nodup →
    (calls.foldl (next env) relayer).Tracks config
      (submitted ++ calls.filterMap RelayCall.submitted) [] := by
  induction calls with
  | nil =>
    intro submitted relayer h _
    rw [List.filterMap_nil, List.append_nil]
    exact h
  | cons call calls ih =>
    intro submitted relayer h hnodup
    have hsplit : submitted ++ (call :: calls).filterMap RelayCall.submitted
        = (submitted ++ call.submitted.toList) ++ calls.filterMap RelayCall.submitted := by
      rw [List.filterMap_cons, List.append_assoc]
      cases call.submitted <;> rfl
    rw [hsplit] at hnodup ⊢
    -- the transfer that is submitted now is none of those before
    refine ih _ _ (tracks_next h fun id hsome hmem => ?_) hnodup
    have hfirst := hnodup.of_append_left
    rw [hsome] at hfirst
    exact (List.nodup_append.mp hfirst).2.2 id hmem id (List.mem_singleton_self id) rfl

/-- In every run in which no transfer is submitted twice, each message is moved at most once, and
relayed only after it has waited and never after it has been relayed. -/
theorem relayed_once (env : Env) (config : RelayerConfig) (calls : List RelayCall)
    (hdistinct : (calls.filterMap RelayCall.submitted).Nodup) :
    RelayedOnce config (calls.foldl (next env) (new config)).history :=
  (tracks_run calls [] (new config) ⟨rfl, Tracked.new config⟩ hdistinct).2.relayedOnce

/-- A message that needs two confirmations, and is relayed at the second attempt. -/
def sampleCalls : List RelayCall :=
  [.submit (Vector.replicate 32 1) (.ofNat 0), .process ⟨id, fun _ => .refl _⟩,
    .process ⟨id, fun _ => .refl _⟩, .relay fun _ => false, .relay fun _ => true]

/-- The message is moved. -/
theorem sample_relayed_once :
    RelayedOnce ⟨2, 10, 3⟩
        (sampleCalls.foldl (next (sampleKeccakEnv true).toEnv) (new ⟨2, 10, 3⟩)).history ∧
      .moved (Vector.replicate 32 1) ∈
        (sampleCalls.foldl (next (sampleKeccakEnv true).toEnv) (new ⟨2, 10, 3⟩)).history :=
  ⟨relayed_once (sampleKeccakEnv true).toEnv ⟨2, 10, 3⟩ sampleCalls (by decide +kernel),
    by decide +kernel⟩

end Relayer

end InterBit.CrossChain
