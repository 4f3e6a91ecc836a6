import InterBit.CrossChain.RelayedOnce
import InterBit.Lib.RotatingQueue

/-!
# Every message is relayed in the end

The copy of a message that `submit_transfer` pushes to the queue is never ready, so it goes round
for ever (`pending_copies`), and the queue is as long as the number of submissions at least. A copy
that is ready waits behind those, but for a bounded number of rounds only (`called_within`), so a
transfer that is confirmed often enough is relayed (`relayed_of_submitted`).

`Healthy` says that no count overflows, so that no loop stops with a panic.
-/

namespace InterBit.CrossChain

open InterBit.Lib
open InterBit.StateMachine (IterOrder)

/-- The transfers that have been submitted. -/
def submissions (history : List RelayEvent) : List H256 :=
  history.filterMap fun
    | .submitted id => some id
    | _ => none

/-- Whether a call relays. -/
def RelayCall.isRelay : RelayCall → Bool
  | .relay _ => true
  | _ => false

/-- Whether a call goes through the pending messages. -/
def RelayCall.isProcess : RelayCall → Bool
  | .process _ => true
  | _ => false

/-- `relay_message` always succeeds. -/
def RelayCall.Succeeds : RelayCall → Prop
  | .relay succeeds => ∀ i, succeeds i = true
  | _ => True

namespace Relayer

/-! ## What a step does -/

/-- The ready messages among the first `n` are taken out, and the others go to the end. -/
theorem takeBatch_eq {n : Nat} {queue batch : List RelayMessage} (h : n ≤ queue.length) :
    takeBatch n queue batch = (rotated (fun m => decide (m.status = .ready)) n queue,
      batch ++ served (fun m => decide (m.status = .ready)) n queue) := by
  induction n generalizing queue batch with
  | zero => simp [takeBatch, rotated, served]
  | succ n ih =>
    cases queue with
    | nil => exact absurd h (Nat.not_succ_le_zero n)
    | cons message queue =>
      have hn : n ≤ queue.length := Nat.le_of_succ_le_succ h
      rw [takeBatch]
      split
      next hready =>
        rw [ih hn]
        simp [rotated, served, hready]
      next hready =>
        rw [ih (by rw [List.length_append]; omega)]
        simp [rotated, served, hready, List.take_append_of_le_length hn,
          List.drop_append_of_le_length hn]

/-- A pending message with one more confirmation. -/
def advance (config : RelayerConfig) (message : RelayMessage) : RelayMessage :=
  if message.status = .pending then
    { message with
      confirmations := message.confirmations + 1
      status := if config.minConfirmations ≤ message.confirmations + 1 then .ready
        else message.status }
  else message

/-- No count of the message overflows. -/
structure Healthy (config : RelayerConfig) (message : RelayMessage) : Prop where
  status : message.status = .pending ∨ message.status = .ready
  confirmations : message.status = .pending →
    message.confirmations.toNat < max 1 config.minConfirmations.toNat
  retries : message.retryCount.toNat < max 1 config.maxRetryAttempts.toNat

variable {env : Env} {config : RelayerConfig} {message : RelayMessage}

theorem Healthy.confirm (h : Healthy config message) (hpending : message.status = .pending) :
    confirm env config message = some (advance config message) := by
  have hlt := h.confirmations hpending
  have hmin := config.minConfirmations.isLt
  have hsum : message.confirmations.toNat + 1 < 2 ^ 64 := by omega
  have hadd : env.add64 message.confirmations 1 = some (message.confirmations + 1) := by
    rw [Build.add64, if_neg]
    intro hover
    exact absurd hover.2 (Nat.not_le_of_lt hsum)
  rw [Relayer.confirm, hadd, Relayer.advance, if_pos hpending]
  by_cases hready : config.minConfirmations ≤ message.confirmations + 1
  · simp only [if_pos hready]
  · simp only [if_neg hready]

/-- A healthy message stays healthy as it advances. -/
theorem Healthy.advance (h : Healthy config message) :
    Healthy config (advance config message) := by
  unfold Relayer.advance
  split
  next hpending =>
    have hlt := h.confirmations hpending
    have hmin := config.minConfirmations.isLt
    have hsum : (message.confirmations + 1).toNat = message.confirmations.toNat + 1 := by
      rw [BitVec.toNat_add]
      exact Nat.mod_eq_of_lt (by show message.confirmations.toNat + 1 < 2 ^ 64; omega)
    split
    next hready => exact ⟨.inr rfl, fun hwrong => (by cases hwrong), h.retries⟩
    next hwait =>
      refine ⟨.inl hpending, fun _ => ?_, h.retries⟩
      show (message.confirmations + 1).toNat < max 1 config.minConfirmations.toNat
      rw [BitVec.le_def, Nat.not_le] at hwait
      exact Nat.lt_of_lt_of_le hwait (Nat.le_max_right _ _)
  next => exact h

@[simp] theorem advance_id (config : RelayerConfig) (message : RelayMessage) :
    (advance config message).id = message.id := by
  unfold Relayer.advance
  split <;> rfl

/-- What the loop does to the pending messages that it goes through. -/
theorem confirmAll_spec {entries : List (Sigma fun _ : H256 => RelayMessage)}
    {pending : AList fun _ : H256 => RelayMessage} {updated : List RelayMessage}
    (hnodup : entries.NodupKeys) (hlookup : ∀ e ∈ entries, pending.lookup e.1 = some e.2)
    (hhealthy : ∀ e ∈ entries, Healthy config e.2) :
    ∃ pending' ready, confirmAll env config entries pending updated
        = (pending', some (updated ++ ready)) ∧
      (∀ id ∈ entries.keys, pending'.lookup id = (pending.lookup id).map (advance config)) ∧
      (∀ id ∉ entries.keys, pending'.lookup id = pending.lookup id) ∧
      (∀ message, message ∈ ready ↔ ∃ e ∈ entries, e.2.status = .pending ∧
        message = advance config e.2 ∧ message.status = .ready) := by
  induction entries generalizing pending updated with
  | nil =>
    refine ⟨pending, [], by rw [confirmAll, List.append_nil], ?_, fun _ _ => rfl, ?_⟩
    · intro id hid
      exact absurd hid List.not_mem_nil
    · intro message
      refine ⟨fun h => absurd h List.not_mem_nil, ?_⟩
      rintro ⟨e, he, _⟩
      exact absurd he List.not_mem_nil
  | cons e entries ih =>
    obtain ⟨id, message⟩ := e
    obtain ⟨hkey, hnodup⟩ := List.nodupKeys_cons.mp hnodup
    obtain ⟨hfirst, hlookup⟩ := List.forall_mem_cons.mp hlookup
    obtain ⟨hone, hhealthy⟩ := List.forall_mem_cons.mp hhealthy
    -- the entries to come have other ids, so that writing this one leaves them
    have hkeys : ∀ e ∈ entries, e.1 ≠ id := by
      intro e he heq
      have hmem : e.1 ∈ entries.keys := List.mem_map_of_mem he
      exact hkey (heq ▸ hmem)
    rw [confirmAll]
    by_cases hpending : message.status = .pending
    · rw [if_pos hpending, hone.confirm hpending]
      have hlookup' : ∀ e ∈ entries,
          (pending.insert id (Relayer.advance config message)).lookup e.1 = some e.2 := by
        intro e he
        rw [AList.lookup_insert_ne (hkeys e he)]
        exact hlookup e he
      let first := if (Relayer.advance config message).status = .ready then
        [Relayer.advance config message] else []
      have hfirstMem : ∀ m, m ∈ first ↔
          m = Relayer.advance config message ∧ m.status = .ready := by
        intro m
        by_cases hready : (Relayer.advance config message).status = .ready
        · simp only [first, if_pos hready, List.mem_singleton]
          refine ⟨fun heq => ⟨heq, heq ▸ hready⟩, fun h => h.1⟩
        · simp only [first, if_neg hready]
          refine ⟨fun h => absurd h List.not_mem_nil, ?_⟩
          rintro ⟨heq, hstatus⟩
          exact absurd (heq ▸ hstatus) hready
      -- the rest of the loop, from the map with this entry advanced
      obtain ⟨pending', ready, heq, hin, hout, hready⟩ := @ih
        (pending.insert id (Relayer.advance config message)) (updated ++ first) hnodup hlookup'
        hhealthy
      refine ⟨pending', first ++ ready, ?_, ?_, ?_, ?_⟩
      · rw [← List.append_assoc, ← heq]
        dsimp only [first]
        split
        next => rfl
        next => rw [List.append_nil]
      · intro id' hmem
        rcases List.mem_cons.mp hmem with rfl | hmem
        · rw [hout _ hkey, AList.lookup_insert, hfirst, Option.map_some]
        · have hne : id' ≠ id := fun heq => hkey (heq ▸ hmem)
          rw [hin id' hmem, AList.lookup_insert_ne hne]
      · intro id' hnot
        rw [List.keys_cons, List.mem_cons, not_or] at hnot
        rw [hout id' hnot.2, AList.lookup_insert_ne hnot.1]
      · intro m
        rw [List.mem_append, hfirstMem, hready]
        constructor
        · intro h
          rcases h with ⟨heq, hstatus⟩ | ⟨e, he, hrest⟩
          · exact ⟨_, List.mem_cons_self, hpending, heq, hstatus⟩
          · exact ⟨e, List.mem_cons_of_mem _ he, hrest⟩
        · rintro ⟨e, he, hrest⟩
          rcases List.mem_cons.mp he with rfl | he
          · exact Or.inl hrest.2
          · exact Or.inr ⟨e, he, hrest⟩
    -- a message that waits for its relay is passed over
    · rw [if_neg hpending]
      obtain ⟨pending', ready, heq, hin, hout, hready⟩ := @ih pending updated hnodup hlookup
        hhealthy
      have hsame : Relayer.advance config message = message := if_neg hpending
      refine ⟨pending', ready, heq, ?_, ?_, ?_⟩
      · intro id' hmem
        rcases List.mem_cons.mp hmem with rfl | hmem
        · rw [hout _ hkey, hfirst, Option.map_some, hsame]
        · exact hin id' hmem
      · intro id' hnot
        rw [List.keys_cons, List.mem_cons, not_or] at hnot
        exact hout id' hnot.2
      · intro m
        rw [hready]
        constructor
        · rintro ⟨e, he, hrest⟩
          exact ⟨e, List.mem_cons_of_mem _ he, hrest⟩
        · rintro ⟨e, he, hrest⟩
          rcases List.mem_cons.mp he with rfl | he
          · exact absurd hrest.1 hpending
          · exact ⟨e, he, hrest⟩

/-- No message of the relayer has a count that overflows. -/
structure Sound (config : RelayerConfig) (relayer : Relayer) : Prop where
  settings : relayer.config = config
  queue : ∀ message ∈ relayer.messageQueue, Healthy config message
  pending : ∀ id message, relayer.pendingMessages.lookup id = some message →
    message.id = id ∧ Healthy config message

variable {relayer : Relayer}

/-- Each pending message gets one more confirmation, and copies of those that become ready go to
the end of the queue. -/
theorem Sound.process (h : relayer.Sound config)
    (order : IterOrder (Sigma fun _ : H256 => RelayMessage)) :
    ∃ pendingMessages ready, (relayer.processPendingMessages env order).1 =
        { relayer with
          pendingMessages
          messageQueue := relayer.messageQueue ++ ready
          history := relayer.history ++ [.confirmed] } ∧
      (∀ id, pendingMessages.lookup id
        = (relayer.pendingMessages.lookup id).map (advance config)) ∧
      (∀ message, message ∈ ready ↔ ∃ id old, relayer.pendingMessages.lookup id = some old ∧
        old.status = .pending ∧ message = advance config old ∧ message.status = .ready) := by
  have hperm := order.perm relayer.pendingMessages.entries
  have hlookup : ∀ e ∈ order.arrange relayer.pendingMessages.entries,
      relayer.pendingMessages.lookup e.1 = some e.2 :=
    fun e he => AList.mem_lookup_iff.mpr (hperm.mem_iff.mp he)
  obtain ⟨pending', ready, heq, hin, hout, hready⟩ := @confirmAll_spec env config
    (order.arrange relayer.pendingMessages.entries) relayer.pendingMessages []
    ((List.perm_nodupKeys hperm).mpr relayer.pendingMessages.nodupKeys) hlookup
    fun e he => (h.pending e.1 e.2 (hlookup e he)).2
  rw [List.nil_append] at heq
  have hall : ready.filter (fun m => decide (m.status = .ready)) = ready := by
    refine List.filter_eq_self.mpr fun m hm => ?_
    obtain ⟨e, -, -, -, hstatus⟩ := (hready m).mp hm
    exact decide_eq_true hstatus
  refine ⟨pending', ready, ?_, ?_, ?_⟩
  · simp only [processPendingMessages, record, h.settings, heq, hall]
  · intro id
    by_cases hmem : id ∈ (order.arrange relayer.pendingMessages.entries).keys
    · exact hin id hmem
    · rw [hout id hmem]
      cases hold : relayer.pendingMessages.lookup id with
      | none => rfl
      | some old =>
        have he : (⟨id, old⟩ : Sigma fun _ : H256 => RelayMessage)
            ∈ order.arrange relayer.pendingMessages.entries :=
          hperm.mem_iff.mpr (AList.mem_lookup_iff.mp hold)
        exact absurd (List.mem_map_of_mem he) hmem
  · intro message
    rw [hready]
    constructor
    · rintro ⟨e, he, hrest⟩
      exact ⟨e.1, e.2, hlookup e he, hrest⟩
    · rintro ⟨id, old, hold, hrest⟩
      exact ⟨⟨id, old⟩, hperm.mem_iff.mpr (AList.mem_lookup_iff.mp hold), hrest⟩

/-- What it means that messages with these ids have been called. -/
structure Called (config : RelayerConfig) (ids : List H256) (before after : Relayer) : Prop where
  settings : after.config = before.config
  queue : ∃ again, after.messageQueue = before.messageQueue ++ again ∧
    ∀ message ∈ again, Healthy config message ∧ message.status = .ready
  history : ∃ events, after.history = before.history ++ events ∧ submissions events = [] ∧
    ∀ id ∈ ids, ∃ succeeded, .called id succeeded ∈ events
  others : ∀ id ∉ ids, after.pendingMessages.lookup id = before.pendingMessages.lookup id
  kept : ∀ id message, after.pendingMessages.lookup id = some message →
    before.pendingMessages.lookup id = some message
  relayed : ∀ id, (before.relayedMessages.lookup id).isSome →
    (after.relayedMessages.lookup id).isSome
  moved : ∀ id message, after.relayedMessages.lookup id = some message →
    message.status = .relayed ∨ before.relayedMessages.lookup id = some message

/-- Nothing was called. -/
theorem Called.refl (config : RelayerConfig) (relayer : Relayer) :
    Called config [] relayer relayer where
  settings := rfl
  queue := ⟨[], (List.append_nil _).symm, List.forall_mem_nil _⟩
  history := ⟨[], (List.append_nil _).symm, rfl, List.forall_mem_nil _⟩
  others := fun _ _ => rfl
  kept := fun _ _ h => h
  relayed := fun _ h => h
  moved := fun _ _ h => .inr h

theorem submissions_append (first second : List RelayEvent) :
    submissions (first ++ second) = submissions first ++ submissions second :=
  List.filterMap_append

/-- Two rounds of calls, one after the other. -/
theorem Called.trans {ids ids' : List H256} {r r' r'' : Relayer} (h : Called config ids r r')
    (h' : Called config ids' r' r'') : Called config (ids ++ ids') r r'' where
  settings := h'.settings.trans h.settings
  queue := by
    obtain ⟨again, heq, hall⟩ := h.queue
    obtain ⟨again', heq', hall'⟩ := h'.queue
    refine ⟨again ++ again', by rw [heq', heq, List.append_assoc], ?_⟩
    exact List.forall_mem_append.mpr ⟨hall, hall'⟩
  history := by
    obtain ⟨events, heq, hnone, hcalled⟩ := h.history
    obtain ⟨events', heq', hnone', hcalled'⟩ := h'.history
    refine ⟨events ++ events', by rw [heq', heq, List.append_assoc], ?_, ?_⟩
    · rw [submissions_append, hnone, hnone', List.append_nil]
    · intro id hid
      rcases List.mem_append.mp hid with hid | hid
      · obtain ⟨succeeded, hmem⟩ := hcalled id hid
        exact ⟨succeeded, List.mem_append_left _ hmem⟩
      · obtain ⟨succeeded, hmem⟩ := hcalled' id hid
        exact ⟨succeeded, List.mem_append_right _ hmem⟩
  others := by
    intro id hid
    rw [List.mem_append, not_or] at hid
    rw [h'.others id hid.2, h.others id hid.1]
  kept := fun id message hlookup => h.kept id message (h'.kept id message hlookup)
  relayed := fun id hsome => h'.relayed id (h.relayed id hsome)
  moved := by
    intro id message hlookup
    rcases h'.moved id message hlookup with hstatus | hold
    · exact Or.inl hstatus
    · exact h.moved id message hold

/-- A message is called, and no panic comes. -/
theorem relayOne_spec (hhealthy : Healthy config message) (hready : message.status = .ready)
    (hconfig : relayer.config = config) (succeeds : Bool) :
    ∃ relayer', relayer.relayOne env message succeeds = (relayer', some (.ok ())) ∧
      Called config [message.id] relayer relayer' ∧
      (succeeds = true → (relayer'.relayedMessages.lookup message.id).isSome) := by
  cases succeeds with
  -- the message moves from the pending ones to the relayed ones
  | true =>
    refine ⟨_, rfl,
      ⟨rfl, ⟨[], (List.append_nil _).symm, List.forall_mem_nil _⟩, ?_, ?_, ?_, ?_, ?_⟩, ?_⟩
    · refine ⟨[.called message.id true, .moved message.id], ?_, rfl, ?_⟩
      · exact List.append_assoc ..
      · intro id hid
        rw [List.mem_singleton.mp hid]
        exact ⟨true, List.mem_cons_self⟩
    · intro id hid
      exact AList.lookup_erase_ne fun heq => hid (heq ▸ List.mem_singleton_self _)
    · intro id m hlookup
      by_cases heq : id = message.id
      · rw [heq] at hlookup
        replace hlookup : (relayer.pendingMessages.erase message.id).lookup message.id = some m :=
          hlookup
        rw [AList.lookup_erase] at hlookup
        cases hlookup
      · replace hlookup : (relayer.pendingMessages.erase message.id).lookup id = some m := hlookup
        rw [AList.lookup_erase_ne heq] at hlookup
        exact hlookup
    · intro id hsome
      show ((relayer.relayedMessages.insert message.id _).lookup id).isSome
      by_cases heq : id = message.id
      · rw [heq, AList.lookup_insert]
        rfl
      · rw [AList.lookup_insert_ne heq]
        exact hsome
    · intro id m hlookup
      rcases lookup_insert_eq_some.mp hlookup with ⟨-, rfl⟩ | ⟨-, hold⟩
      · exact Or.inl rfl
      · exact Or.inr hold
    · intro _
      show ((relayer.relayedMessages.insert message.id _).lookup message.id).isSome
      rw [AList.lookup_insert]
      rfl
  | false =>
    -- below the limit the counter of the attempts cannot overflow
    have hretry := hhealthy.retries
    have hmax := config.maxRetryAttempts.isLt
    have hsucc : env.succ32 message.retryCount = some (message.retryCount + 1) := by
      rw [Build.succ32, if_neg]
      intro hover
      omega
    have hone : (message.retryCount + 1).toNat = message.retryCount.toNat + 1 := by
      rw [BitVec.toNat_add]
      exact Nat.mod_eq_of_lt (by show message.retryCount.toNat + 1 < 2 ^ 32; omega)
    have hevents : ∃ events, (relayer.record (.called message.id false)).history
        = relayer.history ++ events ∧ submissions events = [] ∧
        ∀ id ∈ [message.id], ∃ succeeded, .called id succeeded ∈ events := by
      refine ⟨[.called message.id false], rfl, rfl, ?_⟩
      intro id hid
      rw [List.mem_singleton.mp hid]
      exact ⟨false, List.mem_cons_self⟩
    -- the last attempt gives the message up, any other queues it again
    by_cases hgiveUp : config.maxRetryAttempts ≤ message.retryCount + 1
    · refine ⟨relayer.record (.called message.id false), ?_, ⟨rfl, ?_, hevents, fun _ _ => rfl,
        fun _ _ h => h, fun _ h => h, fun _ _ h => .inr h⟩, fun hwrong => (by cases hwrong)⟩
      · simp only [relayOne, hsucc, record, hconfig, if_pos hgiveUp, Bool.false_eq_true, if_false]
      · exact ⟨[], (List.append_nil _).symm, List.forall_mem_nil _⟩
    · let again := { message with retryCount := message.retryCount + 1 }
      refine ⟨{ relayer.record (.called message.id false) with
          messageQueue := relayer.messageQueue ++ [again] }, ?_,
        ⟨rfl, ⟨[again], rfl, ?_⟩, hevents, fun _ _ => rfl, fun _ _ h => h, fun _ h => h,
          fun _ _ h => .inr h⟩,
        fun hwrong => (by cases hwrong)⟩
      · simp only [relayOne, hsucc, record, hconfig, if_neg hgiveUp, Bool.false_eq_true, if_false,
          again]
      · rw [List.forall_mem_singleton]
        refine ⟨⟨.inr hready, hhealthy.confirmations, ?_⟩, hready⟩
        show (message.retryCount + 1).toNat < max 1 config.maxRetryAttempts.toNat
        rw [BitVec.le_def, Nat.not_le] at hgiveUp
        exact Nat.lt_of_lt_of_le hgiveUp (Nat.le_max_right _ _)

/-- All messages of a batch are called. -/
theorem relayBatch_spec {batch : List RelayMessage} {succeeds : Nat → Bool}
    (hhealthy : ∀ message ∈ batch, Healthy config message ∧ message.status = .ready)
    (hconfig : relayer.config = config) :
    ∃ relayer', relayer.relayBatch env batch succeeds = (relayer', some (.ok ())) ∧
      Called config (batch.map (·.id)) relayer relayer' ∧
      ((∀ i, succeeds i = true) →
        ∀ message ∈ batch, (relayer'.relayedMessages.lookup message.id).isSome) := by
  induction batch generalizing relayer succeeds with
  | nil => exact ⟨relayer, rfl, .refl config relayer, fun _ => List.forall_mem_nil _⟩
  | cons message batch ih =>
    obtain ⟨hfirst, hhealthy⟩ := List.forall_mem_cons.mp hhealthy
    obtain ⟨relayer', hone, hcalled, hrelayed⟩ :=
      @relayOne_spec env config message relayer hfirst.1 hfirst.2 hconfig (succeeds 0)
    obtain ⟨relayer'', hrest, hcalled', hrelayed'⟩ :=
      @ih relayer' (fun i => succeeds (i + 1)) hhealthy (hcalled.settings.trans hconfig)
    refine ⟨relayer'', ?_, hcalled.trans hcalled', ?_⟩
    · rw [relayBatch, hone]
      exact hrest
    · intro hall
      rw [List.forall_mem_cons]
      exact ⟨hcalled'.relayed _ (hrelayed (hall 0)), hrelayed' fun i => hall (i + 1)⟩

/-- A round: the ready messages among the first ones are called, and the others go to the end. -/
theorem Sound.relay (h : relayer.Sound config) (succeeds : Nat → Bool) :
    let n := min config.batchSize relayer.messageQueue.length
    let ready := fun m : RelayMessage => decide (m.status = .ready)
    ∃ relayer', (relayer.relayReadyMessages env succeeds).1 = relayer' ∧
      Called config ((served ready n relayer.messageQueue).map (·.id))
        { relayer with messageQueue := rotated ready n relayer.messageQueue } relayer' ∧
      ((∀ i, succeeds i = true) → ∀ message ∈ served ready n relayer.messageQueue,
        (relayer'.relayedMessages.lookup message.id).isSome) := by
  intro n ready
  have hbatch : takeBatch n relayer.messageQueue []
      = (rotated ready n relayer.messageQueue, served ready n relayer.messageQueue) :=
    takeBatch_eq (Nat.min_le_right _ _)
  have hhealthy : ∀ message ∈ served ready n relayer.messageQueue,
      Healthy config message ∧ message.status = .ready := by
    intro message hmem
    obtain ⟨htaken, hstatus⟩ := List.mem_filter.mp hmem
    exact ⟨h.queue message (List.mem_of_mem_take htaken), of_decide_eq_true hstatus⟩
  obtain ⟨relayer', heq, hcalled, hrelayed⟩ := @relayBatch_spec env config
    { relayer with messageQueue := rotated ready n relayer.messageQueue } _ succeeds hhealthy
    h.settings
  refine ⟨relayer', ?_, hcalled, hrelayed⟩
  have hn : min relayer.config.batchSize relayer.messageQueue.length = n := by
    rw [h.settings]
  simp only [relayReadyMessages, hn, hbatch, heq]

/-- A submission pushes a message and inserts it, or it panics and does neither. -/
theorem submitTransfer_cases (relayer : Relayer) (transferId : H256) (now : Seconds) :
    (∃ nonce chainNonces, relayer.submitTransfer env transferId now =
      ({ relayer with
          chainNonces
          messageQueue := relayer.messageQueue ++ [Relayer.message transferId nonce now]
          pendingMessages :=
            relayer.pendingMessages.insert transferId (Relayer.message transferId nonce now)
          history := relayer.history ++ [.submitted transferId] }, some (.ok ()))) ∨
    ∃ chainNonces, relayer.submitTransfer env transferId now
      = ({ relayer with chainNonces }, none) := by
  unfold submitTransfer getNextNonce
  dsimp only
  cases env.add64 ((relayer.chainNonces.lookup 1).getD 0) 1 with
  | none => exact Or.inr ⟨_, rfl⟩
  | some nonce => exact Or.inl ⟨nonce, _, rfl⟩

/-- A new message is healthy. -/
theorem healthy_message (config : RelayerConfig) (transferId : H256) (nonce : U64)
    (now : Seconds) : Healthy config (Relayer.message transferId nonce now) where
  status := .inl rfl
  confirmations := fun _ => Nat.lt_of_lt_of_le Nat.one_pos (Nat.le_max_left _ _)
  retries := Nat.lt_of_lt_of_le Nat.one_pos (Nat.le_max_left _ _)

/-- No call makes a count overflow. -/
theorem Sound.next (h : relayer.Sound config) (call : RelayCall) :
    (relayer.next env call).Sound config := by
  cases call with
  | submit transferId now =>
    rw [Relayer.next]
    rcases @submitTransfer_cases env relayer transferId now with
      ⟨nonce, chainNonces, heq⟩ | ⟨chainNonces, heq⟩
    · rw [heq]
      have hmessage := healthy_message config transferId nonce now
      refine ⟨h.settings, ?_, ?_⟩
      · exact List.forall_mem_append.mpr ⟨h.queue, List.forall_mem_singleton.mpr hmessage⟩
      · intro id message hlookup
        rcases lookup_insert_eq_some.mp hlookup with ⟨rfl, rfl⟩ | ⟨-, hold⟩
        · exact ⟨rfl, hmessage⟩
        · exact h.pending id message hold
    · rw [heq]
      exact ⟨h.settings, h.queue, h.pending⟩
  | process order =>
    obtain ⟨pending', ready, heq, hlookup, hready⟩ := @Sound.process env config relayer h order
    rw [Relayer.next, heq]
    refine ⟨h.settings, ?_, ?_⟩
    · refine List.forall_mem_append.mpr ⟨h.queue, fun message hmem => ?_⟩
      obtain ⟨id, old, hold, -, rfl, -⟩ := (hready message).mp hmem
      exact (h.pending id old hold).2.advance
    · intro id message hmessage
      replace hmessage : pending'.lookup id = some message := hmessage
      rw [hlookup, Option.map_eq_some_iff] at hmessage
      obtain ⟨old, hold, rfl⟩ := hmessage
      obtain ⟨hid, hhealthy⟩ := h.pending id old hold
      exact ⟨(advance_id config old).trans hid, hhealthy.advance⟩
  | relay succeeds =>
    obtain ⟨relayer', heq, hcalled, -⟩ := @Sound.relay env config relayer h succeeds
    rw [Relayer.next, heq]
    -- what failed is queued again, and is healthy
    obtain ⟨again, hqueue, hagain⟩ := hcalled.queue
    refine ⟨hcalled.settings.trans h.settings, ?_, ?_⟩
    · rw [hqueue]
      refine List.forall_mem_append.mpr ⟨fun message hmem => ?_, fun m hm => (hagain m hm).1⟩
      exact h.queue message (mem_of_mem_rotated hmem)
    · exact fun id message hlookup => h.pending id message (hcalled.kept id message hlookup)

/-- A new relayer is sound. -/
theorem sound_new (config : RelayerConfig) : (new config).Sound config where
  settings := rfl
  queue := List.forall_mem_nil _
  pending := by
    intro id message hlookup
    cases hlookup

theorem sound_run (env : Env) (config : RelayerConfig) (calls : List RelayCall) :
    (calls.foldl (next env) (new config)).Sound config := by
  have hkeep : ∀ (relayer : Relayer) (call : RelayCall), True → relayer.Sound config →
      (relayer.next env call).Sound config := fun _ call _ h => h.next call
  exact foldl_keeps hkeep (fun _ _ => trivial) (sound_new config)

/-! ## Waiting in the queue -/

/-- What happens is never forgotten. -/
theorem Sound.history_next (h : relayer.Sound config) (call : RelayCall) :
    ∃ events, (relayer.next env call).history = relayer.history ++ events := by
  cases call with
  | submit transferId now =>
    rw [Relayer.next]
    rcases @submitTransfer_cases env relayer transferId now with
      ⟨nonce, chainNonces, heq⟩ | ⟨chainNonces, heq⟩
    · exact ⟨[.submitted transferId], by rw [heq]⟩
    · exact ⟨[], by rw [heq, List.append_nil]⟩
  | process order =>
    obtain ⟨pending', ready, heq, -⟩ := @Sound.process env config relayer h order
    exact ⟨[.confirmed], by rw [Relayer.next, heq]⟩
  | relay succeeds =>
    obtain ⟨relayer', heq, hcalled, -⟩ := @Sound.relay env config relayer h succeeds
    obtain ⟨events, hevents, -⟩ := hcalled.history
    exact ⟨events, by rw [Relayer.next, heq, hevents]⟩

/-- A call that does not relay leaves the queue as it is, but for its end. -/
theorem Sound.queue_next (h : relayer.Sound config) {call : RelayCall}
    (hother : call.isRelay = false) :
    ∃ more, (relayer.next env call).messageQueue = relayer.messageQueue ++ more := by
  cases call with
  | submit transferId now =>
    rw [Relayer.next]
    rcases @submitTransfer_cases env relayer transferId now with
      ⟨nonce, chainNonces, heq⟩ | ⟨chainNonces, heq⟩
    · exact ⟨_, by rw [heq]⟩
    · exact ⟨[], by rw [heq, List.append_nil]⟩
  | process order =>
    obtain ⟨pending', ready, heq, -⟩ := @Sound.process env config relayer h order
    exact ⟨ready, by rw [Relayer.next, heq]⟩
  | relay succeeds => cases hother

/-- A message in the queue comes `batchSize` places nearer with each round, or it is looked at. -/
theorem Sound.place_next (h : relayer.Sound config) {i : Nat}
    (hplace : relayer.messageQueue[i]? = some message) {call : RelayCall}
    (hfar : call.isRelay = true → config.batchSize ≤ i) :
    (relayer.next env call).messageQueue[if call.isRelay then i - config.batchSize else i]?
      = some message := by
  have hi := (List.getElem?_eq_some_iff.mp hplace).1
  cases hkind : call.isRelay with
  | false =>
    obtain ⟨more, heq⟩ := @Sound.queue_next env config relayer h call hkind
    rw [if_neg Bool.false_ne_true, heq, List.getElem?_append_left hi, hplace]
  | true =>
    cases call with
    | submit transferId now => cases hkind
    | process order => cases hkind
    | relay succeeds =>
      obtain ⟨relayer', heq, hcalled, -⟩ := @Sound.relay env config relayer h succeeds
      obtain ⟨again, hqueue, -⟩ := hcalled.queue
      have hle := hfar hkind
      have hn : min config.batchSize relayer.messageQueue.length = config.batchSize :=
        Nat.min_eq_left (by omega)
      rw [hn] at hqueue
      have hrotated : (rotated (fun m => decide (m.status = .ready)) config.batchSize
          relayer.messageQueue)[i - config.batchSize]? = some message :=
        getElem?_rotated hplace hle
      rw [if_pos rfl, Relayer.next, heq, hqueue,
        List.getElem?_append_left (List.getElem?_eq_some_iff.mp hrotated).1, hrotated]

/-- A message that is looked at is called, if it is ready, and is relayed if `relay_message`
succeeds. -/
theorem Sound.call_next (h : relayer.Sound config) {i : Nat}
    (hplace : relayer.messageQueue[i]? = some message) (hready : message.status = .ready)
    {call : RelayCall} (hkind : call.isRelay = true) (hi : i < config.batchSize) :
    (∃ events, (relayer.next env call).history = relayer.history ++ events ∧
      ∃ succeeded, .called message.id succeeded ∈ events) ∧
    (call.Succeeds → ((relayer.next env call).relayedMessages.lookup message.id).isSome) := by
  cases call with
  | submit transferId now => cases hkind
  | process order => cases hkind
  | relay succeeds =>
    obtain ⟨relayer', heq, hcalled, hrelayed⟩ := @Sound.relay env config relayer h succeeds
    have hlt := (List.getElem?_eq_some_iff.mp hplace).1
    have hmem : message ∈ served (fun m => decide (m.status = .ready))
        (min config.batchSize relayer.messageQueue.length) relayer.messageQueue :=
      mem_served hplace (Nat.lt_min.mpr ⟨hi, hlt⟩) (decide_eq_true hready)
    obtain ⟨events, hevents, -, hall⟩ := hcalled.history
    rw [Relayer.next, heq]
    refine ⟨⟨events, hevents, hall message.id (List.mem_map_of_mem hmem)⟩, fun hsucceeds => ?_⟩
    exact hrelayed hsucceeds message hmem

/-- The message stands at a place of the queue. -/
def StandsAt (message : RelayMessage) (relayer : Relayer) (place : Nat) : Prop :=
  relayer.messageQueue[place]? = some message

/-- The message has been called after the first `n` events. -/
def CalledAfter (n : Nat) (id : H256) (relayer : Relayer) : Prop :=
  ∃ succeeded, .called id succeeded ∈ relayer.history.drop n

/-- A message that does not relay leaves a message where it is, and a round brings it nearer. -/
theorem Sound.standsAt_next (h : relayer.Sound config) {call : RelayCall} {i : Nat}
    (hkind : call.isRelay = false) (hstands : StandsAt message relayer i) :
    StandsAt message (relayer.next env call) i := by
  have hnext := @Sound.place_next env config message relayer h i hstands call fun hround => by
    rw [hkind] at hround
    cases hround
  rw [hkind, if_neg Bool.false_ne_true] at hnext
  exact hnext

theorem Sound.standsAt_round (h : relayer.Sound config) {call : RelayCall} {i : Nat}
    (hkind : call.isRelay = true) (hfar : ¬ i < config.batchSize)
    (hstands : StandsAt message relayer i) :
    StandsAt message (relayer.next env call) (i - config.batchSize) := by
  have hnext := @Sound.place_next env config message relayer h i hstands call
    fun _ => Nat.le_of_not_lt hfar
  rw [if_pos hkind] at hnext
  exact hnext

/-- A message that is ready at a place of the queue is called once more before the rounds have gone
beyond that place, whatever is submitted, confirmed, relayed and failed meanwhile. -/
theorem called_within (env : Env) (config : RelayerConfig) (calls after : List RelayCall)
    {message : RelayMessage} {place : Nat}
    (hplace : (calls.foldl (next env) (new config)).messageQueue[place]? = some message)
    (hready : message.status = .ready)
    (hrounds : place < config.batchSize * after.countP RelayCall.isRelay) :
    CalledAfter (calls.foldl (next env) (new config)).history.length message.id
      ((calls ++ after).foldl (next env) (new config)) := by
  rw [List.foldl_append]
  generalize hstart : calls.foldl (next env) (new config) = start at hplace ⊢
  have hsound : start.Sound config := hstart ▸ sound_run env config calls
  -- the invariant of the rule: the relayer is sound and its history only grows
  have hinv : ∀ (r : Relayer) (call : RelayCall), True →
      r.Sound config ∧ start.history.length ≤ r.history.length →
      (r.next env call).Sound config ∧
        start.history.length ≤ (r.next env call).history.length := by
    intro r call _ ⟨hr, hle⟩
    obtain ⟨events, heq⟩ := @Sound.history_next env config r hr call
    refine ⟨hr.next call, ?_⟩
    rw [heq, List.length_append]
    omega
  have hdone : ∀ (r : Relayer) (call : RelayCall), True →
      r.Sound config ∧ start.history.length ≤ r.history.length →
      CalledAfter start.history.length message.id r →
      CalledAfter start.history.length message.id (r.next env call) := by
    intro r call _ hr ⟨succeeded, hmem⟩
    obtain ⟨events, heq⟩ := @Sound.history_next env config r hr.1 call
    refine ⟨succeeded, ?_⟩
    rw [heq, List.drop_append]
    exact List.mem_append_left _ hmem
  -- a round calls the first batch and moves the others forward
  have hround : ∀ (r : Relayer) (call : RelayCall) (i : Nat), True →
      r.Sound config ∧ start.history.length ≤ r.history.length → call.isRelay = true →
      StandsAt message r i →
      if i < config.batchSize then CalledAfter start.history.length message.id (r.next env call)
      else StandsAt message (r.next env call) (i - config.batchSize) := by
    intro r call i _ hr hkind hstands
    split
    next hnear =>
      obtain ⟨⟨events, heq, succeeded, hmem⟩, -⟩ :=
        @Sound.call_next env config message r hr.1 i hstands hready call hkind hnear
      refine ⟨succeeded, ?_⟩
      rw [heq, List.drop_append_of_le_length hr.2]
      exact List.mem_append_right _ hmem
    next hfar => exact hr.1.standsAt_round hkind hfar hstands
  exact served_of_rounds hinv hdone
    (fun r call i _ hr hkind hstands => hr.1.standsAt_next hkind hstands) hround
    (fun _ _ => trivial) ⟨hsound, Nat.le_refl _⟩ hplace hrounds

/-- A pass through the pending messages in the order of the map. -/
def samplePass : RelayCall :=
  .process ⟨fun entries => entries, fun entries => List.Perm.refl entries⟩

/-- A submission. -/
def sampleSubmit : RelayCall := .submit (Vector.replicate 32 1) (.ofNat 0)

/-- A round. -/
def sampleRound (succeeds : Bool) : RelayCall := .relay fun _ => succeeds

/-- The ready copy stands behind the pending one, and each round looks at one of them. -/
theorem called_within_sample :
    CalledAfter 3 (Vector.replicate 32 1)
      (([sampleSubmit, samplePass, samplePass] ++ [sampleRound false, sampleRound false]).foldl
        (next (sampleKeccakEnv true).toEnv) (new ⟨2, 1, 3⟩)) :=
  have hplace : ([sampleSubmit, samplePass, samplePass].foldl
      (next (sampleKeccakEnv true).toEnv) (new ⟨2, 1, 3⟩)).messageQueue[1]?
        = some ⟨Vector.replicate 32 1, 1, 2, 1, [], 0, 2, .ready, 0⟩ := rfl
  called_within _ _ _ [sampleRound false, sampleRound false] hplace rfl (by decide)

/-! ## From the submission on -/

/-- The transfer has been relayed, or a copy of it is ready, or it has been confirmed `k` times. -/
def Underway (id : H256) (k : Nat) (relayer : Relayer) : Prop :=
  (relayer.relayedMessages.lookup id).isSome ∨
  (∃ message ∈ relayer.messageQueue, message.id = id ∧ message.status = .ready) ∨
  ∃ message, relayer.pendingMessages.lookup id = some message ∧ message.status = .pending ∧
    message.confirmations.toNat = k

/-- What has been relayed stays so. -/
theorem Sound.relayed_next (h : relayer.Sound config) {id : H256}
    (hrelayed : (relayer.relayedMessages.lookup id).isSome) (call : RelayCall) :
    ((relayer.next env call).relayedMessages.lookup id).isSome := by
  cases call with
  | submit transferId now =>
    rw [Relayer.next]
    rcases @submitTransfer_cases env relayer transferId now with
      ⟨nonce, chainNonces, heq⟩ | ⟨chainNonces, heq⟩
    · rw [heq]
      exact hrelayed
    · rw [heq]
      exact hrelayed
  | process order =>
    obtain ⟨pending', ready, heq, -⟩ := @Sound.process env config relayer h order
    rw [Relayer.next, heq]
    exact hrelayed
  | relay succeeds =>
    obtain ⟨relayer', heq, hcalled, -⟩ := @Sound.relay env config relayer h succeeds
    rw [Relayer.next, heq]
    exact hcalled.relayed id hrelayed

/-- A ready copy stays in the queue until its message is relayed. -/
theorem Sound.ready_next (h : relayer.Sound config) (hmem : message ∈ relayer.messageQueue)
    (hready : message.status = .ready) {call : RelayCall} (hsucceeds : call.Succeeds) :
    message ∈ (relayer.next env call).messageQueue ∨
      ((relayer.next env call).relayedMessages.lookup message.id).isSome := by
  obtain ⟨i, hi⟩ := List.mem_iff_getElem?.mp hmem
  cases hkind : call.isRelay with
  | false =>
    left
    exact List.mem_iff_getElem?.mpr ⟨i, h.standsAt_next hkind hi⟩
  | true =>
    by_cases hnear : i < config.batchSize
    · right
      exact (h.call_next hi hready hkind hnear).2 hsucceeds
    · left
      exact List.mem_iff_getElem?.mpr ⟨_, h.standsAt_round hkind hnear hi⟩

theorem Sound.underway_next (h : relayer.Sound config) {id : H256} {k : Nat}
    (hunderway : relayer.Underway id k) {call : RelayCall} (hsucceeds : call.Succeeds)
    (hother : call.submitted ≠ some id) :
    (relayer.next env call).Underway id (if call.isProcess then k + 1 else k) := by
  rcases hunderway with hrelayed | ⟨message, hmem, hid, hready⟩ | ⟨message, hlookup, hpending, hk⟩
  · exact Or.inl (h.relayed_next hrelayed call)
  · rcases @Sound.ready_next env config message relayer h hmem hready call hsucceeds with
      hstays | hrelayed
    · exact Or.inr (.inl ⟨message, hstays, hid, hready⟩)
    · exact Or.inl (hid ▸ hrelayed)
  · cases call with
    | submit transferId now =>
      -- another transfer is submitted
      have hne : id ≠ transferId := fun heq => hother (heq ▸ rfl)
      refine Or.inr (.inr ⟨message, ?_, hpending, hk⟩)
      rw [Relayer.next]
      rcases @submitTransfer_cases env relayer transferId now with
        ⟨nonce, chainNonces, heq⟩ | ⟨chainNonces, heq⟩
      · rw [heq]
        exact (AList.lookup_insert_ne hne).trans hlookup
      · rw [heq]
        exact hlookup
    | process order =>
      -- one more confirmation, which may be the last one
      obtain ⟨pending', ready, heq, hadvance, hready⟩ := @Sound.process env config relayer h order
      obtain ⟨hid, hhealthy⟩ := h.pending id message hlookup
      have hlt := hhealthy.confirmations hpending
      have hmin := config.minConfirmations.isLt
      have hsum : (message.confirmations + 1).toNat = k + 1 := by
        rw [← hk, BitVec.toNat_add]
        exact Nat.mod_eq_of_lt (by show message.confirmations.toNat + 1 < 2 ^ 64; omega)
      rw [Relayer.next, heq]
      right
      by_cases hlast : config.minConfirmations ≤ message.confirmations + 1
      · left
        have hstatus : (advance config message).status = .ready := by
          rw [Relayer.advance, if_pos hpending]
          exact if_pos hlast
        refine ⟨advance config message, List.mem_append_right _ ?_, ?_, hstatus⟩
        · exact (hready _).mpr ⟨id, message, hlookup, hpending, rfl, hstatus⟩
        · exact (advance_id config message).trans hid
      · right
        refine ⟨advance config message, ?_, ?_, ?_⟩
        · show pending'.lookup id = _
          rw [hadvance, hlookup, Option.map_some]
        · rw [Relayer.advance, if_pos hpending]
          exact (if_neg hlast).trans hpending
        · rw [Relayer.advance, if_pos hpending]
          exact hsum
    | relay succeeds =>
      -- the entry in the map stays, if no copy of an earlier submission is relayed
      obtain ⟨relayer', heq, hcalled, hrelayed⟩ := @Sound.relay env config relayer h succeeds
      rw [Relayer.next, heq]
      by_cases hbatch : id ∈ (served (fun m : RelayMessage => decide (m.status = .ready))
          (min config.batchSize relayer.messageQueue.length) relayer.messageQueue).map (·.id)
      · obtain ⟨copy, hcopy, rfl⟩ := List.mem_map.mp hbatch
        exact Or.inl (hrelayed hsucceeds copy hcopy)
      · exact Or.inr (.inr ⟨message, (hcalled.others id hbatch).trans hlookup, hpending, hk⟩)

/-- Over a list of calls its confirmations grow with the passes in it. -/
theorem underway_of_calls {calls : List RelayCall} {id : H256} {k : Nat}
    (h : relayer.Sound config) (hunderway : relayer.Underway id k)
    (hcalls : ∀ call ∈ calls, call.Succeeds ∧ call.submitted ≠ some id) :
    (calls.foldl (next env) relayer).Underway id (k + calls.countP RelayCall.isProcess) := by
  induction calls generalizing relayer k with
  | nil => exact hunderway
  | cons call calls ih =>
    obtain ⟨⟨hsucceeds, hother⟩, hcalls⟩ := List.forall_mem_cons.mp hcalls
    have hnext := @Sound.underway_next env config relayer h id k hunderway call hsucceeds hother
    have hrest := ih (h.next call) hnext hcalls
    rw [List.foldl_cons]
    cases hkind : call.isProcess with
    | false =>
      rw [hkind, if_neg Bool.false_ne_true] at hrest
      rw [List.countP_cons_of_neg (by rw [hkind]; exact Bool.false_ne_true)]
      exact hrest
    | true =>
      rw [hkind, if_pos rfl, Nat.add_assoc, Nat.add_comm 1] at hrest
      rw [List.countP_cons_of_pos hkind]
      exact hrest

/-- The message has been relayed. -/
def IsRelayed (id : H256) (relayer : Relayer) : Prop :=
  (relayer.relayedMessages.lookup id).isSome

/-- A transfer is relayed when it has been confirmed often enough and the rounds since then have
gone through the queue once. -/
theorem relayed_of_submitted (env : Env) (config : RelayerConfig)
    (calls confirming relaying : List RelayCall) (id : H256) (now : Seconds)
    (hsubmitted : ((calls.foldl (next env) (new config)).submitTransfer env id now).2
      = some (.ok ()))
    (hsucceeds : ∀ call ∈ confirming ++ relaying, call.Succeeds)
    (honce : ∀ call ∈ confirming, call.submitted ≠ some id)
    (hconfirmed : max 1 config.minConfirmations.toNat ≤ confirming.countP RelayCall.isProcess)
    (hrounds :
      ((calls ++ .submit id now :: confirming).foldl (next env) (new config)).messageQueue.length
        ≤ config.batchSize * relaying.countP RelayCall.isRelay) :
    IsRelayed id
      ((calls ++ .submit id now :: confirming ++ relaying).foldl (next env) (new config)) := by
  rw [List.foldl_append]
  rw [List.foldl_append, List.foldl_cons] at hrounds ⊢
  generalize hstart : calls.foldl (next env) (new config) = start at hsubmitted hrounds ⊢
  have hsound : start.Sound config := hstart ▸ sound_run env config calls
  obtain ⟨hconfirming, hrelaying⟩ := List.forall_mem_append.mp hsucceeds
  -- the submission
  have hpending : (start.next env (.submit id now)).Underway id 0 := by
    rcases @submitTransfer_cases env start id now with
      ⟨nonce, chainNonces, heq⟩ | ⟨chainNonces, heq⟩
    · refine Or.inr (.inr ⟨Relayer.message id nonce now, ?_, rfl, rfl⟩)
      rw [Relayer.next, heq]
      exact AList.lookup_insert _
    · rw [heq] at hsubmitted
      cases hsubmitted
  -- the confirmations
  have hunderway := @underway_of_calls env config _ confirming id 0
    (hsound.next (.submit id now)) hpending
    fun call hcall => ⟨hconfirming call hcall, honce call hcall⟩
  have hsound' : (confirming.foldl (next env) (start.next env (.submit id now))).Sound config := by
    have hkeep : ∀ (r : Relayer) (call : RelayCall), True → r.Sound config →
        (r.next env call).Sound config := fun _ call _ h => h.next call
    exact foldl_keeps hkeep (fun _ _ => trivial) (hsound.next _)
  generalize confirming.foldl (next env) (start.next env (.submit id now)) = middle
    at hunderway hsound' hrounds ⊢
  have hdone : ∀ (r : Relayer) (call : RelayCall), call.Succeeds → r.Sound config →
      IsRelayed id r → IsRelayed id (r.next env call) :=
    fun r call _ hr hrelayed => hr.relayed_next hrelayed call
  have hinv : ∀ (r : Relayer) (call : RelayCall), call.Succeeds → r.Sound config →
      (r.next env call).Sound config := fun r call _ hr => hr.next call
  rcases hunderway with hrelayed | ⟨message, hmem, rfl, hready⟩ | ⟨message, hlookup, hwait, hk⟩
  · have hboth : ∀ (r : Relayer) (call : RelayCall), call.Succeeds →
        r.Sound config ∧ IsRelayed id r →
        (r.next env call).Sound config ∧ IsRelayed id (r.next env call) :=
      fun r call hc h => ⟨hinv r call hc h.1, hdone r call hc h.1 h.2⟩
    exact (foldl_keeps hboth hrelaying ⟨hsound', hrelayed⟩).2
  · -- the ready copy comes to the front
    obtain ⟨place, hplace⟩ := List.mem_iff_getElem?.mp hmem
    have hlt := (List.getElem?_eq_some_iff.mp hplace).1
    have hround : ∀ (r : Relayer) (call : RelayCall) (i : Nat), call.Succeeds → r.Sound config →
        call.isRelay = true → StandsAt message r i →
        if i < config.batchSize then IsRelayed message.id (r.next env call)
        else StandsAt message (r.next env call) (i - config.batchSize) := by
      intro r call i hc hr hkind hstands
      split
      next hnear => exact (hr.call_next hstands hready hkind hnear).2 hc
      next hfar => exact hr.standsAt_round hkind hfar hstands
    exact served_of_rounds hinv hdone
      (fun r call i _ hr hkind hstands => hr.standsAt_next hkind hstands) hround hrelaying hsound'
      hplace (Nat.lt_of_lt_of_le hlt hrounds)
  · -- it cannot still be pending
    have hconfirmations := (hsound'.pending id message hlookup).2.confirmations hwait
    omega

theorem relayed_of_submitted_sample :
    IsRelayed (Vector.replicate 32 1)
      (([] ++ .submit (Vector.replicate 32 1) (.ofNat 0) :: [samplePass, samplePass] ++
        [sampleRound true, sampleRound true] : List RelayCall).foldl
        (next (sampleKeccakEnv true).toEnv) (new ⟨2, 1, 3⟩)) := by
  refine relayed_of_submitted _ _ [] [samplePass, samplePass] [sampleRound true, sampleRound true]
    _ _ ?_ ?_ ?_ (by decide) ?_
  · rfl
  · intro call hcall
    simp only [List.mem_append, List.mem_cons, List.not_mem_nil, or_false] at hcall
    rcases hcall with (rfl | rfl) | rfl | rfl
    · trivial
    · trivial
    · exact fun _ => rfl
    · exact fun _ => rfl
  · intro call hcall
    simp only [List.mem_cons, List.not_mem_nil, or_false] at hcall
    rcases hcall with rfl | rfl
    · exact fun hwrong => (by cases hwrong)
    · exact fun hwrong => (by cases hwrong)
  · decide +kernel

/-! ## The copies that stay -/

/-- The ids of the copies that are not ready. -/
def waitingIds (queue : List RelayMessage) : List H256 :=
  (queue.filter fun message => !decide (message.status = .ready)).map (·.id)

theorem waitingIds_append (first second : List RelayMessage) :
    waitingIds (first ++ second) = waitingIds first ++ waitingIds second := by
  rw [waitingIds, List.filter_append, List.map_append, waitingIds, waitingIds]

theorem waitingIds_of_ready {queue : List RelayMessage}
    (h : ∀ message ∈ queue, message.status = .ready) : waitingIds queue = [] := by
  rw [waitingIds, List.filter_eq_nil_iff.mpr, List.map_nil]
  intro message hmem
  rw [h message hmem]
  decide

/-- Each submission has left a copy in the queue, and what has been relayed is marked so. -/
structure Littered (relayer : Relayer) : Prop where
  copies : (waitingIds relayer.messageQueue).Perm (submissions relayer.history)
  relayed : ∀ id message, relayer.relayedMessages.lookup id = some message →
    message.status = .relayed

/-- No call takes a copy of a message out of the pending ones. -/
theorem Littered.next (h : relayer.Littered) (hsound : relayer.Sound config) (call : RelayCall) :
    (relayer.next env call).Littered := by
  cases call with
  | submit transferId now =>
    rw [Relayer.next]
    rcases @submitTransfer_cases env relayer transferId now with
      ⟨nonce, chainNonces, heq⟩ | ⟨chainNonces, heq⟩
    · rw [heq]
      -- The copy that is pushed on submission is the one that waits for ever.
      refine ⟨?_, h.relayed⟩
      show (waitingIds (relayer.messageQueue ++ [Relayer.message transferId nonce now])).Perm
        (submissions (relayer.history ++ [.submitted transferId]))
      rw [waitingIds_append, submissions_append]
      exact h.copies.append (.refl [transferId])
    · rw [heq]
      exact ⟨h.copies, h.relayed⟩
  | process order =>
    obtain ⟨pending', ready, heq, -, hready⟩ := @Sound.process env config relayer hsound order
    rw [Relayer.next, heq]
    refine ⟨?_, h.relayed⟩
    show (waitingIds (relayer.messageQueue ++ ready)).Perm
      (submissions (relayer.history ++ [.confirmed]))
    have hall : ∀ message ∈ ready, message.status = .ready := by
      intro message hmem
      obtain ⟨id, old, -, -, -, hstatus⟩ := (hready message).mp hmem
      exact hstatus
    -- What `process_pending_messages` pushes is ready.
    rw [waitingIds_append, submissions_append, waitingIds_of_ready hall]
    exact h.copies.append (.refl [])
  | relay succeeds =>
    obtain ⟨relayer', heq, hcalled, -⟩ := @Sound.relay env config relayer hsound succeeds
    obtain ⟨again, hqueue, hagain⟩ := hcalled.queue
    obtain ⟨events, hevents, hnone, -⟩ := hcalled.history
    rw [Relayer.next, heq]
    refine ⟨?_, ?_⟩
    · rw [hqueue, hevents, waitingIds_append, submissions_append, hnone,
        waitingIds_of_ready fun m hm => (hagain m hm).2, List.append_nil, List.append_nil]
      -- A round turns what is not ready to the end, and takes nothing of it.
      exact (filter_rotated_perm.map _).trans h.copies
    · intro id message hlookup
      rcases hcalled.moved id message hlookup with hstatus | hold
      · exact hstatus
      · exact h.relayed id message hold

/-- In every run, the copies that are not ready are one for each submission, so the queue never gets
shorter than that; no message counts as failed, and none has a status but pending, ready and
relayed. -/
theorem pending_copies (env : Env) (config : RelayerConfig) (calls : List RelayCall) :
    let relayer := calls.foldl (next env) (new config)
    (waitingIds relayer.messageQueue).Perm (submissions relayer.history) ∧
    (submissions relayer.history).length ≤ relayer.getStats.queueSize ∧
    relayer.getStats.failedCount = 0 ∧
    ∀ id status, relayer.getMessageStatus id = some status →
      status = .pending ∨ status = .ready ∨ status = .relayed := by
  intro relayer
  have hkeep : ∀ (r : Relayer) (call : RelayCall), True → r.Sound config ∧ r.Littered →
      (r.next env call).Sound config ∧ (r.next env call).Littered :=
    fun r call _ h => ⟨h.1.next call, h.2.next h.1 call⟩
  have hnew : (new config).Littered := ⟨.refl [], fun id message h => (by cases h)⟩
  obtain ⟨hsound, h⟩ : relayer.Sound config ∧ relayer.Littered :=
    foldl_keeps hkeep (fun _ _ => trivial) ⟨sound_new config, hnew⟩
  refine ⟨h.copies, ?_, ?_, ?_⟩
  · rw [← h.copies.length_eq, waitingIds, List.length_map]
    exact List.length_filter_le _ _
  · refine List.countP_eq_zero.mpr fun entry hentry => ?_
    have hlookup : relayer.pendingMessages.lookup entry.1 = some entry.2 :=
      AList.mem_lookup_iff.mpr hentry
    -- no status is ever `Failed`
    rcases (hsound.pending entry.1 entry.2 hlookup).2.status with hstatus | hstatus
    · rw [hstatus]
      decide
    · rw [hstatus]
      decide
  · intro id status hstatus
    unfold getMessageStatus at hstatus
    cases hlookup : relayer.pendingMessages.lookup id with
    | some message =>
      rw [hlookup] at hstatus
      obtain rfl := Option.some.inj hstatus
      rcases (hsound.pending id message hlookup).2.status with hstatus | hstatus
      · exact Or.inl hstatus
      · exact Or.inr (.inl hstatus)
    | none =>
      rw [hlookup] at hstatus
      obtain ⟨message, hrelayed, rfl⟩ := Option.map_eq_some_iff.mp hstatus
      exact Or.inr (.inr (h.relayed id message hrelayed))

end Relayer

end InterBit.CrossChain
