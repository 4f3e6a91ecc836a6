import InterBit.Lib.LockInvariants
import Mathlib.Data.Finset.Card

/-!
# A queue that jams when it is full

Tasks append to a queue under its lock, and whoever finds that it has become full goes on to take
the same lock again, to empty the queue. This task waits for itself, and everybody else for it.

So the queue only grows until it is full: it holds the items of those who have appended, in their
order, and the one that has filled it never returns (`Fills.returned`). From then on the queue stays
as it is, and nobody returns any more (`Fills.frozen`).
-/

namespace InterBit.Lib

/-- A queue under a lock. -/
structure SharedQueue (L S T : Type) where
  lock : L
  queue : S → List T
  push : T → S → S
  isFull : S → Prop
  decidable : DecidablePred isFull

/-- Where a task is that appends to the queue. -/
inductive FillStage where
  | before
  | entered
  | pushed
  /-- It asks for the lock that it holds. -/
  | jammed
  | leaving
  | left
  deriving DecidableEq

namespace FillStage

/-- The task has appended its item. -/
def past : FillStage → Bool
  | .before | .entered => false
  | _ => true

/-- The task has appended its item, and it has not found room. -/
def blocking : FillStage → Bool
  | .pushed | .jammed => true
  | _ => false

/-- The task has the lock. -/
def inside : FillStage → Bool
  | .before | .left => false
  | _ => true

theorem inside_of_blocking {stage : FillStage} (h : stage.blocking = true) :
    stage.inside = true := by
  cases stage with
  | pushed | jammed => rfl
  | before | entered | leaving | left => cases h

end FillStage

namespace SharedQueue

variable {L S T α : Type} (shared : SharedQueue L S T)

instance : DecidablePred shared.isFull := shared.decidable

/-- The guard of those who append. -/
def guard : Guard L := ⟨shared.lock, .write⟩

/-- What is left to do for a task that appends an item. -/
def code (item : T) (flush : Routine L S α) (answer : α) : FillStage → Routine L S α
  | .before =>
    .acquire shared.guard <| .update (shared.push item) <| .look fun s =>
      if shared.isFull s then .acquire shared.guard flush else .release shared.guard (.ret answer)
  | .entered =>
    .update (shared.push item) <| .look fun s =>
      if shared.isFull s then .acquire shared.guard flush else .release shared.guard (.ret answer)
  | .pushed => .look fun s =>
      if shared.isFull s then .acquire shared.guard flush else .release shared.guard (.ret answer)
  | .jammed => .acquire shared.guard flush
  | .leaving => .release shared.guard (.ret answer)
  | .left => .ret answer

/-- What the task holds. -/
def held (stage : FillStage) : List (Guard L) := if stage.inside then [shared.guard] else []

/-- A task that appends an item, and flushes the queue if it is full then. -/
def fill (item : T) (flush : Routine L S α) (answer : α) : Routine L S α :=
  shared.code item flush answer .before

/-- The same with the rest of the flush, which takes the lock first. -/
theorem guarded_eq_fill {item : T} {answer : α} {attempt next : Routine L S α}
    (h : attempt = .acquire shared.guard next) :
    Routine.guarded shared.guard (do
        .modify (shared.push item)
        let s ← .state
        if shared.isFull s then attempt else return answer)
      = shared.fill item (next >>= fun a => .release shared.guard (.ret a)) answer := by
  refine congrArg (Routine.acquire _) (congrArg (Routine.update _)
    (congrArg Routine.look (funext fun s => ?_)))
  subst h
  show ((if shared.isFull s then _ else _) >>= _ : Routine L S α) = if shared.isFull s then _ else _
  split
  next => rfl
  next => rfl

/-- The answer of a task that appends. -/
theorem map_fill {β : Type} (f : α → β) (item : T) (flush : Routine L S α) (answer : α) :
    f <$> shared.fill item flush answer
      = shared.fill item (flush >>= fun a => .ret (f a)) (f answer) := by
  refine congrArg (Routine.acquire _) (congrArg (Routine.update _)
    (congrArg Routine.look (funext fun s => ?_)))
  show ((if shared.isFull s then _ else _) >>= _ : Routine L S β) = if shared.isFull s then _ else _
  split
  next => rfl
  next => rfl

/-- The same queue in a larger state, with its lock among others. -/
def onPart {L' S' : Type} (lock : L → L') (get : S' → S) (set : S → S' → S') :
    SharedQueue L' S' T where
  lock := lock shared.lock
  queue s := shared.queue (get s)
  push item s := set (shared.push item (get s)) s
  isFull s := shared.isFull (get s)
  decidable s := shared.decidable (get s)

theorem onPart_fill {L' S' : Type} (lock : L → L') (get : S' → S) (set : S → S' → S') (item : T)
    (flush : Routine L S α) (answer : α) :
    (shared.fill item flush answer).onPart lock get set
      = (shared.onPart lock get set).fill item (flush.onPart lock get set) answer := by
  refine congrArg (Routine.acquire _) (congrArg (Routine.update _)
    (congrArg Routine.look (funext fun s => ?_)))
  show Routine.onPart lock get set (if shared.isFull (get s) then _ else _)
    = if shared.isFull (get s) then _ else _
  split
  next => rfl
  next => rfl

/-- Pushing appends, and the queue is full from `n` items on. -/
structure Lawful (I : S → Prop) (n : Nat) : Prop where
  push : ∀ item s, shared.queue (shared.push item s) = shared.queue s ++ [item]
  full : ∀ s, I s → (shared.isFull s ↔ n ≤ (shared.queue s).length)

variable {shared} {item : T} {flush : Routine L S α} {answer : α} [DecidableEq L]

omit [DecidableEq L] in
/-- Only a task that has left the queue has returned. -/
theorem code_eq_ret {stage : FillStage} {a : α} (h : shared.code item flush answer stage = .ret a) :
    stage = .left := by
  cases stage with
  | left => rfl
  | before | entered | pushed | jammed | leaving => cases h

/-- A task that appends keeps what appending keeps; it comes to its answer only if there is room. -/
theorem within_fill {I : S → Prop} {R : S → S → Prop} {Q : α → Prop}
    (hpush : ∀ s, I s → R s (shared.push item s)) (hanswer : Q answer) :
    (shared.fill item flush answer).Within I R Q [] := by
  intro _
  refine ⟨hpush, fun s _ => ?_⟩
  dsimp only
  split
  next =>
    intro hharmless
    exact absurd (hharmless shared.guard (List.mem_singleton_self _)) not_admits_write
  next => exact hanswer

/-- What one operation does to a task that appends. -/
inductive Moves (shared : SharedQueue L S T) (item : T) (s : S) : FillStage → FillStage → S → Prop
  | enter : Moves shared item s .before .entered s
  | push : Moves shared item s .entered .pushed (shared.push item s)
  | jam : shared.isFull s → Moves shared item s .pushed .jammed s
  | room : ¬ shared.isFull s → Moves shared item s .pushed .leaving s
  | leave : Moves shared item s .leaving .left s

/-- The task goes through its stages; it does not come further than `jammed`. -/
theorem moves_of_step {stage : FillStage} {t : Routine L S α} {held' : List (Guard L)} {s s' : S}
    (h : Routine.Step (shared.code item flush answer stage) (shared.held stage) s t held' s') :
    ∃ stage', shared.Moves item s stage stage' s' ∧ t = shared.code item flush answer stage' ∧
      held' = shared.held stage' := by
  cases stage with
  | before =>
    cases h with
    | acquire => exact ⟨.entered, .enter, rfl, rfl⟩
  | entered =>
    cases h with
    | update => exact ⟨.pushed, .push, rfl, rfl⟩
  | pushed =>
    cases h with
    | look =>
      by_cases hfull : shared.isFull s
      · exact ⟨.jammed, .jam hfull, if_pos hfull, rfl⟩
      · exact ⟨.leaving, .room hfull, if_neg hfull, rfl⟩
  | jammed =>
    cases h with
    | acquire hharmless =>
      exact absurd (hharmless shared.guard (List.mem_singleton_self _)) not_admits_write
  | leaving =>
    cases h with
    | release => exact ⟨.left, .leave, rfl, List.erase_cons_head ..⟩
  | left => cases h

end SharedQueue

/-! ## Tasks that fill a queue -/

namespace Config

open SharedQueue

variable {ι L S T α : Type} [DecidableEq ι] (shared : SharedQueue L S T)
  (fills : ι → Prop) (item : ι → T) (flush : ι → Routine L S α) (answer : ι → α) (n : Nat)

/-- The tasks that fill the queue are at these stages; `past` are those that have appended, in
their order. -/
structure Queued (c : Config ι L S α) (stage : ι → FillStage) (past : List ι) : Prop where
  rest : ∀ i, fills i → c.rest i = shared.code (item i) (flush i) (answer i) (stage i) ∧
    c.held i = shared.held (stage i)
  mem_past : ∀ i, i ∈ past ↔ fills i ∧ (stage i).past = true
  nodup : past.Nodup
  queue : shared.queue c.state = past.map item
  length : past.length ≤ max 1 n
  /-- The last one cannot leave a full queue. -/
  blocking : n ≤ past.length → ∀ i ∈ past.getLast?, (stage i).blocking = true

variable {shared fills item flush answer n} {c c' : Config ι L S α} {stage : ι → FillStage}
  {past : List ι} {i : ι} {o : Unit}

/-- Who is inside has the lock. -/
theorem Queued.mem_held (h : c.Queued shared fills item flush answer n stage past) (hi : fills i)
    (hinside : (stage i).inside = true) : shared.guard ∈ c.held i := by
  rw [(h.rest i hi).2, SharedQueue.held, if_pos hinside]
  exact List.mem_singleton_self _

/-- If the queue is full, the last one is in the way of everybody else. -/
theorem Queued.exists_blocking (h : c.Queued shared fills item flush answer n stage past)
    (hfull : n ≤ past.length) (hne : past ≠ []) :
    ∃ last, past.getLast? = some last ∧ fills last ∧ (stage last).blocking = true := by
  refine ⟨past.getLast hne, List.getLast?_eq_some_getLast hne, ?_, ?_⟩
  · exact ((h.mem_past _).mp (List.getLast_mem hne)).1
  · exact h.blocking hfull _ (List.getLast?_eq_some_getLast hne)

/-- Who is inside has found the queue not full, or is the last one. -/
theorem Queued.room_of_inside (h : c.Queued shared fills item flush answer n stage past)
    (hexclusive : c.Exclusive) (hi : fills i) (hinside : (stage i).inside = true)
    (hno : (stage i).blocking = false) : past = [] ∨ past.length < n := by
  by_contra hfull
  rw [not_or, Nat.not_lt] at hfull
  obtain ⟨last, -, hlast, hblocking⟩ := h.exists_blocking hfull.2 hfull.1
  have hsame : i = last := hexclusive.eq_of_write (h.mem_held hi hinside)
    (h.mem_held hlast (FillStage.inside_of_blocking hblocking))
  rw [hsame, hblocking] at hno
  cases hno

variable {t : Routine L S α}

/-- A task that fills the queue goes on without a change of the queue. -/
theorem Queued.goto (h : c.Queued shared fills item flush answer n stage past) {next : FillStage}
    (hothers : ∀ j, j ≠ i → c'.rest j = c.rest j ∧ c'.held j = c.held j)
    (hrest : c'.rest i = shared.code (item i) (flush i) (answer i) next)
    (hheld : c'.held i = shared.held next) (hstate : c'.state = c.state)
    (hpast : next.past = (stage i).past)
    (hblocking : n ≤ past.length → (stage i).blocking = true → next.blocking = true) :
    c'.Queued shared fills item flush answer n (Function.update stage i next) past where
  rest j hj := by
    by_cases hij : j = i
    · subst hij
      rw [Function.update_self]
      exact ⟨hrest, hheld⟩
    · rw [Function.update_of_ne hij, (hothers j hij).1, (hothers j hij).2]
      exact h.rest j hj
  mem_past j := by
    by_cases hij : j = i
    · subst hij
      rw [Function.update_self, hpast]
      exact h.mem_past j
    · rw [Function.update_of_ne hij]
      exact h.mem_past j
  nodup := h.nodup
  queue := by rw [hstate, h.queue]
  length := h.length
  blocking hfull j hj := by
    have hlast := h.blocking hfull j hj
    by_cases hij : j = i
    · subst hij
      rw [Function.update_self]
      exact hblocking hfull hlast
    · rwa [Function.update_of_ne hij]

/-- A task appends its item. -/
theorem Queued.push {I : S → Prop} (h : c.Queued shared fills item flush answer n stage past)
    (hlawful : shared.Lawful I n) (hexclusive : c.Exclusive) (hi : fills i)
    (hstage : stage i = .entered)
    (hothers : ∀ j, j ≠ i → c'.rest j = c.rest j ∧ c'.held j = c.held j)
    (hrest : c'.rest i = shared.code (item i) (flush i) (answer i) .pushed)
    (hheld : c'.held i = shared.held .pushed) (hstate : c'.state = shared.push (item i) c.state) :
    c'.Queued shared fills item flush answer n (Function.update stage i .pushed)
      (past ++ [i]) where
  rest j hj := by
    by_cases hij : j = i
    · subst hij
      rw [Function.update_self]
      exact ⟨hrest, hheld⟩
    · rw [Function.update_of_ne hij, (hothers j hij).1, (hothers j hij).2]
      exact h.rest j hj
  mem_past j := by
    rw [List.mem_append, List.mem_singleton]
    by_cases hij : j = i
    · subst hij
      rw [Function.update_self]
      exact iff_of_true (.inr rfl) ⟨hi, rfl⟩
    · rw [Function.update_of_ne hij, or_iff_left hij]
      exact h.mem_past j
  nodup := by
    refine List.nodup_append.mpr ⟨h.nodup, List.pairwise_singleton _ i, ?_⟩
    rintro j hj _ hij rfl
    obtain rfl := List.mem_singleton.mp hij
    have hpast := ((h.mem_past j).mp hj).2
    rw [hstage] at hpast
    cases hpast
  queue := by
    rw [hstate, hlawful.push, h.queue, List.map_append]
    rfl
  length := by
    have hinside : (stage i).inside = true := by rw [hstage]; rfl
    have hno : (stage i).blocking = false := by rw [hstage]; rfl
    rw [List.length_append, List.length_singleton]
    -- while somebody is inside and does not wait, the queue is empty or has room
    rcases h.room_of_inside hexclusive hi hinside hno with rfl | hroom
    · exact Nat.le_max_left ..
    · exact Nat.le_trans hroom (Nat.le_max_right ..)
  blocking _ j hj := by
    rw [List.getLast?_concat] at hj
    obtain rfl := Option.some.inj hj
    rw [Function.update_self]
    rfl

/-! ### Runs -/

variable [DecidableEq L] {I : S → Prop} {R : ι → S → S → Prop} {Q : ι → α → Prop}

/-- What a step does to a queue that is being filled: nobody leaves who has not found room. -/
theorem Queued.step (h : c.Queued shared fills item flush answer n stage past)
    (hlawful : shared.Lawful I n) (hexclusive : c.Exclusive) (hwithin : c.WithinAll I R Q)
    (hR : ∀ i s s', R i s s' → I s')
    (hothers : ∀ i, ¬ fills i → ∀ s s', R i s s' → shared.queue s' = shared.queue s)
    (hstep : c.step i = some (c', o)) :
    ∃ stage' past', c'.Queued shared fills item flush answer n stage' past' ∧
      (∀ j, fills j → stage' j = .left → stage j = .left ∨ stage j = .leaving) ∧
      (past' = past ∨ fills i ∧ stage i = .entered) := by
  obtain ⟨hself, hframe⟩ := step_local hstep
  by_cases hi : fills i
  · rw [(h.rest i hi).1, (h.rest i hi).2] at hself
    obtain ⟨next, hmove, hrest, hheld⟩ := moves_of_step hself
    have hleft : ∀ j, (next = .left → stage i = .leaving) →
        Function.update stage i next j = .left → stage j = .left ∨ stage j = .leaving := by
      intro j hnext hj
      by_cases hij : j = i
      · subst hij
        rw [Function.update_self] at hj
        exact .inr (hnext hj)
      · rw [Function.update_of_ne hij] at hj
        exact .inl hj
    generalize hstage : stage i = now at hmove
    generalize hstate : c'.state = after at hmove
    cases hmove with
    | enter =>
      exact ⟨_, past, h.goto hframe hrest hheld hstate (by rw [hstage]; rfl)
        (by rw [hstage]; exact fun _ => id), fun j _ => hleft j (by rintro ⟨⟩), .inl rfl⟩
    | push =>
      exact ⟨_, _, h.push hlawful hexclusive hi hstage hframe hrest hheld hstate,
        fun j _ => hleft j (by rintro ⟨⟩), .inr ⟨hi, rfl⟩⟩
    | jam =>
      exact ⟨_, past, h.goto hframe hrest hheld hstate (by rw [hstage]; rfl) fun _ _ => rfl,
        fun j _ => hleft j (by rintro ⟨⟩), .inl rfl⟩
    | room hroom =>
      have hno : ¬ n ≤ past.length := by
        rw [← List.length_map item, ← h.queue, ← hlawful.full _ hwithin.state]
        exact hroom
      exact ⟨_, past, h.goto hframe hrest hheld hstate (by rw [hstage]; rfl)
        fun hfull => absurd hfull hno, fun j _ => hleft j (by rintro ⟨⟩), .inl rfl⟩
    | leave =>
      exact ⟨_, past, h.goto hframe hrest hheld hstate (by rw [hstage]; rfl)
        (by rw [hstage]; exact fun _ => id), fun j _ => hleft j fun _ => hstage, .inl rfl⟩
  · -- the others leave the queue as it is
    have hqueue : shared.queue c'.state = shared.queue c.state := by
      rcases (hwithin.step hR hstep).2 with hsame | hchange
      · rw [hsame]
      · exact hothers i hi _ _ hchange
    refine ⟨stage, past, ⟨fun j hj => ?_, h.mem_past, h.nodup, hqueue.trans h.queue, h.length,
      h.blocking⟩, fun j _ hj => .inl hj, .inl rfl⟩
    have hij : j ≠ i := fun heq => hi (heq ▸ hj)
    rw [(hframe j hij).1, (hframe j hij).2]
    exact h.rest j hj

omit [DecidableEq L] in
/-- Tasks that start with an empty queue. -/
theorem queued_start {s : S} {tasks : ι → Routine L S α}
    (htasks : ∀ i, fills i → tasks i = shared.fill (item i) (flush i) (answer i))
    (hempty : shared.queue s = []) :
    (start s tasks).Queued shared fills item flush answer n (fun _ => .before) [] where
  rest i hi := ⟨htasks i hi, rfl⟩
  mem_past i := iff_of_false List.not_mem_nil fun h => by cases h.2
  nodup := List.nodup_nil
  queue := hempty
  length := Nat.zero_le _
  blocking _ i hi := by cases hi

/-- What holds while a queue is filled. -/
structure Fills (shared : SharedQueue L S T) (fills : ι → Prop) (item : ι → T)
    (flush : ι → Routine L S α) (answer : ι → α) (n : Nat) (I : S → Prop) (R : ι → S → S → Prop)
    (Q : ι → α → Prop) (c : Config ι L S α) : Prop where
  lawful : shared.Lawful I n
  exclusive : c.Exclusive
  within : c.WithinAll I R Q
  queued : ∃ stage past, c.Queued shared fills item flush answer n stage past

variable {ok : Config ι L S α → ι → Prop} {is : List ι}

theorem Fills.step (h : c.Fills shared fills item flush answer n I R Q)
    (hR : ∀ i s s', R i s s' → I s')
    (hothers : ∀ i, ¬ fills i → ∀ s s', R i s s' → shared.queue s' = shared.queue s)
    (hstep : c.step i = some (c', o)) : c'.Fills shared fills item flush answer n I R Q := by
  obtain ⟨stage, past, hqueued⟩ := h.queued
  obtain ⟨stage', past', hqueued', -, -⟩ :=
    hqueued.step h.lawful h.exclusive h.within hR hothers hstep
  exact ⟨h.lawful, h.exclusive.step hstep, (h.within.step hR hstep).1, stage', past', hqueued'⟩

theorem Fills.run (h : c.Fills shared fills item flush answer n I R Q)
    (hR : ∀ i s s', R i s s' → I s')
    (hothers : ∀ i, ¬ fills i → ∀ s s', R i s s' → shared.queue s' = shared.queue s)
    (hrun : Run Config.step ok c is c') : c'.Fills shared fills item flush answer n I R Q :=
  hrun.invariant (fun _ _ _ _ _ _ hstep hfills => hfills.step hR hothers hstep) h

/-! ### What has been returned -/

omit [DecidableEq L] in
theorem Queued.left_iff (h : c.Queued shared fills item flush answer n stage past) (hi : fills i) :
    stage i = .left ↔ ∃ a, c.rest i = .ret a := by
  rw [(h.rest i hi).1]
  constructor
  · intro hleft
    rw [hleft]
    exact ⟨_, rfl⟩
  · rintro ⟨a, ha⟩
    exact code_eq_ret ha

/-- The queue holds the items of some tasks, in an order. Among them are all that have returned,
but not the one that has filled the queue. -/
theorem Fills.returned (h : c.Fills shared fills item flush answer n I R Q) :
    ∃ past : List ι, past.Nodup ∧ (∀ i ∈ past, fills i) ∧
      shared.queue c.state = past.map item ∧ past.length ≤ max 1 n ∧
      ∀ i a, fills i → c.rest i = .ret a →
        i ∈ past ∧ (n ≤ past.length → past.getLast? ≠ some i) := by
  obtain ⟨stage, past, hqueued⟩ := h.queued
  refine ⟨past, hqueued.nodup, fun i hi => ((hqueued.mem_past i).mp hi).1, hqueued.queue,
    hqueued.length, fun i a hi hret => ?_⟩
  have hleft := (hqueued.left_iff hi).mpr ⟨a, hret⟩
  refine ⟨(hqueued.mem_past i).mpr ⟨hi, by rw [hleft]; rfl⟩, fun hfull hlast => ?_⟩
  have hblocking := hqueued.blocking hfull i hlast
  rw [hleft] at hblocking
  cases hblocking

/-- Fewer tasks have returned than there is room for. -/
theorem Fills.card_lt (h : c.Fills shared fills item flush answer n I R Q) (done : Finset ι)
    (hdone : ∀ i ∈ done, fills i ∧ ∃ a, c.rest i = .ret a) : done.card < max 1 n := by
  obtain ⟨past, hnodup, -, -, hlength, hreturned⟩ := h.returned
  have hsub : ∀ i ∈ done, i ∈ past ∧ (n ≤ past.length → past.getLast? ≠ some i) := by
    intro i hi
    obtain ⟨hfills, a, ha⟩ := hdone i hi
    exact hreturned i a hfills ha
  have hle : done ⊆ past.toFinset := fun i hi => List.mem_toFinset.mpr (hsub i hi).1
  have hcard : done.card ≤ past.length :=
    (Finset.card_le_card hle).trans (List.toFinset_card_le past)
  by_cases hfull : n ≤ past.length
  · cases hlast : past.getLast? with
    | none =>
      rw [List.getLast?_eq_none_iff.mp hlast] at hcard
      exact Nat.lt_of_le_of_lt hcard (Nat.lt_of_lt_of_le Nat.zero_lt_one (Nat.le_max_left ..))
    | some last =>
      -- the last one is not among them
      have hmem : last ∈ past := List.mem_of_getLast? hlast
      have hless : done ⊂ past.toFinset := by
        refine Finset.ssubset_iff_of_subset hle |>.mpr ⟨last, List.mem_toFinset.mpr hmem, ?_⟩
        exact fun hin => (hsub last hin).2 hfull hlast
      have hlt := Finset.card_lt_card hless
      rw [List.toFinset_card_of_nodup hnodup] at hlt
      exact Nat.lt_of_lt_of_le hlt hlength
  · exact Nat.lt_of_le_of_lt hcard
      (Nat.lt_of_lt_of_le (Nat.not_le.mp hfull) (Nat.le_max_right ..))

/-! ### A full queue -/

/-- Nobody appends to a full queue, and nobody leaves it. -/
theorem Queued.step_full (h : c.Queued shared fills item flush answer n stage past)
    (hlawful : shared.Lawful I n) (hexclusive : c.Exclusive) (hwithin : c.WithinAll I R Q)
    (hR : ∀ i s s', R i s s' → I s')
    (hothers : ∀ i, ¬ fills i → ∀ s s', R i s s' → shared.queue s' = shared.queue s)
    (hfull : n ≤ past.length) (hne : past ≠ []) (hstep : c.step i = some (c', o)) :
    ∃ stage', c'.Queued shared fills item flush answer n stage' past ∧
      ∀ j, fills j → stage' j = .left → stage j = .left := by
  have hroom : ∀ j, fills j → (stage j).inside = true → (stage j).blocking = false → False := by
    intro j hj hinside hno
    rcases h.room_of_inside hexclusive hj hinside hno with hempty | hlt
    · exact hne hempty
    · exact Nat.not_le.mpr hlt hfull
  obtain ⟨stage', past', hqueued, hleft, hpast⟩ :=
    h.step hlawful hexclusive hwithin hR hothers hstep
  rcases hpast with rfl | ⟨hi, hentered⟩
  · refine ⟨stage', hqueued, fun j hj hnow => (hleft j hj hnow).resolve_right fun hleaving => ?_⟩
    exact hroom j hj (by rw [hleaving]; rfl) (by rw [hleaving]; rfl)
  · exact absurd (hroom i hi (by rw [hentered]; rfl) (by rw [hentered]; rfl)) id

theorem Fills.run_full (h : c.Fills shared fills item flush answer n I R Q)
    (hqueued : c.Queued shared fills item flush answer n stage past)
    (hR : ∀ i s s', R i s s' → I s')
    (hothers : ∀ i, ¬ fills i → ∀ s s', R i s s' → shared.queue s' = shared.queue s)
    (hfull : n ≤ past.length) (hne : past ≠ []) (hrun : Run Config.step ok c is c') :
    c'.Fills shared fills item flush answer n I R Q ∧
      ∃ stage', c'.Queued shared fills item flush answer n stage' past ∧
        ∀ j, fills j → stage' j = .left → stage j = .left := by
  refine hrun.invariant (I := fun d => d.Fills shared fills item flush answer n I R Q ∧
    ∃ stage', d.Queued shared fills item flush answer n stage' past ∧
      ∀ j, fills j → stage' j = .left → stage j = .left) (fun d i d' o _ _ hstep hd => ?_) ?_
  · obtain ⟨hfills, stage', hstage', hleft⟩ := hd
    obtain ⟨stage'', hstage'', hleft'⟩ := hstage'.step_full hfills.lawful hfills.exclusive
      hfills.within hR hothers hfull hne hstep
    exact ⟨hfills.step hR hothers hstep, stage'', hstage'',
      fun j hj hnow => hleft j hj (hleft' j hj hnow)⟩
  · exact ⟨h, stage, hqueued, fun j _ hj => hj⟩

/-- Once the queue is full it stays as it is, and nobody returns who has not returned before. -/
theorem Fills.frozen (h : c.Fills shared fills item flush answer n I R Q)
    (hR : ∀ i s s', R i s s' → I s')
    (hothers : ∀ i, ¬ fills i → ∀ s s', R i s s' → shared.queue s' = shared.queue s)
    (hfull : max 1 n ≤ (shared.queue c.state).length) (hrun : Run Config.step ok c is c') :
    shared.queue c'.state = shared.queue c.state ∧
      ∀ i a, fills i → c'.rest i = .ret a → ∃ b, c.rest i = .ret b := by
  obtain ⟨stage, past, hqueued⟩ := h.queued
  rw [hqueued.queue, List.length_map, Nat.max_le] at hfull
  obtain ⟨-, stage', hstage', hleft⟩ := h.run_full hqueued hR hothers hfull.2
    (List.ne_nil_of_length_pos hfull.1) hrun
  refine ⟨hstage'.queue.trans hqueued.queue.symm, fun i a hi hret => ?_⟩
  exact (hqueued.left_iff hi).mp (hleft i hi ((hstage'.left_iff hi).mpr ⟨a, hret⟩))

end Config

end InterBit.Lib
