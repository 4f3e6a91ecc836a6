import InterBit.Dex.OrderBookSections

/-!
# Cancelled orders

Calls on one book, one section at a time. `Tracked` is what is true of one id in every state:
where its order is, and which call is about to do something to it. A cancellation finds in the
index what is not in the book yet, if it comes between the two sections of `add_order`; then it
takes nothing out of the book, and the order that it has cancelled is put there afterwards. As long
as that does not happen (`InTime`), what is cancelled is gone (`cancelled_is_gone`).
-/

namespace InterBit.Dex

open InterBit.Lib OrderBook

/-! ## The life of one id -/

/-- What is true of an id: whether its `add_order` is still to begin or has only put it in the
index, whether it is in the index, whether a cancellation is about to take it out of the book,
whether it is filled and a match is about to take it out of the index, and how many orders of the
id rest in the book. -/
structure Tracked (awaited listed indexed unlisted filled : Prop) (resting : Nat) : Prop where
  once : resting ≤ 1
  begun : 0 < resting → ¬ awaited ∧ ¬ listed
  known : 0 < resting → indexed ∨ unlisted
  of_indexed : indexed → ¬ awaited
  backed : indexed → 0 < resting ∨ listed ∨ filled
  of_listed : listed → ¬ awaited ∧ (indexed ∨ unlisted)
  of_unlisted : unlisted → ¬ awaited ∧ ¬ indexed
  of_filled : filled → ¬ awaited ∧ ¬ listed ∧ resting = 0

namespace Tracked

variable {awaited listed indexed unlisted filled : Prop} {resting : Nat}

theorem congr {awaited' listed' indexed' unlisted' filled' : Prop} {resting' : Nat}
    (h : Tracked awaited listed indexed unlisted filled resting) (hawaited : awaited' ↔ awaited)
    (hlisted : listed' ↔ listed) (hindexed : indexed' ↔ indexed) (hunlisted : unlisted' ↔ unlisted)
    (hfilled : filled' ↔ filled) (hresting : resting' = resting) :
    Tracked awaited' listed' indexed' unlisted' filled' resting' := by
  rw [propext hawaited, propext hlisted, propext hindexed, propext hunlisted, propext hfilled,
    hresting]
  exact h

/-- Its `add_order` ends at once, or another call does nothing to it. -/
theorem idle {awaited' : Prop} (h : Tracked awaited listed indexed unlisted filled resting)
    (hle : awaited' → awaited) : Tracked awaited' listed indexed unlisted filled resting where
  once := h.once
  begun hpos := (h.begun hpos).imp_left (mt hle)
  known := h.known
  of_indexed hindexed := mt hle (h.of_indexed hindexed)
  backed := h.backed
  of_listed hlisted := (h.of_listed hlisted).imp_left (mt hle)
  of_unlisted hunlisted := (h.of_unlisted hunlisted).imp_left (mt hle)
  of_filled hfilled := (h.of_filled hfilled).imp_left (mt hle)

/-- It is put in the index. -/
theorem list (h : Tracked awaited listed indexed unlisted filled resting) (hawaited : awaited) :
    Tracked False True True unlisted filled resting where
  once := h.once
  begun hpos := absurd hawaited (h.begun hpos).1
  known _ := Or.inl trivial
  of_indexed _ := id
  backed _ := Or.inr (Or.inl trivial)
  of_listed _ := ⟨id, Or.inl trivial⟩
  of_unlisted hunlisted := absurd hawaited (h.of_unlisted hunlisted).1
  of_filled hfilled := absurd hawaited (h.of_filled hfilled).1

/-- It is put in the book. -/
theorem place (h : Tracked awaited listed indexed unlisted filled resting) (hlisted : listed) :
    Tracked awaited False indexed unlisted filled (resting + 1) := by
  have hzero : resting = 0 := Nat.eq_zero_of_not_pos fun hpos => (h.begun hpos).2 hlisted
  obtain ⟨hbegun, hknown⟩ := h.of_listed hlisted
  exact {
    once := hzero ▸ le_rfl
    begun := fun _ => ⟨hbegun, id⟩
    known := fun _ => hknown
    of_indexed := h.of_indexed
    backed := fun _ => Or.inl (Nat.succ_pos _)
    of_listed := False.elim
    of_unlisted := h.of_unlisted
    of_filled := fun hfilled => absurd hlisted (h.of_filled hfilled).2.1 }

/-- A cancellation takes it out of the index. -/
theorem unlist (h : Tracked awaited listed indexed unlisted filled resting) (hindexed : indexed) :
    Tracked awaited listed False True filled resting where
  once := h.once
  begun := h.begun
  known _ := Or.inr trivial
  of_indexed := False.elim
  backed := False.elim
  of_listed hlisted := ⟨(h.of_listed hlisted).1, Or.inr trivial⟩
  of_unlisted _ := ⟨h.of_indexed hindexed, id⟩
  of_filled := h.of_filled

/-- A cancellation takes it out of the book, in time. -/
theorem displace {unlisted' : Prop} (h : Tracked awaited listed indexed unlisted filled resting)
    (hunlisted : unlisted) (hplaced : ¬ listed) (hle : unlisted' → unlisted) :
    Tracked awaited listed indexed unlisted' filled 0 where
  once := Nat.zero_le 1
  begun hpos := absurd hpos (Nat.lt_irrefl 0)
  known hpos := absurd hpos (Nat.lt_irrefl 0)
  of_indexed := h.of_indexed
  backed hindexed := absurd hindexed (h.of_unlisted hunlisted).2
  of_listed hlisted := absurd hlisted hplaced
  of_unlisted hunlisted' := h.of_unlisted (hle hunlisted')
  of_filled hfilled := ⟨(h.of_filled hfilled).1, hplaced, rfl⟩

/-- A match fills it. -/
theorem fill (h : Tracked awaited listed indexed unlisted filled resting) (hpos : 0 < resting) :
    Tracked awaited listed indexed unlisted True 0 where
  once := Nat.zero_le 1
  begun hpos := absurd hpos (Nat.lt_irrefl 0)
  known hpos := absurd hpos (Nat.lt_irrefl 0)
  of_indexed := h.of_indexed
  backed _ := Or.inr (Or.inr trivial)
  of_listed hlisted := absurd hlisted (h.begun hpos).2
  of_unlisted := h.of_unlisted
  of_filled _ := ⟨(h.begun hpos).1, (h.begun hpos).2, rfl⟩

/-- A match takes it out of the index. -/
theorem forget {filled' : Prop} (h : Tracked awaited listed indexed unlisted filled resting)
    (hfilled : filled) (hle : filled' → filled) :
    Tracked awaited listed False unlisted filled' resting := by
  obtain ⟨hbegun, hplaced, hzero⟩ := h.of_filled hfilled
  exact {
    once := h.once
    begun := h.begun
    known := fun hpos => absurd hzero (Nat.ne_of_gt hpos)
    of_indexed := False.elim
    backed := False.elim
    of_listed := fun hlisted => absurd hlisted hplaced
    of_unlisted := fun hunlisted => ⟨hbegun, id⟩
    of_filled := fun hfilled' => h.of_filled (hle hfilled') }

end Tracked

/-! ## Calls on one book -/

/-- A book with calls on it. -/
structure Market (ι : Type) where
  book : OrderBook
  phase : ι → Phase

/-- What a call is about to do to an id: to put it in the index, to put it in the book, to take it
out of the book as cancelled, to take it out of the index as filled. -/
inductive Stage where
  | awaited
  | listed
  | unlisted
  | filled

/-- A phase in which a call is about to do something to an id. -/
def OrderBook.Phase.At (id : H256) : Stage → Phase → Prop
  | .awaited, .called (.add orderId _) => orderId = id
  | .listed, .listed order => order.id = id
  | .unlisted, .unlisted _ orderId => orderId = id
  | .filled, .filling _ filled => id ∈ filled
  | _, _ => False

namespace Market

variable {ι : Type}

/-- The calls from the start, on a new book. -/
def opening (calls : ι → BookCall) : Market ι where
  book := .new
  phase i := .called (calls i)

/-- Some call is about to do something to an id. -/
def At (m : Market ι) (id : H256) (stage : Stage) : Prop := ∃ i, (m.phase i).At id stage

/-- No cancellation comes to the book while the `add_order` of its order is between the index and
the book. -/
def InTime (m : Market ι) (i : ι) : Prop :=
  ∀ orderId, (m.phase i).At orderId .unlisted → ¬ m.At orderId .listed

/-! ## The invariant -/

/-- The order is as its caller has asked for it, but for the amount. -/
def Genuine (calls : ι → BookCall) (order : Order) : Prop :=
  ∃ i asked, calls i = .add order.id asked ∧ order.side = asked.side ∧ order.price = asked.price

/-- A phase is one of a call. -/
def Belongs (calls : ι → BookCall) (i : ι) : Phase → Prop
  | .called call => call = calls i
  | .listed order =>
    ∃ asked, calls i = .add order.id asked ∧ order.side = asked.side ∧ order.price = asked.price
  | .unlisted order orderId => calls i = .cancel orderId ∧ order.id = orderId ∧ Genuine calls order
  | .filling _ _ => ∃ taker, calls i = .matching taker
  | .returned _ => True
  | .panicked => True

/-- No two calls add an order of one id. -/
def Distinct (calls : ι → BookCall) : Prop :=
  ∀ i j id asked asked', calls i = .add id asked → calls j = .add id asked' → i = j

theorem Genuine.same {calls : ι → BookCall} {order order' : Order} (hdistinct : Distinct calls)
    (h : Genuine calls order) (h' : Genuine calls order') (hid : order.id = order'.id) :
    order.side = order'.side ∧ order.price = order'.price := by
  obtain ⟨i, asked, hcall, hside, hprice⟩ := h
  obtain ⟨j, asked', hcall', hside', hprice'⟩ := h'
  rw [hid] at hcall
  obtain rfl := hdistinct i j _ _ _ hcall hcall'
  obtain ⟨_, rfl⟩ := BookCall.add.inj (hcall.symm.trans hcall')
  exact ⟨hside.trans hside'.symm, hprice.trans hprice'.symm⟩

/-- An id is out of the book, and nobody is going to put it there. -/
structure Gone (m : Market ι) (id : H256) : Prop where
  awaited : ¬ m.At id .awaited
  listed : ¬ m.At id .listed
  resting : m.book.restingCount id = 0

/-- What is true of an id. -/
def Tracks (m : Market ι) (id : H256) : Prop :=
  Tracked (m.At id .awaited) (m.At id .listed) ((m.book.orderIndex.lookup id).isSome)
    (m.At id .unlisted) (m.At id .filled) (m.book.restingCount id)

/-- The invariant of the calls in time. -/
structure Sound (calls : ι → BookCall) (m : Market ι) : Prop where
  tracked (id : H256) : m.Tracks id
  placed : m.book.Placed
  orders : ∀ order ∈ m.book.orders, Genuine calls order
  indexed {id : H256} {order : Order} : m.book.orderIndex.lookup id = some order →
    order.id = id ∧ Genuine calls order
  belongs (i : ι) : Belongs calls i (m.phase i)
  cancelled {i : ι} {id : H256} : calls i = .cancel id →
    m.phase i = .returned (.cancelled (.ok ())) → Gone m id

/-- At the beginning every order is awaited. -/
theorem sound_opening (calls : ι → BookCall) : Sound calls (opening calls) where
  tracked id := {
    once := Nat.zero_le 1
    begun := fun h => absurd h (Nat.lt_irrefl 0)
    known := fun h => absurd h (Nat.lt_irrefl 0)
    of_indexed := fun h => (nomatch h)
    backed := fun h => (nomatch h)
    of_listed := fun ⟨_, h⟩ => h.elim
    of_unlisted := fun ⟨_, h⟩ => h.elim
    of_filled := fun ⟨_, h⟩ => h.elim }
  placed side := by cases side <;> exact fun _ h => (nomatch h)
  orders _ h := nomatch h
  indexed h := nomatch h
  belongs _ := rfl
  cancelled _ h := nomatch h

variable {calls : ι → BookCall} {m m' : Market ι} {i : ι}

/-- Who is about to add an id is alone in that. -/
theorem Sound.adds_alone (h : Sound calls m) (hdistinct : Distinct calls) {id : H256} {asked : Order}
    (hcall : calls i = .add id asked) {j : ι} (hj : j ≠ i) :
    ¬ (m.phase j).At id .awaited ∧ ¬ (m.phase j).At id .listed := by
  have hbelongs := h.belongs j
  have hother : ∀ asked', calls j ≠ .add id asked' := fun asked' hcall' =>
    hj (hdistinct j i _ _ _ hcall' hcall)
  cases hphase : m.phase j with
  | called call =>
    rw [hphase] at hbelongs
    refine ⟨fun hawaits => ?_, fun h => h⟩
    cases call with
    | add orderId asked' =>
      obtain rfl : orderId = id := hawaits
      exact hother asked' hbelongs.symm
    | _ => exact hawaits
  | listed order =>
    rw [hphase] at hbelongs
    refine ⟨fun h => h, fun hlists => ?_⟩
    obtain ⟨asked', hcall', _⟩ := hbelongs
    obtain rfl : order.id = id := hlists
    exact hother asked' hcall'
  | _ => exact ⟨fun h => h, fun h => h⟩

variable {orderId : H256} {order : Order}

/-- The orders of the id of a cancellation are where it looks for them. -/
theorem count_displace (h : Sound calls m) (hdistinct : Distinct calls)
    (hold : m.phase i = .unlisted order orderId) (id : H256) :
    (m.book.displace order orderId).restingCount id
      = if id = orderId then 0 else m.book.restingCount id := by
  have hbelongs := h.belongs i
  rw [hold] at hbelongs
  obtain ⟨_, hid, hgenuine⟩ := hbelongs
  refine restingCount_displace h.placed (fun order' hmem hid' => ?_) id
  exact (h.orders order' hmem).same hdistinct hgenuine (hid'.trans hid.symm)

/-! ## Steps -/

variable [DecidableEq ι]

/-- The next section of a call. -/
def step {D : Type} (env : DexEnv D) (m : Market ι) (i : ι) : Option (Market ι × Unit) :=
  (section? env m.book (m.phase i)).map fun next =>
    (⟨next.1, Function.update m.phase i next.2⟩, ())

/-- A step is a section of one of the calls. -/
theorem step_spec {D : Type} {env : DexEnv D} {o : Unit} (h : m.step env i = some (m', o)) :
    ∃ phase', Section m.book (m.phase i) m'.book phase' ∧
      m'.phase = Function.update m.phase i phase' := by
  unfold step at h
  cases hsection : section? env m.book (m.phase i) with
  | none =>
    rw [hsection] at h
    cases h
  | some next =>
    rw [hsection] at h
    cases h
    exact ⟨next.2, section_spec hsection, rfl⟩

section Change

variable {phase phase' : Phase} (hold : m.phase i = phase)
  (hnew : m'.phase = Function.update m.phase i phase') {id : H256} {stage : Stage}

include hnew

theorem at_of_at (h : m'.At id stage) :
    phase'.At id stage ∨ ∃ j, j ≠ i ∧ (m.phase j).At id stage := by
  obtain ⟨j, hj⟩ := h
  rw [hnew] at hj
  by_cases heq : j = i
  · rw [heq, Function.update_self] at hj
    exact Or.inl hj
  · rw [Function.update_of_ne heq] at hj
    exact Or.inr ⟨j, heq, hj⟩

theorem at_self (h : phase'.At id stage) : m'.At id stage :=
  ⟨i, by rwa [hnew, Function.update_self]⟩

include hold

theorem at_le (h : phase'.At id stage → phase.At id stage) (hat : m'.At id stage) :
    m.At id stage := by
  obtain hself | ⟨j, _, hj⟩ := at_of_at hnew hat
  · exact ⟨i, hold ▸ h hself⟩
  · exact ⟨j, hj⟩

/-- A phase that comes for another like it. -/
theorem at_iff (h : phase'.At id stage ↔ phase.At id stage) : m'.At id stage ↔ m.At id stage := by
  refine ⟨at_le hold hnew h.mp, fun ⟨j, hj⟩ => ?_⟩
  by_cases heq : j = i
  · rw [heq, hold] at hj
    exact at_self hnew (h.mpr hj)
  · exact ⟨j, by rwa [hnew, Function.update_of_ne heq]⟩

theorem at_iff_of_not (h' : ¬ phase'.At id stage) (h : ¬ phase.At id stage) :
    m'.At id stage ↔ m.At id stage :=
  at_iff hold hnew (iff_of_false h' h)

/-- The call of the step has nothing to do with the id. -/
theorem Tracks.untouched (h : m.Tracks id) (hphase' : ∀ stage, ¬ phase'.At id stage)
    (hphase : ∀ stage, ¬ phase.At id stage)
    (hlookup : m'.book.orderIndex.lookup id = m.book.orderIndex.lookup id)
    (hcount : m'.book.restingCount id = m.book.restingCount id) : m'.Tracks id := by
  have hat : ∀ stage, m'.At id stage ↔ m.At id stage := fun stage =>
    at_iff_of_not hold hnew (hphase' stage) (hphase stage)
  exact Tracked.congr h (hat _) (hat _) (by rw [hlookup]) (hat _) (hat _) hcount

end Change

/-! ### What a step does to one id -/

/-- `add_order` lists its order. -/
theorem tracked_list (h : Sound calls m) (hdistinct : Distinct calls) {asked order : Order}
    (hid : order.id = orderId) (hold : m.phase i = .called (.add orderId asked))
    (hbook : m'.book = m.book.list order)
    (hnew : m'.phase = Function.update m.phase i (.listed order)) (id : H256) : m'.Tracks id := by
  have hcall : calls i = .add orderId asked := by
    have hbelongs := h.belongs i
    rw [hold] at hbelongs
    exact hbelongs.symm
  by_cases heq : orderId = id
  · subst heq
    have hawaited : m.At orderId .awaited := ⟨i, by rw [hold]; rfl⟩
    -- No other call adds this id.
    have hnone : ¬ m'.At orderId .awaited := fun hat => by
      obtain hself | ⟨j, hj, hawaits⟩ := at_of_at hnew hat
      · exact hself
      · exact (h.adds_alone hdistinct hcall hj).1 hawaits
    refine ((h.tracked orderId).list hawaited).congr (iff_of_false hnone fun h => h)
      (iff_of_true (at_self hnew hid) trivial) (iff_of_true ?_ trivial)
      (at_iff_of_not hold hnew (fun h => h) fun h => h)
      (at_iff_of_not hold hnew (fun h => h) fun h => h) (hbook ▸ rfl)
    rw [hbook, OrderBook.list, hid, AList.lookup_insert]
    rfl
  · refine Tracks.untouched hold hnew (h.tracked id) (fun stage => ?_) (fun stage => ?_) ?_
      (hbook ▸ rfl)
    · cases stage <;> simp [Phase.At, hid, heq]
    · cases stage <;> simp [Phase.At, heq]
    · rw [hbook, OrderBook.list, hid, AList.lookup_insert_ne fun h => heq h.symm]

/-- Then it places it. -/
theorem tracked_place (h : Sound calls m) (hdistinct : Distinct calls) {answer : BookAnswer}
    (hold : m.phase i = .listed order) (hbook : m'.book = m.book.place order)
    (hnew : m'.phase = Function.update m.phase i (.returned answer)) (id : H256) :
    m'.Tracks id := by
  have hbelongs := h.belongs i
  rw [hold] at hbelongs
  obtain ⟨asked, hcall, _⟩ := hbelongs
  have hcount := hbook ▸ restingCount_place m.book order id
  have hlookup : m'.book.orderIndex = m.book.orderIndex := by
    rw [hbook, OrderBook.place, orderIndex_setLevels]
  by_cases heq : order.id = id
  · subst heq
    have hlisted : m.At order.id .listed := ⟨i, by rw [hold]; rfl⟩
    have hnone : ¬ m'.At order.id .listed := fun hat => by
      obtain hself | ⟨j, hj, hlists⟩ := at_of_at hnew hat
      · exact hself
      · exact (h.adds_alone hdistinct hcall hj).2 hlists
    rw [if_pos rfl] at hcount
    exact ((h.tracked order.id).place hlisted).congr
      (at_iff_of_not hold hnew (fun h => h) fun h => h) (iff_of_false hnone fun h => h)
      (by rw [hlookup]) (at_iff_of_not hold hnew (fun h => h) fun h => h)
      (at_iff_of_not hold hnew (fun h => h) fun h => h) hcount
  · rw [if_neg heq, Nat.add_zero] at hcount
    refine Tracks.untouched hold hnew (h.tracked id) (fun stage => ?_) (fun stage => ?_)
      (by rw [hlookup]) hcount
    · cases stage <;> exact fun h => h
    · cases stage <;> simp [Phase.At, heq]

/-- `cancel_order` takes the order out of the index. -/
theorem tracked_unlist (h : Sound calls m) (hfound : m.book.orderIndex.lookup orderId = some order)
    (hold : m.phase i = .called (.cancel orderId)) (hbook : m'.book = m.book.unlist orderId)
    (hnew : m'.phase = Function.update m.phase i (.unlisted order orderId)) (id : H256) :
    m'.Tracks id := by
  by_cases heq : orderId = id
  · subst heq
    have hindexed : (m.book.orderIndex.lookup orderId).isSome := by rw [hfound]; rfl
    refine ((h.tracked orderId).unlist hindexed).congr
      (at_iff_of_not hold hnew (fun h => h) fun h => h)
      (at_iff_of_not hold hnew (fun h => h) fun h => h) (iff_of_false ?_ fun h => h)
      (iff_of_true (at_self hnew rfl) trivial)
      (at_iff_of_not hold hnew (fun h => h) fun h => h) (hbook ▸ rfl)
    rw [hbook, OrderBook.unlist, AList.lookup_erase]
    exact Bool.false_ne_true
  · refine Tracks.untouched hold hnew (h.tracked id) (fun stage => ?_) (fun stage => ?_) ?_
      (hbook ▸ rfl)
    · cases stage <;> simp [Phase.At, heq]
    · cases stage <;> exact fun h => h
    · rw [hbook, OrderBook.unlist, AList.lookup_erase_ne fun h => heq h.symm]

/-- Then it takes it out of its queue, in time. -/
theorem tracked_displace (h : Sound calls m) (hdistinct : Distinct calls) (hok : InTime m i)
    {answer : BookAnswer} (hold : m.phase i = .unlisted order orderId)
    (hbook : m'.book = m.book.displace order orderId)
    (hnew : m'.phase = Function.update m.phase i (.returned answer)) (id : H256) :
    m'.Tracks id := by
  have hcount := count_displace h hdistinct hold id
  rw [← hbook] at hcount
  have hlookup : m'.book.orderIndex = m.book.orderIndex := by
    rw [hbook, OrderBook.displace, orderIndex_setLevels]
  by_cases heq : id = orderId
  · subst heq
    have hself : (m.phase i).At id .unlisted := by rw [hold]; rfl
    have hle : m'.At id .unlisted → m.At id .unlisted := at_le hold hnew fun h => h.elim
    rw [if_pos rfl] at hcount
    -- This is where the section must come in time.
    exact ((h.tracked id).displace ⟨i, hself⟩ (hok id hself) hle).congr
      (at_iff_of_not hold hnew (fun h => h) fun h => h)
      (at_iff_of_not hold hnew (fun h => h) fun h => h) (by rw [hlookup]) Iff.rfl
      (at_iff_of_not hold hnew (fun h => h) fun h => h) hcount
  · rw [if_neg heq] at hcount
    refine Tracks.untouched hold hnew (h.tracked id) (fun stage => ?_) (fun stage => ?_)
      (by rw [hlookup]) hcount
    · cases stage <;> exact fun h => h
    · cases stage <;> simp [Phase.At, Ne.symm heq]

/-- Matching takes the filled orders out of their queues. -/
theorem tracked_fill (h : Sound calls m) {taker : Order} (side : OrderSide)
    (hold : m.phase i = .called (.matching taker))
    (hbook : m'.book = m.book.setLevels side (m.book.fill side taker).left)
    (hnew : m'.phase = Function.update m.phase i
      (.filling (m.book.fill side taker).trades (m.book.fill side taker).filled)) (id : H256) :
    m'.Tracks id := by
  have hcount := restingCount_fill m.book side taker id
  rw [← hbook] at hcount
  have hlookup : m'.book.orderIndex = m.book.orderIndex := by rw [hbook, orderIndex_setLevels]
  by_cases hmem : id ∈ (m.book.fill side taker).filled
  · -- It rests only once, and the match has filled it.
    have hpos := List.count_pos_iff.mpr hmem
    have honce := (h.tracked id).once
    exact ((h.tracked id).fill (by omega)).congr
      (at_iff_of_not hold hnew (fun h => h) fun h => h)
      (at_iff_of_not hold hnew (fun h => h) fun h => h) (by rw [hlookup])
      (at_iff_of_not hold hnew (fun h => h) fun h => h)
      (iff_of_true (at_self hnew hmem) trivial) (by omega)
  · rw [List.count_eq_zero_of_not_mem hmem, Nat.add_zero] at hcount
    refine Tracks.untouched hold hnew (h.tracked id) (fun stage => ?_) (fun stage => ?_)
      (by rw [hlookup]) hcount
    · cases stage <;> simp [Phase.At, hmem]
    · cases stage <;> exact fun h => h

/-- Then it takes them out of the index, one by one. -/
theorem tracked_forget (h : Sound calls m) {trades : List Trade} {filled : List H256}
    (hold : m.phase i = .filling trades (orderId :: filled))
    (hbook : m'.book = m.book.unlist orderId)
    (hnew : m'.phase = Function.update m.phase i (.filling trades filled)) (id : H256) :
    m'.Tracks id := by
  have hother : ∀ stage, stage ≠ .filled → (m'.At id stage ↔ m.At id stage) := by
    intro stage hstage
    cases stage with
    | filled => exact absurd rfl hstage
    | _ => exact at_iff_of_not hold hnew (fun h => h) fun h => h
  by_cases heq : orderId = id
  · subst heq
    have hfilled : m.At orderId .filled := ⟨i, by rw [hold]; exact List.mem_cons_self⟩
    have hle : m'.At orderId .filled → m.At orderId .filled :=
      at_le hold hnew (List.mem_cons_of_mem _)
    refine ((h.tracked orderId).forget hfilled hle).congr (hother _ (by simp)) (hother _ (by simp))
      (iff_of_false ?_ fun h => h) (hother _ (by simp)) Iff.rfl (hbook ▸ rfl)
    rw [hbook, OrderBook.unlist, AList.lookup_erase]
    exact Bool.false_ne_true
  · have hfilled : m'.At id .filled ↔ m.At id .filled :=
      at_iff hold hnew (by simp [Phase.At, Ne.symm heq])
    refine Tracked.congr (h.tracked id) (hother _ (by simp)) (hother _ (by simp)) ?_
      (hother _ (by simp)) hfilled (hbook ▸ rfl)
    rw [hbook, OrderBook.unlist, AList.lookup_erase_ne fun h => heq h.symm]

theorem not_at_of_idle {phase : Phase} (h : phase.Idle) (id : H256) (stage : Stage) :
    ¬ phase.At id stage := by
  cases phase with
  | returned | panicked => cases stage <;> exact fun h => h
  | _ => exact h.elim

theorem tracked_close (h : Sound calls m) {phase' : Phase} (hsame : SameOrders m.book m'.book)
    (hidle : phase'.Idle) (hlisted : ∀ order, m.phase i ≠ .listed order)
    (hunlisted : ∀ order orderId, m.phase i ≠ .unlisted order orderId)
    (hfilling : ∀ trades orderId filled, m.phase i ≠ .filling trades (orderId :: filled))
    (hnew : m'.phase = Function.update m.phase i phase') (id : H256) : m'.Tracks id := by
  generalize hold : m.phase i = phase at hlisted hunlisted hfilling
  have hnone := not_at_of_idle hidle id
  have hcount : m'.book.restingCount id = m.book.restingCount id := by
    rw [restingCount, hsame.orders_eq, restingCount]
  have hother : ∀ stage, stage ≠ .awaited → (m'.At id stage ↔ m.At id stage) := by
    intro stage hstage
    refine at_iff_of_not hold hnew (hnone _) fun hat => ?_
    cases phase with
    | called call => cases stage <;> first | exact hstage rfl | exact hat
    | listed order => exact hlisted order rfl
    | unlisted order orderId => exact hunlisted order orderId rfl
    | filling trades filled =>
      cases filled with
      | nil => cases stage <;> cases hat
      | cons orderId filled => exact hfilling trades orderId filled rfl
    | returned | panicked =>
      refine not_at_of_idle ?_ id stage hat
      trivial
  have hle : m'.At id .awaited → m.At id .awaited :=
    at_le hold hnew fun h => absurd h (hnone .awaited)
  exact ((h.tracked id).idle hle).congr Iff.rfl (hother _ (by simp)) (by rw [hsame.orderIndex])
    (hother _ (by simp)) (hother _ (by simp)) hcount

/-- What is true of an id stays true with any section that comes in time. -/
theorem tracked_step (h : Sound calls m) (hdistinct : Distinct calls) (hok : InTime m i)
    {phase' : Phase} (hsection : Section m.book (m.phase i) m'.book phase')
    (hnew : m'.phase = Function.update m.phase i phase') (id : H256) : m'.Tracks id := by
  generalize hold : m.phase i = phase at hsection
  generalize hbook : m'.book = book' at hsection
  cases hsection with
  | list hid => exact tracked_list h hdistinct hid hold hbook hnew id
  | place => exact tracked_place h hdistinct hold hbook hnew id
  | unlist hfound => exact tracked_unlist h hfound hold hbook hnew id
  | displace => exact tracked_displace h hdistinct hok hold hbook hnew id
  | fill => exact tracked_fill h _ hold hbook hnew id
  | forget => exact tracked_forget h hold hbook hnew id
  | close hsame hidle _ _ hlisted hunlisted hfilling =>
    subst hold hbook
    exact tracked_close h hsame hidle hlisted hunlisted hfilling hnew id

/-! ### The invariant survives -/

/-- Nobody comes to be about to add an id. -/
theorem not_awaited {phase phase' : Phase} {book book' : OrderBook}
    (h : Section book phase book' phase') (id : H256) : ¬ phase'.At id .awaited := by
  cases h with
  | close _ hidle => exact not_at_of_idle hidle id _
  | _ => exact fun h => h

/-- An order that is gone does not come back. -/
theorem Gone.step {id : H256} (h : Gone m id) (hplaced : m.book.Placed) {phase' : Phase}
    (hsection : Section m.book (m.phase i) m'.book phase')
    (hnew : m'.phase = Function.update m.phase i phase') : Gone m' id where
  awaited hat := h.awaited (at_le rfl hnew (fun hself => absurd hself (not_awaited hsection id)) hat)
  listed hat := by
    refine h.listed (at_le rfl hnew (fun hself => ?_) hat)
    generalize hold : m.phase i = phase at hsection
    generalize m'.book = book' at hsection
    cases hsection with
    | list hid =>
      have horder := hid.symm.trans hself
      exact absurd ⟨i, by rw [hold]; exact horder⟩ h.awaited
    | close _ hidle => exact absurd hself (not_at_of_idle hidle id _)
    | _ => exact hself.elim
  resting := by
    refine restingCount_eq_zero.mpr (hsection.orders (P := fun order => order.id ≠ id) hplaced
      (fun _ _ => fun h => h) (restingCount_eq_zero.mp h.resting) fun order hold hid => ?_)
    exact h.listed ⟨i, by rw [hold]; exact hid⟩

omit [DecidableEq ι] in
/-- The phase after a section is one of the same call. -/
theorem belongs_step (h : Sound calls m) {phase' : Phase}
    (hsection : Section m.book (m.phase i) m'.book phase') : Belongs calls i phase' := by
  have hbelongs := h.belongs i
  generalize m.phase i = phase at hsection hbelongs
  generalize m'.book = book' at hsection
  cases hsection with
  | @list orderId asked order hid hside hprice =>
    exact ⟨asked, hid ▸ hbelongs.symm, hside, hprice⟩
  | unlist hfound =>
    obtain ⟨hid, hgenuine⟩ := h.indexed hfound
    exact ⟨hbelongs.symm, hid, hgenuine⟩
  | @fill taker => exact ⟨taker, hbelongs.symm⟩
  | forget => exact hbelongs
  | place | displace => trivial
  | close _ hidle =>
    cases phase' with
    | returned | panicked => trivial
    | _ => exact hidle.elim

/-- What a cancellation has taken out in time is gone. -/
theorem gone_of_cancelled (h : Sound calls m) (hdistinct : Distinct calls) (hok : InTime m i)
    {id : H256} (hcall : calls i = .cancel id)
    (hsection : Section m.book (m.phase i) m'.book (.returned (.cancelled (.ok ()))))
    (hnew : m'.phase = Function.update m.phase i (.returned (.cancelled (.ok ())))) : Gone m' id := by
  have hbelongs := h.belongs i
  generalize hold : m.phase i = phase at hsection hbelongs
  generalize hbook : m'.book = book' at hsection
  cases hsection with
  | @displace order orderId =>
    obtain rfl : orderId = id := BookCall.cancel.inj (hbelongs.1.symm.trans hcall)
    have hself : (m.phase i).At orderId .unlisted := by rw [hold]; rfl
    have hcount := count_displace h hdistinct hold orderId
    rw [if_pos rfl, ← hbook] at hcount
    refine ⟨fun hat => ?_, fun hat => ?_, hcount⟩
    · exact ((h.tracked orderId).of_unlisted ⟨i, hself⟩).1 (at_le hold hnew (fun h => h.elim) hat)
    · exact hok orderId hself (at_le hold hnew (fun h => h.elim) hat)
  | close _ _ hne => exact absurd rfl hne

/-- A section in time keeps the invariant. -/
theorem Sound.step {D : Type} {env : DexEnv D} {o : Unit} (h : Sound calls m)
    (hdistinct : Distinct calls) (hok : InTime m i) (hstep : m.step env i = some (m', o)) :
    Sound calls m' := by
  obtain ⟨phase', hsection, hnew⟩ := step_spec hstep
  have hplaced := hsection.placed h.placed
  have hbelongs := belongs_step h hsection
  refine ⟨tracked_step h hdistinct hok hsection hnew, hplaced, ?_, fun {id order} hlookup => ?_,
    fun j => ?_, fun {j id} hcall hphase => ?_⟩
  · refine hsection.orders h.placed (fun _ _ => id) h.orders fun order hold => ?_
    have hlisted := h.belongs i
    rw [hold] at hlisted
    exact ⟨i, hlisted⟩
  · obtain hlookup | ⟨hid, rfl⟩ := hsection.lookup hlookup
    · exact h.indexed hlookup
    · exact ⟨hid, i, hbelongs⟩
  · rw [hnew]
    by_cases heq : j = i
    · rw [heq, Function.update_self]
      exact hbelongs
    · rw [Function.update_of_ne heq]
      exact h.belongs j
  · by_cases heq : j = i
    · subst heq
      rw [hnew, Function.update_self] at hphase
      subst hphase
      exact gone_of_cancelled h hdistinct hok hcall hsection hnew
    · rw [hnew, Function.update_of_ne heq] at hphase
      exact (h.cancelled hcall hphase).step h.placed hsection hnew

/-- The invariant holds after every run in time. -/
theorem Sound.run {D : Type} {env : DexEnv D} (hdistinct : Distinct calls) {is : List ι}
    (h : Sound calls m) (hrun : Run (Market.step env) InTime m is m') : Sound calls m' :=
  hrun.invariant (fun _ _ _ _ _ hok hstep h => h.step hdistinct hok hstep) h

/-- A match does not trade what is gone before it begins. -/
theorem Gone.run {D : Type} {env : DexEnv D} (hdistinct : Distinct calls) {is : List ι} {id : H256}
    {j : ι} (h : Sound calls m) (hgone : Gone m id)
    (htrades : ∀ trade ∈ (m.phase j).trades, trade.makerOrderId ≠ id)
    (hrun : Run (Market.step env) InTime m is m') :
    ∀ trade ∈ (m'.phase j).trades, trade.makerOrderId ≠ id := by
  refine (hrun.invariant (I := fun m => Sound calls m ∧ Gone m id ∧
    ∀ trade ∈ (m.phase j).trades, trade.makerOrderId ≠ id) ?_ ⟨h, hgone, htrades⟩).2.2
  rintro m i m' o _ hok hstep ⟨h, hgone, htrades⟩
  obtain ⟨phase', hsection, hnew⟩ := step_spec hstep
  refine ⟨h.step hdistinct hok hstep, hgone.step h.placed hsection hnew, fun trade htrade hid => ?_⟩
  rw [hnew] at htrade
  by_cases heq : j = i
  · rw [heq, Function.update_self] at htrade
    obtain hbefore | hpos := hsection.trades htrade
    · exact htrades trade (heq ▸ hbefore) hid
    · -- a new trade is with what rests
      rw [hid, hgone.resting] at hpos
      exact Nat.lt_irrefl 0 hpos
  · rw [Function.update_of_ne heq] at htrade
    exact htrades trade htrade hid

/-- In every run in which no cancellation comes to the book while its order is between the index and
the book: once a cancellation has returned, no match that begins later trades the order; and
when all calls have returned, an id is in the index exactly if one order of it is in the book. -/
theorem cancelled_is_gone {D : Type} (env : DexEnv D) (calls : ι → BookCall)
    (hdistinct : Distinct calls) (is : List ι) (m : Market ι)
    (hrun : Run (step env) InTime (opening calls) is m) :
    (∀ i id, calls i = .cancel id → m.phase i = .returned (.cancelled (.ok ())) →
      ∀ j taker, m.phase j = .called (.matching taker) →
        ∀ js m', Run (step env) InTime m js m' →
          ∀ trade ∈ (m'.phase j).trades, trade.makerOrderId ≠ id) ∧
    ((∀ i, (m.phase i).Idle) →
      ∀ id, (m.book.orderIndex.lookup id).isSome ↔ m.book.restingCount id = 1) := by
  have h : Sound calls m := (sound_opening calls).run hdistinct hrun
  refine ⟨fun i id hcall hphase j taker hmatch js m' hlater => ?_, fun hidle id => ?_⟩
  · refine (h.cancelled hcall hphase).run hdistinct h ?_ hlater
    rw [hmatch]
    exact fun _ h => (nomatch h)
  · have hnone : ∀ stage, ¬ m.At id stage := fun stage ⟨i, hat⟩ =>
      not_at_of_idle (hidle i) id stage hat
    have htracked := h.tracked id
    constructor
    · intro hindexed
      -- Nobody is about to do anything to it, so that it must rest in the book.
      obtain hpos | hlisted | hfilled := htracked.backed hindexed
      · exact Nat.le_antisymm htracked.once hpos
      · exact absurd hlisted (hnone _)
      · exact absurd hfilled (hnone _)
    · intro hone
      exact (htracked.known (hone ▸ Nat.one_pos)).resolve_right (hnone _)

theorem sampleCalls_distinct : Distinct sampleCalls := by
  have hzero : ∀ i id asked, sampleCalls i = .add id asked → i = 0 := by
    intro i id asked h
    match i, h with
    | 0, _ => rfl
    | 1, h => cases h
    | 2, h => cases h
  exact fun i j _ _ _ h h' => (hzero i _ _ h).trans (hzero j _ _ h').symm

/-- The order is added, and then it is cancelled. -/
theorem cancelled_is_gone_sample :
    ∃ m, Run (step AmmPool.sampleDexEnv) InTime (opening sampleCalls) [0, 0, 1, 1] m ∧
      ∀ js m', Run (step AmmPool.sampleDexEnv) InTime m js m' →
        ∀ trade ∈ (m'.phase 2).trades, trade.makerOrderId ≠ AmmPool.sampleToken 1 := by
  have hrun : ∃ m, Run (step AmmPool.sampleDexEnv) InTime (opening sampleCalls) [0, 0, 1, 1] m ∧
      m.phase 1 = .returned (.cancelled (.ok ())) ∧ m.phase 2 = .called (sampleCalls 2) := by
    refine ⟨_, .cons (fun _ h => h.elim) rfl (.cons (fun _ h => h.elim) rfl
      (.cons (fun _ h => h.elim) rfl (.cons (fun _ _ => ?_) rfl .nil))), rfl, rfl⟩
    rintro ⟨j, hj⟩
    match j with
    | 0 | 1 | 2 => exact hj
  obtain ⟨m, hrun, hcancel, hmatch⟩ := hrun
  exact ⟨m, hrun, (cancelled_is_gone AmmPool.sampleDexEnv sampleCalls sampleCalls_distinct _ m
    hrun).1 1 _ rfl hcancel 2 _ hmatch⟩

/-- The cancellation comes between the two sections of `add_order`, and the match after both. -/
theorem cancelled_order_trades :
    ∃ m m', Run (step AmmPool.sampleDexEnv) (fun _ _ => True) (opening sampleCalls) [0, 1, 1, 0] m ∧
      m.phase 1 = .returned (.cancelled (.ok ())) ∧ m.phase 2 = .called (sampleCalls 2) ∧
      Run (step AmmPool.sampleDexEnv) (fun _ _ => True) m [2] m' ∧
      ∃ trade ∈ (m'.phase 2).trades, trade.makerOrderId = AmmPool.sampleToken 1 :=
  ⟨_, _, run_of_replay rfl, rfl, rfl, run_of_replay rfl, _, List.mem_cons_self, rfl⟩

end Market

end InterBit.Dex
