import InterBit.Lib.Run
import InterBit.Storage.LayeredReads

/-!
# A `get` and a write in parallel

`get` promotes a value to L1 some time after it has read it from RocksDB, and `put` and
`batch_put` write L1 before anything else. Each access is one step, of the `get` or of
the write.

A promotion that comes after the write has cached its value puts the old one over it
(`stalePromotion`). `get_after_race` says that nothing else goes wrong, as long as the
value fits into L1.
-/

namespace InterBit.Storage

open InterBit.Lib

/-- A `put` or a `batch_put`. -/
inductive StorageWrite where
  | put (key : String) (value : List UInt8)
  | batchPut (items : List (String × List UInt8))

/-- What is written. -/
def StorageWrite.items : StorageWrite → List (String × List UInt8)
  | .put key value => [(key, value)]
  | .batchPut items => items

/-- The value that the last of the items has at a key. -/
def lastValue : List (String × List UInt8) → String → Option (List UInt8)
  | [], _ => none
  | item :: items, key => (lastValue items key).or (if item.1 = key then some item.2 else none)

/-- Where the `get` is. -/
inductive GetPhase where
  | start
  /-- The bloom filter may contain the key. -/
  | listed
  /-- The prefetch cache has nothing. -/
  | unfetched
  /-- L1 has nothing. -/
  | missed
  /-- RocksDB has a value, which is to be promoted. -/
  | loaded (value : List UInt8)
  | returned (result : Option (List UInt8))

/-- Where the write is. -/
inductive WritePhase where
  /-- About to tell the bloom filter of the first item; without items, about to append to
  the pending batch, or to write RocksDB. -/
  | adding (items : List (String × List UInt8))
  /-- About to put the item into L1. -/
  | caching (key : String) (value : List UInt8) (items : List (String × List UInt8))
  /-- The pending batch is full, and about to go to RocksDB. -/
  | flushing
  | returned

/-- The items that are yet to be put into L1. -/
def WritePhase.rest : WritePhase → List (String × List UInt8)
  | .adding items => items
  | .caching key value items => (key, value) :: items
  | _ => []

/-- A storage, a `get` and a write. -/
structure RaceSys where
  storage : OptimizedStateStorage
  getter : GetPhase
  writer : WritePhase

/-- Who makes the next step. -/
inductive RaceAction where
  | get
  | write

namespace RaceSys

/-- Before both. -/
def init (storage : OptimizedStateStorage) (w : StorageWrite) : RaceSys :=
  { storage, getter := .start, writer := .adding w.items }

variable (hash : KeyHash) (key : String) (w : StorageWrite)

/-- One step of the `get` of `key`. -/
def getStep (s : RaceSys) : Option RaceSys :=
  match s.getter with
  | .start =>
    if s.storage.bloomFilter.mightContain hash key then some { s with getter := .listed }
    else some { s with getter := .returned none }
  | .listed =>
    match s.storage.prefetchCache.lookup key with
    | some value => some { s with getter := .returned (some value) }
    | none => some { s with getter := .unfetched }
  | .unfetched =>
    match s.storage.memoryCache.get key with
    | (cache, some value) =>
      some { s with storage.memoryCache := cache, getter := .returned (some value) }
    | (_, none) => some { s with getter := .missed }
  | .missed =>
    match s.storage.db key with
    | some value => some { s with getter := .loaded value }
    | none => some { s with getter := .returned none }
  | .loaded value =>
    some { s with
      storage.memoryCache := s.storage.memoryCache.put key value
      getter := .returned (some value) }
  | .returned _ => none

/-- One step of the write. -/
def writeStep (s : RaceSys) : Option RaceSys :=
  match s.writer with
  | .adding ((k, value) :: items) =>
    some { s with
      storage.bloomFilter := s.storage.bloomFilter.add hash k
      writer := .caching k value items }
  | .caching k value items =>
    some { s with
      storage.memoryCache := s.storage.memoryCache.put k value
      writer := .adding items }
  | .adding [] =>
    match w with
    | .put k value =>
      some { s with
        storage.writeBatch := s.storage.writeBatch ++ [(k, some value)]
        storage.batchCounter := s.storage.batchCounter + 1
        writer := if s.storage.batchCounter + 1 ≥ batchWriteSize then .flushing else .returned }
    | .batchPut items =>
      some { s with
        storage.db := s.storage.db.write (items.map fun item => (item.1, some item.2))
        writer := .returned }
  | .flushing => some { s with storage := s.storage.writePending, writer := .returned }
  | .returned => none

/-- One step. -/
def step (s : RaceSys) : RaceAction → Option (RaceSys × Unit)
  | .get => (s.getStep hash key).map (·, ())
  | .write => (s.writeStep hash w).map (·, ())

/-- The conditions on a step, where `value` is the new value of `key`. A promotion brings
the new value or one that is too large, or the write is yet to put it into L1. When the
write does so for the last time, it fits, or the write is a `batch_put` and L1 has nothing
for the key. -/
def Undisturbed (value : List UInt8) (s : RaceSys) : RaceAction → Prop
  | .get => ∀ x, s.getter = .loaded x →
      x = value ∨ s.storage.memoryCache.maxSize < x.length ∨ lastValue s.writer.rest key ≠ none
  | .write => ∀ x items, s.writer = .caching key x items → lastValue items key = none →
      x.length ≤ s.storage.memoryCache.maxSize ∨
        (∃ items, w = .batchPut items) ∧ s.storage.memoryCache.data.lookup key = none

variable {hash key w}

/-- What a step of the `get` does. -/
inductive GetMoves (hash : KeyHash) (key : String) (s : RaceSys) : RaceSys → Prop
  | move {phase : GetPhase} : (∀ x, phase = .loaded x → s.storage.db key = some x) →
      GetMoves hash key s { s with getter := phase }
  | hit {cache : MemoryCache} {phase : GetPhase} :
      cache.data = s.storage.memoryCache.data →
      cache.maxSize = s.storage.memoryCache.maxSize → (∀ x, phase ≠ .loaded x) →
      GetMoves hash key s { s with storage.memoryCache := cache, getter := phase }
  | promote {x : List UInt8} : s.getter = .loaded x →
      GetMoves hash key s { s with
        storage.memoryCache := s.storage.memoryCache.put key x
        getter := .returned (some x) }

variable {s s' : RaceSys} {value : List UInt8}

theorem getMoves_of_getStep (h : s.getStep hash key = some s') : GetMoves hash key s s' := by
  unfold getStep at h
  split at h
  next =>
    split at h <;> cases h
    · exact .move fun _ heq => nomatch heq
    · exact .move fun _ heq => nomatch heq
  next =>
    split at h <;> cases h
    · exact .move fun _ heq => nomatch heq
    · exact .move fun _ heq => nomatch heq
  next =>
    have hdata := s.storage.memoryCache.data_get key
    have hmax := s.storage.memoryCache.maxSize_get key
    split at h <;> cases h
    next heq =>
      rw [heq] at hdata hmax
      exact .hit hdata hmax fun _ heq => nomatch heq
    next => exact .move fun _ heq => nomatch heq
  next =>
    split at h <;> cases h
    next hload => exact .move fun _ heq => GetPhase.loaded.inj heq ▸ hload
    next => exact .move fun _ heq => nomatch heq
  next hloaded =>
    cases h
    exact .promote hloaded
  next => cases h

/-- What a step of the write does. -/
inductive WriteMoves (hash : KeyHash) (w : StorageWrite) (s : RaceSys) : RaceSys → Prop
  | add {k : String} {value : List UInt8} {items : List (String × List UInt8)} :
      s.writer = .adding ((k, value) :: items) →
      WriteMoves hash w s { s with
        storage.bloomFilter := s.storage.bloomFilter.add hash k
        writer := .caching k value items }
  | cache {k : String} {value : List UInt8} {items : List (String × List UInt8)} :
      s.writer = .caching k value items →
      WriteMoves hash w s { s with
        storage.memoryCache := s.storage.memoryCache.put k value
        writer := .adding items }
  | append {k : String} {value : List UInt8} {phase : WritePhase} : s.writer = .adding [] →
      w = .put k value → phase = .flushing ∨ phase = .returned →
      WriteMoves hash w s { s with
        storage.writeBatch := s.storage.writeBatch ++ [(k, some value)]
        storage.batchCounter := s.storage.batchCounter + 1
        writer := phase }
  | store {items : List (String × List UInt8)} : s.writer = .adding [] → w = .batchPut items →
      WriteMoves hash w s { s with
        storage.db := s.storage.db.write (items.map fun item => (item.1, some item.2))
        writer := .returned }
  | flush : s.writer = .flushing →
      WriteMoves hash w s { s with storage := s.storage.writePending, writer := .returned }

theorem writeMoves_of_writeStep (h : s.writeStep hash w = some s') : WriteMoves hash w s s' := by
  unfold writeStep at h
  split at h
  next hphase =>
    cases h
    exact .add hphase
  next hphase =>
    cases h
    exact .cache hphase
  next hphase =>
    split at h <;> cases h
    · refine .append hphase rfl ?_
      split
      next => exact .inl rfl
      next => exact .inr rfl
    · exact .store hphase rfl
  next hphase =>
    cases h
    exact .flush hphase
  next => cases h

/-! ## The bloom filter -/

/-- The items that the bloom filter is yet to be told. -/
def toAdd : WritePhase → List (String × List UInt8)
  | .adding items => items
  | .caching _ _ items => items
  | _ => []

/-- Once the write has told the bloom filter of the key, it knows the key. -/
def Added (hash : KeyHash) (key : String) (s : RaceSys) : Prop :=
  lastValue (toAdd s.writer) key = none → s.storage.bloomFilter.mightContain hash key = true

theorem Added.step {s s' : RaceSys} {a : RaceAction} {o : Unit} (h : s.Added hash key)
    (he : s.step hash key w a = some (s', o)) : s'.Added hash key := by
  cases a with
  | get =>
    obtain ⟨t, hget, heq⟩ := Option.map_eq_some_iff.mp he
    obtain ⟨rfl, -⟩ := Prod.mk.inj heq
    cases getMoves_of_getStep hget with
    | move _ => exact h
    | hit _ _ _ => exact h
    | promote _ => exact h
  | write =>
    obtain ⟨t, hwrite, heq⟩ := Option.map_eq_some_iff.mp he
    obtain ⟨rfl, -⟩ := Prod.mk.inj heq
    cases writeMoves_of_writeStep hwrite with
    | add hphase =>
      rename_i k x items
      intro hadd
      -- An item for another key adds a bit more and leaves the key as it is.
      by_cases hk : k = key
      · subst hk
        exact BloomFilter.mightContain_add_self
      · refine BloomFilter.mightContain_add (h ?_)
        rw [hphase]
        show (lastValue items key).or (if k = key then some x else none) = none
        rw [if_neg hk, Option.or_none]
        exact hadd
    | cache hphase =>
      refine fun hadd => h ?_
      rw [hphase]
      exact hadd
    | append hphase _ _ => exact fun _ => h (by rw [hphase]; rfl)
    | store hphase _ => exact fun _ => h (by rw [hphase]; rfl)
    | flush hphase => exact fun _ => h (by rw [hphase]; rfl)

/-! ## The new value stays -/

/-- The write still has the new value to put into L1; or L1 has it; or the write is a
`batch_put`, L1 has nothing for the key, and in the end RocksDB has the value. -/
structure Holds (key : String) (w : StorageWrite) (value : List UInt8) (s : RaceSys) : Prop where
  prefetched : s.storage.prefetchCache.lookup key = none ∨
    s.storage.prefetchCache.lookup key = some value
  coming : ∀ x, lastValue s.writer.rest key = some x → x = value
  settled : lastValue s.writer.rest key = none →
    s.storage.memoryCache.data.lookup key = some value ∨
      (∃ items, w = .batchPut items) ∧ s.storage.memoryCache.data.lookup key = none
  stored : s.writer = .returned → (∃ items, w = .batchPut items) → s.storage.db key = some value
  single : (∃ items, w = .batchPut items) ∨ ∀ item ∈ s.writer.rest, item.1 = key
  flushing : s.writer = .flushing → ¬ ∃ items, w = .batchPut items

theorem Holds.get (h : s.Holds key w value) (hok : s.Undisturbed key w value .get)
    (he : s.getStep hash key = some s') :
    s'.Holds key w value := by
  cases getMoves_of_getStep he with
  | move _ =>
    exact ⟨h.prefetched, h.coming, h.settled, h.stored, h.single, h.flushing⟩
  | hit hdata _ _ =>
    refine ⟨h.prefetched, h.coming, fun hrest => ?_, h.stored, h.single, h.flushing⟩
    dsimp only
    rw [hdata]
    exact h.settled hrest
  | promote hloaded =>
    rename_i x
    refine ⟨h.prefetched, h.coming, fun hrest => ?_, h.stored, h.single, h.flushing⟩
    dsimp only
    by_cases hsize : s.storage.memoryCache.maxSize < x.length
    · rw [MemoryCache.put_of_lt hsize]
      exact h.settled hrest
    · have hx : x = value := by
        rcases hok x hloaded with hx | hlarge | hcoming
        · exact hx
        · exact absurd hlarge hsize
        · exact absurd hrest hcoming
      rw [MemoryCache.lookup_put_self (Nat.le_of_not_lt hsize), hx]
      exact .inl rfl

theorem lastOp_items (items : List (String × List UInt8)) (key : String) :
    lastOp (items.map fun item => (item.1, some item.2)) key = (lastValue items key).map some := by
  induction items with
  | nil => rfl
  | cons item items ih =>
    rw [List.map_cons, lastOp, lastValue, ih]
    cases lastValue items key with
    | some value => rfl
    | none =>
      dsimp only
      split
      next => rfl
      next => rfl

theorem Holds.write (h : s.Holds key w value) (hlast : lastValue w.items key = some value)
    (hok : s.Undisturbed key w value .write) (he : s.writeStep hash w = some s') :
    s'.Holds key w value := by
  cases writeMoves_of_writeStep he with
  | add hphase =>
    rename_i k x items
    have hrest : s.writer.rest = (k, x) :: items := by rw [hphase]; rfl
    have hcoming := h.coming
    have hsettled := h.settled
    have hsingle := h.single
    rw [hrest] at hcoming hsettled hsingle
    exact ⟨h.prefetched, hcoming, hsettled, fun hnot => (nomatch hnot), hsingle,
      fun hnot => (nomatch hnot)⟩
  | cache hphase =>
    rename_i k x items
    have hrest : s.writer.rest = (k, x) :: items := by rw [hphase]; rfl
    have hsingle := hrest ▸ h.single
    have hcons : lastValue s.writer.rest key
        = (lastValue items key).or (if k = key then some x else none) := by rw [hrest, lastValue]
    refine ⟨h.prefetched, fun y hy => h.coming y ?_, fun hnone => ?_, fun hnot => (nomatch hnot),
      hsingle.imp id fun hall => (List.forall_mem_cons.mp hall).2, fun hnot => (nomatch hnot)⟩
    · rw [hcons, show lastValue items key = some y from hy]
      rfl
    · have hitems : lastValue items key = none := hnone
      rw [hitems, Option.none_or] at hcons
      dsimp only
      by_cases hk : k = key
      · subst hk
        -- The new value itself.
        rw [if_pos rfl] at hcons
        obtain rfl := h.coming x hcons
        by_cases hsize : x.length ≤ s.storage.memoryCache.maxSize
        · exact .inl (MemoryCache.lookup_put_self hsize)
        · rw [MemoryCache.put_of_lt (Nat.lt_of_not_le hsize)]
          exact .inr ((hok x items hphase hitems).resolve_left hsize)
      · -- An item after it, which may evict it.
        rw [if_neg hk] at hcons
        have hbatch := hsingle.resolve_right fun hall => hk (hall (k, x) (List.mem_cons_self ..))
        rcases MemoryCache.lookup_put_of_ne x (Ne.symm hk) with hsame | hgone
        · rw [hsame]
          exact h.settled hcons
        · exact .inr ⟨hbatch, hgone⟩
  | append hphase hw hnext =>
    rename_i k x phase
    have hrest : phase.rest = [] := by rcases hnext with rfl | rfl <;> rfl
    have hnot : ¬ ∃ items, w = .batchPut items := by
      rintro ⟨items, hbatch⟩
      rw [hw] at hbatch
      cases hbatch
    have hnone : lastValue s.writer.rest key = none := by rw [hphase]; rfl
    refine ⟨h.prefetched, fun y hy => ?_, fun _ => h.settled hnone,
      fun _ hbatch => absurd hbatch hnot, .inr fun item hitem => ?_, fun _ => hnot⟩
    · dsimp only at hy
      rw [hrest] at hy
      cases hy
    · dsimp only at hitem
      rw [hrest] at hitem
      cases hitem
  | store hphase hw =>
    rename_i items
    have hnone : lastValue s.writer.rest key = none := by rw [hphase]; rfl
    refine ⟨h.prefetched, fun _ hy => (nomatch hy), fun _ => h.settled hnone, fun _ _ => ?_,
      .inl ⟨items, hw⟩, fun hnot => (nomatch hnot)⟩
    rw [hw] at hlast
    dsimp only
    rw [RocksDb.write_apply, lastOp_items, show lastValue items key = some value from hlast]
    rfl
  | flush hphase =>
    have hnone : lastValue s.writer.rest key = none := by rw [hphase]; rfl
    exact ⟨h.prefetched, fun _ hy => (nomatch hy), fun _ => h.settled hnone,
      fun _ hbatch => absurd hbatch (h.flushing hphase), .inr fun _ hitem => (nomatch hitem),
      fun hnot => (nomatch hnot)⟩

/-- Where the write has put the new value, a `get` finds it. -/
theorem Holds.get_snd {s : RaceSys} (h : s.Holds key w value) (hadded : s.Added hash key)
    (hwriter : s.writer = .returned) :
    (s.storage.get hash key).2 = some value := by
  have hnone : lastValue s.writer.rest key = none := by rw [hwriter]; rfl
  have hlisted := hadded (by rw [hwriter]; rfl)
  rw [OptimizedStateStorage.get_snd, if_pos hlisted, OptimizedStateStorage.below]
  rcases h.prefetched with hfetch | hfetch
  · rw [hfetch, Option.none_or]
    rcases h.settled hnone with hcached | ⟨hbatch, hcached⟩
    · rw [hcached, Option.some_or]
    · rw [hcached, Option.none_or, h.stored hwriter hbatch]
  · rw [hfetch, Option.some_or]

section Runs

variable {value : List UInt8} {storage : OptimizedStateStorage} {as : List RaceAction}
  {s s' : RaceSys}

theorem holds_init
    (hfetch : storage.prefetchCache.lookup key = none ∨
      storage.prefetchCache.lookup key = some value)
    (hlast : lastValue w.items key = some value) : (init storage w).Holds key w value := by
  refine ⟨hfetch, fun x hx => Option.some.inj (hx.symm.trans hlast), fun hnone => ?_,
    fun hnot => (nomatch hnot), ?_, fun hnot => (nomatch hnot)⟩
  · exact absurd (hnone.symm.trans hlast) (Option.some_ne_none _).symm
  · cases w with
    | put k x =>
      refine .inr fun item hitem => ?_
      rw [List.mem_singleton.mp hitem]
      by_contra hk
      rw [StorageWrite.items, lastValue, lastValue, if_neg hk] at hlast
      cases hlast
    | batchPut items => exact .inl ⟨items, rfl⟩

theorem added_of_run {ok : RaceSys → RaceAction → Prop}
    (hlast : lastValue w.items key = some value)
    (hrun : Run (step hash key w) ok (init storage w) as s) : s.Added hash key :=
  hrun.invariant (I := Added hash key) (fun _ _ _ _ _ _ he h => h.step he)
    fun hnone => absurd (hnone.symm.trans hlast) (Option.some_ne_none _).symm

theorem holds_of_run
    (hfetch : storage.prefetchCache.lookup key = none ∨
      storage.prefetchCache.lookup key = some value)
    (hlast : lastValue w.items key = some value)
    (hrun : Run (step hash key w) (Undisturbed key w value) (init storage w) as s) :
    s.Holds key w value := by
  refine hrun.invariant (I := Holds key w value) (fun s a s' o _ hok he h => ?_)
    (holds_init hfetch hlast)
  cases a with
  | get =>
    obtain ⟨t, hget, heq⟩ := Option.map_eq_some_iff.mp he
    obtain ⟨rfl, -⟩ := Prod.mk.inj heq
    exact h.get hok hget
  | write =>
    obtain ⟨t, hwrite, heq⟩ := Option.map_eq_some_iff.mp he
    obtain ⟨rfl, -⟩ := Prod.mk.inj heq
    exact h.write hlast hok hwrite

/-- What is promoted after the write is what is read then. -/
theorem get_after_promotion (hlast : lastValue w.items key = some value)
    (hrun : Run (step hash key w) (fun _ _ => True) (init storage w) as s)
    (hwriter : s.writer = .returned) {x : List UInt8} (hloaded : s.getter = .loaded x)
    (hsize : x.length ≤ s.storage.memoryCache.maxSize)
    (hfetch : s.storage.prefetchCache.lookup key = none)
    (he : s.step hash key w .get = some (s', ())) : (s'.storage.get hash key).2 = some x := by
  have hlisted := added_of_run hlast hrun (by rw [hwriter]; rfl)
  have hstep : s.step hash key w .get = some ({ s with
      storage.memoryCache := s.storage.memoryCache.put key x
      getter := .returned (some x) }, ()) := by
    rw [step, getStep, hloaded]
    rfl
  obtain ⟨rfl, -⟩ := Prod.mk.inj (Option.some.inj (he.symm.trans hstep))
  rw [OptimizedStateStorage.get_snd, if_pos hlisted, hfetch, Option.none_or,
    OptimizedStateStorage.below, MemoryCache.lookup_put_self hsize, Option.some_or]

end Runs

/-- A `get` and a write of the same key run in parallel. If no step is disturbed, and the
prefetch cache has nothing else for the key, a later `get` returns the new value. A value
that is promoted after the write has returned is what a later `get` returns, be it the
new one or not. -/
theorem get_after_race (hash : KeyHash) (key : String) (w : StorageWrite) (value : List UInt8)
    (storage : OptimizedStateStorage) (hlast : lastValue w.items key = some value) :
    (∀ as s, (storage.prefetchCache.lookup key = none ∨
        storage.prefetchCache.lookup key = some value) →
      Run (step hash key w) (Undisturbed key w value) (init storage w) as s →
      s.writer = .returned → (s.storage.get hash key).2 = some value) ∧
    ∀ as s s' x, Run (step hash key w) (fun _ _ => True) (init storage w) as s →
      s.writer = .returned → s.getter = .loaded x → x.length ≤ s.storage.memoryCache.maxSize →
      s.storage.prefetchCache.lookup key = none → s.step hash key w .get = some (s', ()) →
      (s'.storage.get hash key).2 = some x :=
  ⟨fun _ _ hfetch hrun hwriter =>
    (holds_of_run hfetch hlast hrun).get_snd (added_of_run hlast hrun) hwriter,
    fun _ _ _ _ hrun hwriter hloaded hsize hfetch he =>
      get_after_promotion hlast hrun hwriter hloaded hsize hfetch he⟩

/-- RocksDB has a value that has gone cold in L1. -/
def coldStorage : OptimizedStateStorage :=
  ((LayeredSys.new fun _ => none).run (fun _ _ => 0)
    [.put "key" [1], .flushBatch, .compact fun _ => true]).storage

/-- The old value is promoted before the write. -/
theorem get_after_race_early :
    ∃ s, Run (step (fun _ _ => 0) "key" (.put "key" [2])) (fun _ _ => True)
        (init coldStorage (.put "key" [2]))
        [.get, .get, .get, .get, .get, .write, .write, .write] s ∧
      s.getter = .returned (some [1]) ∧
      (s.storage.get (fun _ _ => 0) "key").2 = some [2] := by
  have hrun : ∃ s, Run (step (fun _ _ => 0) "key" (.put "key" [2]))
      (Undisturbed "key" (.put "key" [2]) [2]) (init coldStorage (.put "key" [2]))
      [.get, .get, .get, .get, .get, .write, .write, .write] s ∧
      s.getter = .returned (some [1]) ∧ s.writer = .returned :=
    ⟨_, .cons (fun _ h => nomatch h) rfl (.cons (fun _ h => nomatch h) rfl
      (.cons (fun _ h => nomatch h) rfl (.cons (fun _ h => nomatch h) rfl
      (.cons (fun _ _ => .inr (.inr (by decide))) rfl (.cons (fun _ _ h => nomatch h) rfl
      (.cons (fun _ _ h _ => .inl (by cases h; decide)) rfl
      (.cons (fun _ _ h => nomatch h) rfl .nil))))))), rfl, rfl⟩
  obtain ⟨s, hrun, hgetter, hwriter⟩ := hrun
  exact ⟨s, hrun.mono fun _ _ _ => trivial, hgetter,
    (get_after_race (fun _ _ => 0) "key" (.put "key" [2]) [2] coldStorage rfl).1 _ s
      (.inl rfl) hrun hwriter⟩

/-- The old value is promoted after the write. -/
def stalePromotion : List RaceAction :=
  [.get, .get, .get, .get, .write, .write, .write, .get]

/-- Both have returned, and a later `get` returns the old value. -/
theorem stalePromotion_get :
    ∃ s, Run (step (fun _ _ => 0) "key" (.put "key" [2])) (fun _ _ => True)
        (init coldStorage (.put "key" [2])) stalePromotion s ∧
      s.getter = .returned (some [1]) ∧ s.writer = .returned ∧
      (s.storage.get (fun _ _ => 0) "key").2 ≠ some [2] :=
  ⟨_, run_of_replay rfl, rfl, rfl, by decide +kernel⟩

end RaceSys

end InterBit.Storage
