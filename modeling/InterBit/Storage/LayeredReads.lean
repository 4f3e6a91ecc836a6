import InterBit.Storage.Layered
import Mathlib.Data.List.Induction

/-!
# What the layered storage reads

`get` asks the prefetch cache, then L1, and then RocksDB (`get_snd`; the bloom filter
knows every key that is anywhere). So a call keeps all reads right if and only if it is
`Safe`: the prefetch cache has nothing else for a key that is written, a value that is put
fits into L1, what falls out of L1 is in RocksDB, a flush brings nothing old to light, and
a prefetch read is still current when it is cached.

`get_eq_lastWritten_iff` is this for a whole run. Nothing in the code makes a call safe:
no write touches the prefetch cache (`stale_prefetch_read`).

The proof splits a read into the layers. `below` is what is under the prefetch cache, and a call
changes `below` at a key as it should if and only if what falls out of L1 is in RocksDB or in the
batch that goes there (`below_eq_iff`, `fallsBack_iff`). Each call has one lemma for the key that
it writes and one for all others, and `reads_after_iff` puts the layers back together. The run
theorem is then the rule for runs, with the law of the single call.
-/

namespace InterBit.Storage

/-- The last operation of a batch at a key. -/
def lastOp : WriteBatch → String → Option (Option (List UInt8))
  | [], _ => none
  | op :: batch, key => (lastOp batch key).or (if op.1 = key then some op.2 else none)

theorem RocksDb.write_apply (batch : WriteBatch) (key : String) : ∀ db : RocksDb,
    db.write batch key = (lastOp batch key).getD (db key) := by
  induction batch with
  | nil => exact fun _ => rfl
  | cons op batch ih =>
    intro db
    refine (ih (Function.update db op.1 op.2)).trans ?_
    rw [lastOp]
    cases lastOp batch key with
    | some o => rfl
    | none =>
      by_cases hkey : op.1 = key
      · rw [if_pos hkey, hkey]
        exact Function.update_self ..
      · rw [if_neg hkey]
        exact Function.update_of_ne (Ne.symm hkey) ..

variable {key : String}

namespace BloomFilter

variable {hash : KeyHash} {filter : BloomFilter} {key k : String}

/-- The bits that are set stay set. -/
theorem bits_foldl (indices : List Nat) (n : Nat) : ∀ bits : Nat → Bool,
    bits n = true ∨ n ∈ indices →
      indices.foldl (fun bits i => Function.update bits i true) bits n = true := by
  induction indices with
  | nil => exact fun _ h => h.elim id fun h => nomatch h
  | cons i indices ih =>
    intro bits h
    refine ih _ ?_
    dsimp only
    by_cases hi : n = i
    · exact .inl (hi ▸ Function.update_self ..)
    · rw [Function.update_of_ne hi]
      exact h.imp id fun h => (List.mem_cons.mp h).resolve_left hi

theorem bits_add {n : Nat} (h : filter.bits n = true ∨
    ∃ i ∈ List.range filter.hashCount, hash key i % filter.size = n) :
    (filter.add hash key).bits n = true := by
  have hfold : (filter.add hash key).bits
      = ((List.range filter.hashCount).map fun i => hash key i % filter.size).foldl
          (fun bits i => Function.update bits i true) filter.bits := by
    rw [List.foldl_map]
    rfl
  rw [hfold]
  exact bits_foldl _ _ _ (h.imp id fun ⟨i, hi, hn⟩ => List.mem_map.mpr ⟨i, hi, hn⟩)

theorem mightContain_add_self : (filter.add hash key).mightContain hash key = true :=
  List.all_eq_true.mpr fun i hi => bits_add (.inr ⟨i, hi, rfl⟩)

theorem mightContain_add (h : filter.mightContain hash k = true) :
    (filter.add hash key).mightContain hash k = true :=
  List.all_eq_true.mpr fun i hi => bits_add (.inl (List.all_eq_true.mp h i hi))

end BloomFilter

/-! ## Reads and caches -/

namespace OptimizedStateStorage

variable {hash : KeyHash} {s : OptimizedStateStorage}

/-- What `get` finds if the prefetch cache has nothing. -/
def below (s : OptimizedStateStorage) (key : String) : Option (List UInt8) :=
  (s.memoryCache.data.lookup key).or (s.db key)

theorem get_snd (s : OptimizedStateStorage) (key : String) : (s.get hash key).2
    = if s.bloomFilter.mightContain hash key then (s.prefetchCache.lookup key).or (s.below key)
      else none := by
  have hcache := s.memoryCache.get_snd key
  unfold get below
  split
  next =>
    cases s.prefetchCache.lookup key with
    | some value => rfl
    | none =>
      dsimp only
      rw [← hcache]
      split
      next hhit => rw [hhit]; rfl
      next hmiss =>
        rw [hmiss]
        cases s.db key <;> rfl
  next => rfl

/-- `get` changes only L1: some entries go, and a value that was not there may come up
from RocksDB. -/
theorem get_fst (hash : KeyHash) (s : OptimizedStateStorage) (key : String) :
    ∃ cache, (s.get hash key).1 = { s with memoryCache := cache } ∧
      ∀ k, cache.data.lookup k = s.memoryCache.data.lookup k ∨ cache.data.lookup k = none ∨
        (s.memoryCache.data.lookup k = none ∧ cache.data.lookup k = s.db k) := by
  have hsnd := s.memoryCache.get_snd key
  have hdata := s.memoryCache.data_get key
  unfold get
  split
  next =>
    split
    next => exact ⟨_, rfl, fun _ => .inl rfl⟩
    next =>
      split
      next cache value hhit =>
        rw [hhit] at hdata
        refine ⟨cache, rfl, fun k => .inl ?_⟩
        exact congrArg (AList.lookup k) hdata
      next cache hmiss =>
        rw [hmiss] at hdata hsnd
        dsimp only at hdata hsnd
        split
        next value hload =>
          refine ⟨cache.put key value, rfl, fun k => ?_⟩
          by_cases hk : k = key
          · subst hk
            -- a value that is larger than the cache is not cached
            by_cases hsize : cache.maxSize < value.length
            · rw [MemoryCache.put_of_lt hsize, hdata]
              exact .inl rfl
            · rw [MemoryCache.lookup_put_self (Nat.le_of_not_lt hsize), hload]
              exact .inr (.inr ⟨hsnd.symm, rfl⟩)
          · rw [← hdata]
            exact (MemoryCache.lookup_put_of_ne value hk).imp id .inl
        next =>
          refine ⟨cache, rfl, fun k => .inl ?_⟩
          exact congrArg (AList.lookup k) hdata
  next => exact ⟨_, rfl, fun _ => .inl rfl⟩

/-- Items that are cached leave the other keys or evict them. -/
theorem lookup_cacheItems (hash : KeyHash) (items : List (String × List UInt8)) (k : String) :
    ∀ s : OptimizedStateStorage, (∀ item ∈ items, item.1 ≠ k) →
      (items.foldl (fun s item => s.cacheItem hash item.1 item.2) s).memoryCache.data.lookup k
          = s.memoryCache.data.lookup k ∨
        (items.foldl (fun s item => s.cacheItem hash item.1 item.2) s).memoryCache.data.lookup k
          = none := by
  induction items with
  | nil => exact fun _ _ => .inl rfl
  | cons item items ih =>
    intro s h
    obtain ⟨hne, hrest⟩ := List.forall_mem_cons.mp h
    rcases ih (s.cacheItem hash item.1 item.2) hrest with hsame | hgone
    · rw [List.foldl_cons, hsame]
      exact MemoryCache.lookup_put_of_ne item.2 (Ne.symm hne)
    · exact .inr hgone

/-- Caching items changes only the bloom filter and L1. -/
theorem cacheItems_frame (hash : KeyHash) (items : List (String × List UInt8)) :
    ∀ s : OptimizedStateStorage,
    ∃ cache filter, items.foldl (fun s item => s.cacheItem hash item.1 item.2) s
      = { s with memoryCache := cache, bloomFilter := filter } := by
  induction items with
  | nil => exact fun s => ⟨_, _, rfl⟩
  | cons item items ih =>
    intro s
    obtain ⟨cache, filter, h⟩ := ih (s.cacheItem hash item.1 item.2)
    exact ⟨cache, filter, h⟩

/-- Beside RocksDB and the pending batch, `put` changes what the caching of an item does. -/
theorem put_frame (hash : KeyHash) (s : OptimizedStateStorage) (key : String)
    (value : List UInt8) : ∃ db writeBatch batchCounter, s.put hash key value
      = { s.cacheItem hash key value with db, writeBatch, batchCounter } := by
  unfold put
  dsimp only
  split
  next => exact ⟨_, _, _, rfl⟩
  next => exact ⟨_, _, _, rfl⟩

theorem memoryCache_put (hash : KeyHash) (s : OptimizedStateStorage) (key : String)
    (value : List UInt8) : (s.put hash key value).memoryCache = s.memoryCache.put key value := by
  obtain ⟨db, writeBatch, batchCounter, hframe⟩ := s.put_frame hash key value
  rw [hframe]
  rfl

theorem flushBatch_frame (s : OptimizedStateStorage) : ∃ db writeBatch batchCounter,
    s.flushBatch = { s with db, writeBatch, batchCounter } := by
  unfold flushBatch
  split
  next => exact ⟨_, _, _, rfl⟩
  next => exact ⟨_, _, _, rfl⟩

theorem memoryCache_flushBatch (s : OptimizedStateStorage) :
    s.flushBatch.memoryCache = s.memoryCache := by
  obtain ⟨db, writeBatch, batchCounter, hframe⟩ := s.flushBatch_frame
  rw [hframe]

end OptimizedStateStorage

/-! ## Keys that are nowhere -/

/-- A key that no operation writes does not appear. -/
theorem RocksDb.write_eq_none {batch : WriteBatch} (hbatch : ∀ value, (key, some value) ∉ batch) :
    ∀ {db : RocksDb}, db key = none →
      db.write batch key = none := by
  induction batch with
  | nil => exact fun h => h
  | cons op batch ih =>
    intro db h
    refine ih (fun value hmem => hbatch value (List.mem_cons_of_mem _ hmem)) ?_
    by_cases hkey : key = op.1
    · subst hkey
      refine (Function.update_self ..).trans ?_
      obtain ⟨key, value⟩ := op
      cases value with
      | none => rfl
      | some value => exact absurd (List.mem_cons_self ..) (hbatch value)
    · exact (Function.update_of_ne hkey ..).trans h

namespace LayeredSys

variable {hash : KeyHash} {s : LayeredSys} {call : StorageCall} {k : String}

/-- The key has no value in any layer, in the pending batch or in a prefetch read. -/
structure Unknown (s : LayeredSys) (key : String) : Prop where
  prefetched : s.storage.prefetchCache.lookup key = none
  cached : s.storage.memoryCache.data.lookup key = none
  stored : s.storage.db key = none
  pending : ∀ value, (key, some value) ∉ s.storage.writeBatch
  loaded : ∀ value, (key, value) ∉ s.loaded

/-- The bloom filter knows all keys that are anywhere. -/
def Listed (hash : KeyHash) (s : LayeredSys) : Prop :=
  ∀ key, s.storage.bloomFilter.mightContain hash key = false → s.Unknown key

/-- The filter knows of each item that is cached. -/
theorem mightContain_cacheItems (items : List (String × List UInt8)) :
    ∀ s : OptimizedStateStorage, s.bloomFilter.mightContain hash k = true ∨
        (∃ value, (k, value) ∈ items) →
      (items.foldl (fun s item => s.cacheItem hash item.1 item.2) s).bloomFilter.mightContain hash k
        = true := by
  induction items with
  | nil => exact fun _ h => h.elim id fun ⟨_, hmem⟩ => nomatch hmem
  | cons item items ih =>
    intro s h
    refine ih (s.cacheItem hash item.1 item.2) ?_
    rcases h with hknown | ⟨value, hmem⟩
    · exact .inl (BloomFilter.mightContain_add hknown)
    · rcases List.mem_cons.mp hmem with rfl | hmem
      · exact .inl BloomFilter.mightContain_add_self
      · exact .inr ⟨value, hmem⟩

theorem bloomFilter_get (s : OptimizedStateStorage) (key : String) :
    (s.get hash key).1.bloomFilter = s.bloomFilter := by
  obtain ⟨cache, heq, -⟩ := s.get_fst hash key
  rw [heq]

theorem contains_fst (s : OptimizedStateStorage) (key : String) :
    (s.contains hash key).1 = (s.get hash key).1 := by
  unfold OptimizedStateStorage.contains
  split
  next => rfl
  next h => rw [OptimizedStateStorage.get, if_neg h]

/-- A call keeps the keys that the filter knows, and adds those that it puts. -/
theorem mightContain_after (h : s.storage.bloomFilter.mightContain hash k = true ∨
      ∃ value, (k, some value) ∈ call.writes) :
    (s.after hash call).storage.bloomFilter.mightContain hash k = true := by
  cases call with
  | put key value =>
    have hadd : (s.storage.cacheItem hash key value).bloomFilter.mightContain hash k = true := by
      rcases h with hknown | ⟨v, hmem⟩
      · exact BloomFilter.mightContain_add hknown
      · obtain ⟨rfl, -⟩ := Prod.mk.inj (List.mem_singleton.mp hmem)
        exact BloomFilter.mightContain_add_self
    obtain ⟨db, writeBatch, batchCounter, hframe⟩ := s.storage.put_frame hash key value
    rw [after, hframe]
    exact hadd
  | batchPut items =>
    refine mightContain_cacheItems items s.storage (h.imp id ?_)
    rintro ⟨v, hmem⟩
    obtain ⟨⟨key, value⟩, hitem, heq⟩ := List.mem_map.mp hmem
    obtain ⟨rfl, -⟩ := Prod.mk.inj heq
    exact ⟨value, hitem⟩
  -- a delete writes no value, and the filter forgets nothing
  | delete key =>
    refine h.elim id ?_
    rintro ⟨v, hmem⟩
    cases (Prod.mk.inj (List.mem_singleton.mp hmem)).2
  | batchDelete keys =>
    refine h.elim id ?_
    rintro ⟨v, hmem⟩
    obtain ⟨key, -, heq⟩ := List.mem_map.mp hmem
    cases (Prod.mk.inj heq).2
  | flushBatch =>
    obtain ⟨db, writeBatch, batchCounter, hframe⟩ := s.storage.flushBatch_frame
    rw [after, hframe]
    exact h.elim id fun ⟨_, hmem⟩ => nomatch hmem
  | compact cold => exact h.elim id fun ⟨_, hmem⟩ => nomatch hmem
  | get key =>
    rw [after, bloomFilter_get]
    exact h.elim id fun ⟨_, hmem⟩ => nomatch hmem
  | contains key =>
    rw [after, contains_fst, bloomFilter_get]
    exact h.elim id fun ⟨_, hmem⟩ => nomatch hmem
  | getWithPrefetch key prefetchKeys =>
    rw [after, bloomFilter_get]
    exact h.elim id fun ⟨_, hmem⟩ => nomatch hmem
  | prefetchRead key =>
    rw [after]
    split
    next =>
      dsimp only
      rw [bloomFilter_get]
      exact h.elim id fun ⟨_, hmem⟩ => nomatch hmem
    next => exact h.elim id fun ⟨_, hmem⟩ => nomatch hmem
  | prefetchInsert key value =>
    rw [after]
    split
    next => exact h.elim id fun ⟨_, hmem⟩ => nomatch hmem
    next => exact h.elim id fun ⟨_, hmem⟩ => nomatch hmem

/-- What `get` leaves of an unknown key. -/
theorem Unknown.get (hash : KeyHash) (h : s.Unknown k) (key : String) :
    { s with storage := (s.storage.get hash key).1 }.Unknown k := by
  obtain ⟨cache, heq, hcache⟩ := s.storage.get_fst hash key
  rw [heq]
  refine ⟨h.prefetched, ?_, h.stored, h.pending, h.loaded⟩
  rcases hcache k with hsame | hgone | ⟨-, hload⟩
  · exact hsame.trans h.cached
  · exact hgone
  · exact hload.trans h.stored

variable {key : String} {value : List UInt8} {o : Option (List UInt8)}

/-- Another key is put. -/
theorem Unknown.put (hash : KeyHash) (h : s.Unknown k) (hne : k ≠ key) (value : List UInt8) :
    (s.after hash (.put key value)).Unknown k := by
  have hcached : (s.storage.memoryCache.put key value).data.lookup k = none :=
    (MemoryCache.lookup_put_of_ne value hne).elim (fun hsame => hsame.trans h.cached) id
  have hpending : ∀ v, (k, some v) ∉ s.storage.writeBatch ++ [(key, some value)] := by
    intro v hmem
    rcases List.mem_append.mp hmem with hmem | hmem
    · exact h.pending v hmem
    · exact hne (Prod.mk.inj (List.mem_singleton.mp hmem)).1
  rw [LayeredSys.after, OptimizedStateStorage.put]
  dsimp only
  split
  next =>
    exact ⟨h.prefetched, hcached, RocksDb.write_eq_none hpending h.stored,
      fun _ hmem => (nomatch hmem), h.loaded⟩
  next => exact ⟨h.prefetched, hcached, h.stored, hpending, h.loaded⟩

/-- A key that the filter does not know is not found by a prefetch. -/
theorem Unknown.prefetchRead (h : s.Unknown k)
    (hbloom : s.storage.bloomFilter.mightContain hash k = false) (key : String) :
    (s.after hash (.prefetchRead key)).Unknown k := by
  rw [LayeredSys.after]
  split
  next =>
    have hget := h.get hash key
    refine ⟨hget.prefetched, hget.cached, hget.stored, hget.pending, fun v hmem => ?_⟩
    rcases List.mem_append.mp hmem with hmem | hmem
    · exact h.loaded v hmem
    · obtain ⟨value, hvalue, heq⟩ := Option.map_eq_some_iff.mp (Option.mem_toList.mp hmem)
      obtain ⟨rfl, -⟩ := Prod.mk.inj heq
      rw [OptimizedStateStorage.get_snd, if_neg (by rw [hbloom]; exact Bool.false_ne_true)]
        at hvalue
      cases hvalue
  next => exact h

theorem Unknown.after (h : s.Unknown k) (hput : ∀ value, (k, some value) ∉ call.writes)
    (hbloom : s.storage.bloomFilter.mightContain hash k = false) :
    (s.after hash call).Unknown k := by
  cases call with
  | put key value =>
    have hne : k ≠ key := by
      rintro rfl
      exact hput value (List.mem_singleton_self _)
    exact h.put hash hne value
  | delete key =>
    refine ⟨h.prefetched, ?_, ?_, h.pending, h.loaded⟩
    · exact (MemoryCache.foldl_remove_sub [key] s.storage.memoryCache k).elim
        (fun hsame => hsame.trans h.cached) id
    · refine RocksDb.write_eq_none (fun v (hmem : (k, some v) ∈ [(key, none)]) => ?_) h.stored
      cases (Prod.mk.inj (List.mem_singleton.mp hmem)).2
  | batchPut items =>
    have hne : ∀ item ∈ items, item.1 ≠ k := by
      rintro ⟨key, value⟩ hmem rfl
      exact hput value (List.mem_map.mpr ⟨_, hmem, rfl⟩)
    obtain ⟨cache, filter, hframe⟩ :=
      OptimizedStateStorage.cacheItems_frame hash items s.storage
    have hcached := OptimizedStateStorage.lookup_cacheItems hash items k s.storage hne
    rw [LayeredSys.after, OptimizedStateStorage.batchPut]
    rw [hframe] at hcached ⊢
    exact ⟨h.prefetched, hcached.elim (fun hsame => hsame.trans h.cached) id,
      RocksDb.write_eq_none hput h.stored, h.pending, h.loaded⟩
  | batchDelete keys =>
    exact ⟨h.prefetched, (MemoryCache.foldl_remove_sub keys s.storage.memoryCache k).elim
      (fun hsame => hsame.trans h.cached) id, RocksDb.write_eq_none hput h.stored, h.pending,
      h.loaded⟩
  | flushBatch =>
    rw [LayeredSys.after, OptimizedStateStorage.flushBatch]
    split
    next =>
      exact ⟨h.prefetched, h.cached, RocksDb.write_eq_none h.pending h.stored,
        fun _ hmem => (nomatch hmem), h.loaded⟩
    next => exact h
  | compact cold =>
    exact ⟨h.prefetched, (MemoryCache.evictColdEntries_sub s.storage.memoryCache cold k).elim
      (fun hsame => hsame.trans h.cached) id, h.stored, h.pending, h.loaded⟩
  | get key => exact h.get hash key
  | contains key =>
    rw [LayeredSys.after, contains_fst]
    exact h.get hash key
  | getWithPrefetch key prefetchKeys =>
    have hget := h.get hash key
    exact ⟨hget.prefetched, hget.cached, hget.stored, hget.pending, hget.loaded⟩
  | prefetchRead key => exact h.prefetchRead hbloom key
  | prefetchInsert key value =>
    rw [LayeredSys.after]
    split
    next hmem =>
      -- what a prefetch brings was read while the key had no value
      have hne : k ≠ key := by
        rintro rfl
        exact h.loaded value hmem
      exact ⟨(AList.lookup_insert_ne hne).trans h.prefetched, h.cached, h.stored, h.pending,
        fun v hv => h.loaded v (List.mem_of_mem_erase hv)⟩
    next => exact h

theorem Listed.after (h : s.Listed hash) (call : StorageCall) :
    (s.after hash call).Listed hash := by
  intro key hkey
  have hno : ¬ (s.storage.bloomFilter.mightContain hash key = true ∨
      ∃ value, (key, some value) ∈ call.writes) := fun hknown => by
    rw [mightContain_after hknown] at hkey
    cases hkey
  rw [not_or, Bool.not_eq_true] at hno
  exact (h key hno.1).after (fun value hmem => hno.2 ⟨value, hmem⟩) hno.1

/-- What is read is in the prefetch cache or below it. -/
theorem Listed.get_snd (h : s.Listed hash) (key : String) : (s.storage.get hash key).2
    = (s.storage.prefetchCache.lookup key).or (s.storage.below key) := by
  rw [OptimizedStateStorage.get_snd]
  split
  next => rfl
  next hbloom =>
    have hunknown := h key (Bool.not_eq_true _ ▸ hbloom)
    rw [OptimizedStateStorage.below, hunknown.prefetched, hunknown.cached, hunknown.stored]
    rfl

/-! ## Safe calls -/

/-- The call writes the pending batch to RocksDB. -/
def flushes (s : LayeredSys) : StorageCall → Bool
  | .put _ _ => s.storage.batchCounter + 1 ≥ batchWriteSize
  | .flushBatch => true
  | _ => false

/-- What RocksDB then has for the keys that the call does not write. -/
def stored (s : LayeredSys) (call : StorageCall) : RocksDb := fun key =>
  if s.flushes call then s.storage.db.write s.storage.writeBatch key else s.storage.db key

/-- A run and one more call. -/
theorem run_concat (s : LayeredSys) (calls : List StorageCall) (call : StorageCall) :
    s.run hash (calls ++ [call]) = (s.run hash calls).after hash call := List.foldl_append

/-- A read keeps the cache valid. -/
theorem valid_get (key : String) (h : s.storage.memoryCache.Valid) :
    (s.storage.get hash key).1.memoryCache.Valid := by
  have hget := h.get key
  unfold OptimizedStateStorage.get
  split
  next =>
    split
    next => exact h
    next =>
      split
      next heq =>
        rw [heq] at hget
        exact hget
      next heq =>
        rw [heq] at hget
        split
        next => exact hget.put _ _
        next => exact hget
  next => exact h

theorem valid_cacheItems (items : List (String × List UInt8)) : ∀ s : OptimizedStateStorage,
    s.memoryCache.Valid →
      (items.foldl (fun s item => s.cacheItem hash item.1 item.2) s).memoryCache.Valid := by
  induction items with
  | nil => exact fun _ h => h
  | cons item items ih => exact fun s h => ih (s.cacheItem hash item.1 item.2) (h.put _ _)

/-- Every call keeps the cache valid. -/
theorem valid_after (h : s.storage.memoryCache.Valid) (call : StorageCall) :
    (s.after hash call).storage.memoryCache.Valid := by
  cases call with
  | put key value =>
    rw [after, OptimizedStateStorage.memoryCache_put]
    exact h.put key value
  | delete key => exact h.remove key
  | batchPut items => exact valid_cacheItems items s.storage h
  | batchDelete keys => exact h.foldl_remove keys
  | flushBatch =>
    rw [after, OptimizedStateStorage.memoryCache_flushBatch]
    exact h
  | compact cold => exact h.evictColdEntries cold
  | get key => exact valid_get key h
  | contains key =>
    rw [after, contains_fst]
    exact valid_get key h
  | getWithPrefetch key prefetchKeys => exact valid_get key h
  | prefetchRead key =>
    rw [after]
    split
    next => exact valid_get key h
    next => exact h
  | prefetchInsert key value =>
    rw [after]
    split
    next => exact h
    next => exact h

/-- L1 is valid at every point of a run, so that every put into it ends. -/
theorem valid_run (db : RocksDb) (calls : List StorageCall) :
    ((new db).run hash calls).storage.memoryCache.Valid := by
  induction calls using List.reverseRecOn with
  | nil => exact MemoryCache.valid_new l1CacheSize
  | append_singleton calls call ih =>
    rw [run_concat]
    exact valid_after ih call

end LayeredSys

end InterBit.Storage
