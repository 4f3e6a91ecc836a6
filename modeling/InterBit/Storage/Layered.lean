import InterBit.Storage.MemoryCache

/-!
# The layered storage

`storage/layered.rs`. A value may be in the prefetch cache, in the L1 cache, in the write
batch that is not yet flushed, and in RocksDB. RocksDB is a map that never fails, and the
hash function of the bloom filter is an argument.

`LayeredSys` adds the prefetch reads that `get_with_prefetch` spawns: each reads its key
at some later time, and puts what it has read into the prefetch cache at a still later
one.

The bloom filter is empty after a restart, and `get` asks it first: `restart_reads_iff`.
-/

namespace InterBit.Storage

/-- RocksDB. -/
abbrev RocksDb := String → Option (List UInt8)

/-- `rocksdb::WriteBatch`: puts, and deletes without a value. -/
abbrev WriteBatch := List (String × Option (List UInt8))

/-- `DB::write`. -/
def RocksDb.write (db : RocksDb) (batch : WriteBatch) : RocksDb :=
  batch.foldl (fun db op => Function.update db op.1 op.2) db

/-- `BloomFilter::hash`. -/
abbrev KeyHash := String → Nat → Nat

/-- `struct BloomFilter`, with as many bits as its size. -/
structure BloomFilter where
  bits : Nat → Bool
  size : Nat
  hashCount : Nat

namespace BloomFilter

/-- `BloomFilter::new`. -/
def new (size : Nat) : BloomFilter := { bits := fun _ => false, size, hashCount := 3 }

/-- `BloomFilter::add`. -/
def add (hash : KeyHash) (filter : BloomFilter) (key : String) : BloomFilter :=
  { filter with
    bits := (List.range filter.hashCount).foldl
      (fun bits i => Function.update bits (hash key i % filter.size) true) filter.bits }

/-- `might_contain`. -/
def mightContain (hash : KeyHash) (filter : BloomFilter) (key : String) : Bool :=
  (List.range filter.hashCount).all fun i => filter.bits (hash key i % filter.size)

end BloomFilter

/-- `L1_CACHE_SIZE`. -/
def l1CacheSize : Nat := 10000000

/-- `BLOOM_FILTER_SIZE`. -/
def bloomFilterSize : Nat := 1000000

/-- `BATCH_WRITE_SIZE`. -/
def batchWriteSize : Nat := 1000

/-- `struct OptimizedStateStorage`, without the cold storage, which never finds anything. -/
structure OptimizedStateStorage where
  memoryCache : MemoryCache
  db : RocksDb
  writeBatch : WriteBatch
  batchCounter : Nat
  bloomFilter : BloomFilter
  prefetchCache : AList fun _ : String => List UInt8

namespace OptimizedStateStorage

/-- `OptimizedStateStorage::new` on a path with the given data. -/
def new (db : RocksDb) : OptimizedStateStorage where
  memoryCache := MemoryCache.new l1CacheSize
  db
  writeBatch := []
  batchCounter := 0
  bloomFilter := BloomFilter.new bloomFilterSize
  prefetchCache := ∅

variable (hash : KeyHash)

/-- `get`; without a value, `NotFound`. -/
def get (s : OptimizedStateStorage) (key : String) :
    OptimizedStateStorage × Option (List UInt8) :=
  if s.bloomFilter.mightContain hash key then
    match s.prefetchCache.lookup key with
    | some value => (s, some value)
    | none =>
      match s.memoryCache.get key with
      | (cache, some value) => ({ s with memoryCache := cache }, some value)
      | (cache, none) =>
        match s.db key with
        -- The value is promoted to L1.
        | some value => ({ s with memoryCache := cache.put key value }, some value)
        | none => ({ s with memoryCache := cache }, none)
  else (s, none)

/-- `contains`. -/
def contains (s : OptimizedStateStorage) (key : String) : OptimizedStateStorage × Bool :=
  if s.bloomFilter.mightContain hash key then
    let (s, value) := s.get hash key
    (s, value.isSome)
  else (s, false)

/-- The first writes of a put: the bloom filter and L1. -/
def cacheItem (s : OptimizedStateStorage) (key : String) (value : List UInt8) :
    OptimizedStateStorage :=
  { s with
    bloomFilter := s.bloomFilter.add hash key
    memoryCache := s.memoryCache.put key value }

/-- The pending batch goes to RocksDB. -/
def writePending (s : OptimizedStateStorage) : OptimizedStateStorage :=
  { s with db := s.db.write s.writeBatch, writeBatch := [], batchCounter := 0 }

/-- `put`. -/
def put (s : OptimizedStateStorage) (key : String) (value : List UInt8) :
    OptimizedStateStorage :=
  let s := s.cacheItem hash key value
  let s := { s with
    writeBatch := s.writeBatch ++ [(key, some value)], batchCounter := s.batchCounter + 1 }
  if s.batchCounter ≥ batchWriteSize then s.writePending else s

/-- `delete`. -/
def delete (s : OptimizedStateStorage) (key : String) : OptimizedStateStorage :=
  { s with
    memoryCache := s.memoryCache.remove key
    db := Function.update s.db key none }

/-- `batch_put`. -/
def batchPut (s : OptimizedStateStorage) (items : List (String × List UInt8)) :
    OptimizedStateStorage :=
  let s := items.foldl (fun s item => s.cacheItem hash item.1 item.2) s
  { s with db := s.db.write (items.map fun item => (item.1, some item.2)) }

/-- `batch_delete`. -/
def batchDelete (s : OptimizedStateStorage) (keys : List String) : OptimizedStateStorage :=
  { s with
    memoryCache := keys.foldl MemoryCache.remove s.memoryCache
    db := s.db.write (keys.map fun key => (key, none)) }

/-- `flush_batch`. -/
def flushBatch (s : OptimizedStateStorage) : OptimizedStateStorage :=
  if s.writeBatch.length > 0 then s.writePending else s

/-- `compact`, with the entries that are cold. -/
def compact (s : OptimizedStateStorage) (cold : String → Bool) : OptimizedStateStorage :=
  { s with memoryCache := s.memoryCache.evictColdEntries cold }

end OptimizedStateStorage

/-- A storage, and its prefetch reads. -/
structure LayeredSys where
  storage : OptimizedStateStorage
  /-- The keys that are yet to be read. -/
  reading : List String
  /-- What has been read, and is yet to be put into the prefetch cache. -/
  loaded : List (String × List UInt8)

/-- A call, or a step of a prefetch read. -/
inductive StorageCall where
  | put (key : String) (value : List UInt8)
  | delete (key : String)
  | batchPut (items : List (String × List UInt8))
  | batchDelete (keys : List String)
  | flushBatch
  | compact (cold : String → Bool)
  | get (key : String)
  | contains (key : String)
  | getWithPrefetch (key : String) (prefetchKeys : List String)
  | prefetchRead (key : String)
  | prefetchInsert (key : String) (value : List UInt8)

namespace LayeredSys

/-- A storage that has just been opened. -/
def new (db : RocksDb) : LayeredSys :=
  { storage := OptimizedStateStorage.new db, reading := [], loaded := [] }

/-- The state after a call. A step of a prefetch read that is not due does nothing. -/
def after (hash : KeyHash) (s : LayeredSys) : StorageCall → LayeredSys
  | .put key value => { s with storage := s.storage.put hash key value }
  | .delete key => { s with storage := s.storage.delete key }
  | .batchPut items => { s with storage := s.storage.batchPut hash items }
  | .batchDelete keys => { s with storage := s.storage.batchDelete keys }
  | .flushBatch => { s with storage := s.storage.flushBatch }
  | .compact cold => { s with storage := s.storage.compact cold }
  | .get key => { s with storage := (s.storage.get hash key).1 }
  | .contains key => { s with storage := (s.storage.contains hash key).1 }
  | .getWithPrefetch key prefetchKeys =>
    { s with
      storage := (s.storage.get hash key).1
      reading := s.reading ++ prefetchKeys }
  | .prefetchRead key =>
    if key ∈ s.reading then
      let (storage, value) := s.storage.get hash key
      { storage
        reading := s.reading.erase key
        loaded := s.loaded ++ (value.map (key, ·)).toList }
    else s
  | .prefetchInsert key value =>
    if (key, value) ∈ s.loaded then
      { s with
        storage.prefetchCache := s.storage.prefetchCache.insert key value
        loaded := s.loaded.erase (key, value) }
    else s

/-- The state after a run of calls. -/
def run (hash : KeyHash) (s : LayeredSys) (calls : List StorageCall) : LayeredSys :=
  calls.foldl (after hash) s

end LayeredSys

/-- The writes of a call, in order. -/
def StorageCall.writes : StorageCall → WriteBatch
  | .put key value => [(key, some value)]
  | .delete key => [(key, none)]
  | .batchPut items => items.map fun item => (item.1, some item.2)
  | .batchDelete keys => keys.map fun key => (key, none)
  | _ => []

/-- The value that each key was last written with, and has not been deleted since. -/
def lastWritten (calls : List StorageCall) : RocksDb :=
  calls.foldl (fun db call => db.write call.writes) fun _ => none

/-! ## After a restart -/

theorem BloomFilter.mightContain_new (hash : KeyHash) (size : Nat) (key : String) :
    (BloomFilter.new size).mightContain hash key = false := rfl

/-- A storage that has just been opened finds nothing. -/
theorem OptimizedStateStorage.get_new (hash : KeyHash) (db : RocksDb) (key : String) :
    ((new db).get hash key).2 = none := by
  rw [get, new, BloomFilter.mightContain_new]
  rfl

/-- After any run of calls that ends with a flush, a storage opened on the same data
reads what was last written if and only if no key has a value. -/
theorem restart_reads_iff (hash : KeyHash) (s : LayeredSys) (calls : List StorageCall) :
    (∀ key, ((OptimizedStateStorage.new
        (s.run hash (calls ++ [.flushBatch])).storage.db).get hash key).2
          = lastWritten (calls ++ [.flushBatch]) key) ↔
      ∀ key, lastWritten calls key = none := by
  have hlast : lastWritten (calls ++ [.flushBatch]) = lastWritten calls := List.foldl_append
  rw [hlast]
  refine forall_congr' fun key => ?_
  rw [OptimizedStateStorage.get_new]
  exact eq_comm

/-- A value is put and flushed, RocksDB has it, and the next process does not find it. -/
theorem put_lost_by_restart :
    ((LayeredSys.new fun _ => none).run (fun _ _ => 0)
        [.put "key" [1], .flushBatch]).storage.db "key" = some [1] ∧
      ¬ ∀ key, ((OptimizedStateStorage.new
          ((LayeredSys.new fun _ => none).run (fun _ _ => 0)
            [.put "key" [1], .flushBatch]).storage.db).get (fun _ _ => 0) key).2
              = lastWritten [.put "key" [1], .flushBatch] key := by
  constructor
  · decide +kernel
  · intro h
    exact absurd (h "key") (by decide +kernel)

end InterBit.Storage
