import InterBit.Lib.Assoc
import Mathlib.Algebra.BigOperators.Group.List.Basic

/-!
# The L1 cache

`storage/cache.rs`. `put` evicts entries in the order of `lru_queue` until the new one
fits. The queue may have a key more than once, and keys that are no longer cached. Every
cached key is in it (`Valid`), so that the loop ends with enough room (`evictLoop_room`).

The times and counts of accesses are left out. What they decide is which entries are
cold, and `evictColdEntries` takes this as an argument.
-/

namespace InterBit.Storage

open InterBit.Lib

/-- `struct MemoryCache`. An entry's `size` is the length of its value. -/
structure MemoryCache where
  data : AList fun _ : String => List UInt8
  lruQueue : List String
  maxSize : Nat
  currentSize : Nat

namespace MemoryCache

/-- `MemoryCache::new`. -/
def new (maxSize : Nat) : MemoryCache := { data := ∅, lruQueue := [], maxSize, currentSize := 0 }

/-- `MemoryCache::get`. -/
def get (c : MemoryCache) (key : String) : MemoryCache × Option (List UInt8) :=
  match c.data.lookup key with
  | some value => ({ c with lruQueue := c.lruQueue.filter (· ≠ key) ++ [key] }, some value)
  | none => (c, none)

/-- `evict_one`. -/
def evictOne (c : MemoryCache) : MemoryCache :=
  match c.lruQueue with
  | [] => c
  | key :: queue =>
    match c.data.lookup key with
    | some value =>
      { c with
        data := c.data.erase key
        lruQueue := queue
        currentSize := c.currentSize - value.length }
    | none => { c with lruQueue := queue }

/-- The loop of `put` that makes room, for at most so many turns. -/
def evictLoop (size : Nat) : Nat → MemoryCache → MemoryCache
  | 0, c => c
  | turns + 1, c =>
    if c.maxSize < c.currentSize + size then evictLoop size turns c.evictOne else c

/-- What `put` does first with the old value of the key. -/
def dropOld (c : MemoryCache) (key : String) : MemoryCache :=
  match c.data.lookup key with
  | some value =>
    { c with data := c.data.erase key, currentSize := c.currentSize - value.length }
  | none => c

/-- `MemoryCache::put`. -/
def put (c : MemoryCache) (key : String) (value : List UInt8) : MemoryCache :=
  if c.maxSize < value.length then c
  else
    let c := evictLoop value.length c.lruQueue.length (c.dropOld key)
    { c with
      data := c.data.insert key value
      lruQueue := c.lruQueue ++ [key]
      currentSize := c.currentSize + value.length }

/-- `MemoryCache::remove`. -/
def remove (c : MemoryCache) (key : String) : MemoryCache :=
  match c.data.lookup key with
  | some value =>
    { c with
      data := c.data.erase key
      lruQueue := c.lruQueue.filter (· ≠ key)
      currentSize := c.currentSize - value.length }
  | none => c

/-- `evict_cold_entries`. -/
def evictColdEntries (c : MemoryCache) (cold : String → Bool) : MemoryCache :=
  (c.data.keys.filter cold).foldl remove c

/-! ## What is cached -/

variable {c : MemoryCache}

theorem data_get (c : MemoryCache) (key : String) : (c.get key).1.data = c.data := by
  unfold get
  split
  next => rfl
  next => rfl

theorem get_snd (c : MemoryCache) (key : String) : (c.get key).2 = c.data.lookup key := by
  unfold get
  split
  next h => exact h.symm
  next h => exact h.symm

/-- The entries of `c'` are some of those of `c`. -/
def Sub (c' c : MemoryCache) : Prop :=
  ∀ key, c'.data.lookup key = c.data.lookup key ∨ c'.data.lookup key = none

theorem Sub.refl (c : MemoryCache) : c.Sub c := fun _ => .inl rfl

theorem Sub.trans {c' c'' : MemoryCache} (h : c''.Sub c') (h' : c'.Sub c) : c''.Sub c := by
  intro key
  rcases h key with hsame | hgone
  · rw [hsame]
    exact h' key
  · exact .inr hgone

variable {key : String} {value : List UInt8}

/-- Without one of the keys. -/
theorem sub_of_erase {c' : MemoryCache} (h : c'.data = c.data.erase key) : c'.Sub c := by
  intro k
  rw [h]
  by_cases hk : k = key
  · exact .inr (hk ▸ AList.lookup_erase ..)
  · exact .inl (AList.lookup_erase_ne hk)

/-- To evict only takes out. -/
theorem evictOne_sub (c : MemoryCache) : c.evictOne.Sub c := by
  unfold evictOne
  split
  next => exact .refl c
  next =>
    split
    next => exact sub_of_erase rfl
    next => exact .refl c

theorem evictLoop_sub (size turns : Nat) : ∀ c : MemoryCache, (evictLoop size turns c).Sub c := by
  induction turns with
  | zero => exact .refl
  | succ turns ih =>
    intro c
    unfold evictLoop
    split
    next => exact (ih c.evictOne).trans c.evictOne_sub
    next => exact .refl c

theorem dropOld_sub (c : MemoryCache) (key : String) : (c.dropOld key).Sub c := by
  unfold dropOld
  split
  next => exact sub_of_erase rfl
  next => exact .refl c

/-- A value that fits is cached. -/
theorem lookup_put_self (h : value.length ≤ c.maxSize) :
    (c.put key value).data.lookup key = some value := by
  rw [put, if_neg (Nat.not_lt.mpr h)]
  exact AList.lookup_insert _

/-- A value that does not fit changes nothing. -/
theorem put_of_lt (h : c.maxSize < value.length) : c.put key value = c := if_pos h

/-- The other entries stay or are evicted. -/
theorem lookup_put_of_ne {key k : String} (value : List UInt8) (h : k ≠ key) :
    (c.put key value).data.lookup k = c.data.lookup k ∨
      (c.put key value).data.lookup k = none := by
  unfold put
  split
  next => exact .inl rfl
  next =>
    dsimp only
    rw [AList.lookup_insert_ne h]
    exact Sub.trans (evictLoop_sub _ _ _) (c.dropOld_sub key) k

theorem lookup_remove_self (c : MemoryCache) (key : String) :
    (c.remove key).data.lookup key = none := by
  unfold remove
  split
  next => exact AList.lookup_erase ..
  next h => exact h

/-- The other keys stay. -/
theorem lookup_remove_of_ne {key k : String} (h : k ≠ key) :
    (c.remove key).data.lookup k = c.data.lookup k := by
  unfold remove
  split
  next => exact AList.lookup_erase_ne h
  next => rfl

/-- To remove keys only takes out. -/
theorem foldl_remove_sub (keys : List String) : ∀ c : MemoryCache, (keys.foldl remove c).Sub c := by
  induction keys with
  | nil => exact .refl
  | cons key keys ih =>
    refine fun c => (ih (c.remove key)).trans fun k => ?_
    by_cases hk : k = key
    · exact .inr (hk ▸ lookup_remove_self ..)
    · exact .inl (lookup_remove_of_ne hk)

theorem evictColdEntries_sub (c : MemoryCache) (cold : String → Bool) :
    (c.evictColdEntries cold).Sub c := foldl_remove_sub _ c

theorem maxSize_evictOne (c : MemoryCache) : c.evictOne.maxSize = c.maxSize := by
  unfold evictOne
  split
  next => rfl
  next => split <;> rfl

theorem maxSize_get (c : MemoryCache) (key : String) : (c.get key).1.maxSize = c.maxSize := by
  unfold get
  split
  next => rfl
  next => rfl

theorem lruQueue_dropOld (c : MemoryCache) (key : String) :
    (c.dropOld key).lruQueue = c.lruQueue := by
  unfold dropOld
  split
  next => rfl
  next => rfl

theorem maxSize_dropOld (c : MemoryCache) (key : String) :
    (c.dropOld key).maxSize = c.maxSize := by
  unfold dropOld
  split
  next => rfl
  next => rfl

theorem maxSize_evictLoop (size turns : Nat) : ∀ c : MemoryCache,
    (evictLoop size turns c).maxSize = c.maxSize := by
  induction turns with
  | zero => exact fun _ => rfl
  | succ turns ih =>
    intro c
    unfold evictLoop
    split
    next => exact (ih c.evictOne).trans c.maxSize_evictOne
    next => rfl

theorem maxSize_put (c : MemoryCache) (key : String) (value : List UInt8) :
    (c.put key value).maxSize = c.maxSize := by
  unfold put
  split
  next => rfl
  next => exact (maxSize_evictLoop _ _ _).trans (c.maxSize_dropOld key)

/-! ## The eviction loop ends -/

/-- The bytes of all values. -/
def total (data : AList fun _ : String => List UInt8) : Nat :=
  (data.entries.map (·.2.length)).sum

theorem total_erase {data : AList fun _ : String => List UInt8} (h : data.lookup key = some value) :
    total data = value.length + total (data.erase key) :=
  @weigh_erase _ _ _ List.length data key value h

/-- Every cached key is queued, and the current size is that of all values. -/
structure Valid (c : MemoryCache) : Prop where
  queued : ∀ key ∈ c.data, key ∈ c.lruQueue
  counted : c.currentSize = total c.data

theorem valid_new (maxSize : Nat) : (new maxSize).Valid :=
  ⟨fun _ h => absurd h (AList.notMem_empty _), rfl⟩

/-- An entry goes, and with it maybe its key from the queue. -/
theorem Valid.erase (h : c.Valid) (hkey : c.data.lookup key = some value) {queue : List String}
    (hqueue : ∀ k, k ∈ c.lruQueue → k ≠ key → k ∈ queue) :
    { c with
      data := c.data.erase key
      lruQueue := queue
      currentSize := c.currentSize - value.length }.Valid where
  queued k hk := by
    obtain ⟨hne, hmem⟩ := AList.mem_erase.mp hk
    exact hqueue k (h.queued k hmem) hne
  counted := by
    have htotal := total_erase hkey
    have hcounted := h.counted
    dsimp only
    omega

theorem Valid.evictOne (h : c.Valid) : c.evictOne.Valid := by
  unfold MemoryCache.evictOne
  split
  next => exact h
  next key queue hqueue =>
    have hrest : ∀ k, k ∈ c.lruQueue → k ≠ key → k ∈ queue := by
      intro k hk hne
      rw [hqueue] at hk
      exact (List.mem_cons.mp hk).resolve_left hne
    split
    next value hkey => exact h.erase hkey hrest
    next hnone =>
      refine ⟨fun k hk => hrest k (h.queued k hk) ?_, h.counted⟩
      rintro rfl
      exact AList.lookup_eq_none.mp hnone hk

theorem Valid.dropOld (h : c.Valid) (key : String) : (c.dropOld key).Valid := by
  unfold MemoryCache.dropOld
  split
  next value hkey => exact h.erase hkey fun _ hk _ => hk
  next => exact h

theorem Valid.remove (h : c.Valid) (key : String) : (c.remove key).Valid := by
  unfold MemoryCache.remove
  split
  next value hkey =>
    exact h.erase hkey fun k hk hne => List.mem_filter.mpr ⟨hk, decide_eq_true hne⟩
  next => exact h

theorem length_evictOne (c : MemoryCache) :
    c.evictOne.lruQueue.length = c.lruQueue.length - 1 := by
  unfold evictOne
  split
  next h => rw [h]; rfl
  next h =>
    rw [h]
    split
    next => rfl
    next => rfl

/-- With nothing queued, nothing is cached. -/
theorem Valid.currentSize_eq_zero (h : c.Valid) (hqueue : c.lruQueue = []) :
    c.currentSize = 0 := by
  rw [h.counted, total]
  cases hentries : c.data.entries with
  | nil => rfl
  | cons e entries =>
    have hmem : e.1 ∈ c.data := by
      show e.1 ∈ c.data.entries.keys
      rw [hentries]
      exact List.mem_cons_self ..
    have hqueued := h.queued _ hmem
    rw [hqueue] at hqueued
    cases hqueued

/-- The loop keeps the cache valid. -/
theorem Valid.evictLoop (size turns : Nat) : ∀ c : MemoryCache, c.Valid →
    (evictLoop size turns c).Valid := by
  induction turns with
  | zero => exact fun _ h => h
  | succ turns ih =>
    intro c h
    unfold MemoryCache.evictLoop
    split
    next => exact ih _ h.evictOne
    next => exact h

/-- As many turns as keys are queued make room for any value that fits at all. -/
theorem evictLoop_room {size : Nat} (turns : Nat) : ∀ c : MemoryCache, c.Valid →
    size ≤ c.maxSize → c.lruQueue.length ≤ turns →
    (evictLoop size turns c).currentSize + size ≤ c.maxSize := by
  induction turns with
  | zero =>
    intro c h hsize hturns
    have hempty := h.currentSize_eq_zero (List.eq_nil_of_length_eq_zero (Nat.le_zero.mp hturns))
    rw [evictLoop, hempty, Nat.zero_add]
    exact hsize
  | succ turns ih =>
    intro c h hsize hturns
    unfold evictLoop
    split
    next =>
      have hmax := c.maxSize_evictOne
      have hlength := c.length_evictOne
      have hroom := ih c.evictOne h.evictOne (by omega) (by omega)
      omega
    next hroom => omega

/-- A write keeps it valid. -/
theorem Valid.put (h : c.Valid) (key : String) (value : List UInt8) :
    (c.put key value).Valid := by
  unfold MemoryCache.put
  split
  next => exact h
  next =>
    have hloop := (h.dropOld key).evictLoop value.length c.lruQueue.length
    have hgone : key ∉ (MemoryCache.evictLoop value.length c.lruQueue.length (c.dropOld key)).data := by
      refine AList.lookup_eq_none.mp ?_
      have hdropped : (c.dropOld key).data.lookup key = none := by
        unfold MemoryCache.dropOld
        split
        next => exact AList.lookup_erase ..
        next hnone => exact hnone
      rcases evictLoop_sub value.length c.lruQueue.length (c.dropOld key) key with hsame | hnone
      · exact hsame.trans hdropped
      · exact hnone
    constructor
    · intro k hk
      rcases (AList.mem_insert _).mp hk with rfl | hk
      · exact List.mem_append_right _ (List.mem_singleton_self _)
      · exact List.mem_append_left _ (hloop.queued k hk)
    · dsimp only
      rw [total, AList.entries_insert_of_notMem hgone, List.map_cons, List.sum_cons,
        hloop.counted, total]
      exact Nat.add_comm _ _

/-- A read keeps it valid. -/
theorem Valid.get (h : c.Valid) (key : String) : (c.get key).1.Valid := by
  unfold MemoryCache.get
  split
  next =>
    refine ⟨fun k hk => ?_, h.counted⟩
    by_cases hkey : k = key
    · exact List.mem_append_right _ (List.mem_singleton.mpr hkey)
    · exact List.mem_append_left _ (List.mem_filter.mpr ⟨h.queued k hk, decide_eq_true hkey⟩)
  next => exact h

theorem Valid.foldl_remove (h : c.Valid) (keys : List String) :
    (keys.foldl MemoryCache.remove c).Valid := by
  induction keys generalizing c with
  | nil => exact h
  | cons key keys ih => exact ih (h.remove key)

theorem Valid.evictColdEntries (h : c.Valid) (cold : String → Bool) :
    (c.evictColdEntries cold).Valid := h.foldl_remove _

/-- `put` leaves its loop with room for the value. -/
theorem Valid.currentSize_put_le (h : c.Valid) {key : String} {value : List UInt8}
    (hsize : value.length ≤ c.maxSize) : (c.put key value).currentSize ≤ c.maxSize := by
  have hqueue := c.lruQueue_dropOld key
  have hmax := c.maxSize_dropOld key
  have hroom := evictLoop_room c.lruQueue.length (c.dropOld key) (h.dropOld key)
    (hmax ▸ hsize) (hqueue ▸ Nat.le_refl _)
  rw [MemoryCache.put, if_neg (Nat.not_lt.mpr hsize)]
  exact hmax ▸ hroom

end MemoryCache

end InterBit.Storage
