import InterBit.Storage.MemoryCache

/-!
# The books of the L1 cache

`storage/cache.rs` with the map `access_count`, with subtractions that can underflow, and with a
loop in `put` that can go on for ever: all operations here may have no result.
`run_accounted`: none of this happens, after any sequence of calls. The books are kept in step by
`Accounted`, and in the loop of `put`, where the new key may be counted before it is stored again,
by `AccessedBut`.

When an entry was accessed last decides which ones are cold; that choice is an argument. Sizes are
natural numbers: the values that a cache holds and the one it is given are in memory together, so
that the sum of their lengths is a `usize`.
-/

namespace InterBit.Storage

open InterBit.Lib

/-- `struct MemoryCache` with the map `access_count`. -/
structure TrackedCache extends MemoryCache where
  accessCount : AList fun _ : String => Nat

/-- `-=` on `usize`; `none` is an underflow. -/
def subSize (a b : Nat) : Option Nat := if b ≤ a then some (a - b) else none

namespace TrackedCache

/-- `MemoryCache::new`. -/
def new (maxSize : Nat) : TrackedCache := { MemoryCache.new maxSize with accessCount := ∅ }

/-- `get`. -/
def get (c : TrackedCache) (key : String) : TrackedCache × Option (List UInt8) :=
  match c.data.lookup key with
  | some value =>
    ({ c with
        lruQueue := c.lruQueue.filter (· ≠ key) ++ [key]
        accessCount := c.accessCount.insert key ((c.accessCount.lookup key).getD 0 + 1) },
      some value)
  | none => (c, none)

/-- `evict_one`. -/
def evictOne (c : TrackedCache) : Option TrackedCache :=
  match c.lruQueue with
  | [] => some c
  | key :: queue =>
    match c.data.lookup key with
    | some value => do
      let currentSize ← subSize c.currentSize value.length
      some { c with
        data := c.data.erase key, lruQueue := queue, currentSize
        accessCount := c.accessCount.erase key }
    | none => some { c with lruQueue := queue }

/-- The loop of `put` that makes room. Each turn takes a key off the queue; with none left, a turn
changes nothing, and the loop goes on for ever. -/
def makeRoom (size : Nat) : Nat → TrackedCache → Option TrackedCache
  | 0, c => if c.maxSize < c.currentSize + size then none else some c
  | queued + 1, c =>
    if c.maxSize < c.currentSize + size then do makeRoom size queued (← c.evictOne) else some c

/-- What `put` does first with the old value of the key. -/
def dropOld (c : TrackedCache) (key : String) : Option TrackedCache :=
  match c.data.lookup key with
  | some value => do
    let currentSize ← subSize c.currentSize value.length
    some { c with data := c.data.erase key, currentSize }
  | none => some c

/-- `put`. -/
def put (c : TrackedCache) (key : String) (value : List UInt8) : Option TrackedCache :=
  if c.maxSize < value.length then some c
  else do
    let c ← c.dropOld key
    let c ← makeRoom value.length c.lruQueue.length c
    some { c with
      data := c.data.insert key value
      currentSize := c.currentSize + value.length
      lruQueue := c.lruQueue ++ [key] }

/-- `remove`. -/
def remove (c : TrackedCache) (key : String) : Option TrackedCache :=
  match c.data.lookup key with
  | some value => do
    let currentSize ← subSize c.currentSize value.length
    some { c with
      data := c.data.erase key, currentSize
      lruQueue := c.lruQueue.filter (· ≠ key)
      accessCount := c.accessCount.erase key }
  | none => some c

/-- The second loop of `evict_cold_entries`, for one key. -/
def dropCold (c : TrackedCache) (entry : Sigma fun _ : String => List UInt8) : TrackedCache :=
  { c with
    data := c.data.erase entry.1
    lruQueue := c.lruQueue.filter (· ≠ entry.1)
    accessCount := c.accessCount.erase entry.1 }

/-- `evict_cold_entries`. -/
def evictColdEntries (c : TrackedCache) (cold : String → Bool) : Option TrackedCache := do
  let toRemove := c.data.entries.filter fun entry => cold entry.1
  let currentSize ←
    toRemove.foldlM (fun size entry => subSize size entry.2.length) c.currentSize
  some (toRemove.foldl dropCold { c with currentSize })

/-- `batch_put`. -/
def batchPut (c : TrackedCache) (items : List (String × List UInt8)) : Option TrackedCache :=
  items.foldlM (fun c item => c.put item.1 item.2) c

/-- `clear`. -/
def clear (c : TrackedCache) : TrackedCache :=
  { c with data := ∅, lruQueue := [], accessCount := ∅, currentSize := 0 }

/-- A call. -/
inductive Call where
  | put (key : String) (value : List UInt8)
  | get (key : String)
  | remove (key : String)
  | batchPut (items : List (String × List UInt8))
  | evictColdEntries (cold : String → Bool)
  | clear

/-- The cache after a call. -/
def call (c : TrackedCache) : Call → Option TrackedCache
  | .put key value => c.put key value
  | .get key => some (c.get key).1
  | .remove key => c.remove key
  | .batchPut items => c.batchPut items
  | .evictColdEntries cold => c.evictColdEntries cold
  | .clear => some c.clear

/-- The cache after a sequence of calls. -/
def run (c : TrackedCache) (calls : List Call) : Option TrackedCache := calls.foldlM call c

/-- What the four structures have to do with each other. -/
structure Accounted (maxSize : Nat) (c : TrackedCache) : Prop where
  valid : c.toMemoryCache.Valid
  limited : c.maxSize = maxSize
  bounded : c.currentSize ≤ maxSize
  accessed : ∀ key ∈ c.accessCount, key ∈ c.data

/-- All counted keys but maybe one are stored. -/
def AccessedBut (key : String) (c : TrackedCache) : Prop :=
  ∀ k ∈ c.accessCount, k ∈ c.data ∨ k = key

theorem accounted_new (maxSize : Nat) : (new maxSize).Accounted maxSize where
  valid := MemoryCache.valid_new maxSize
  limited := rfl
  bounded := Nat.zero_le maxSize
  accessed _ h := absurd h (AList.notMem_empty _)

section Calls

variable {maxSize : Nat} {c : TrackedCache}

/-- What is stored is counted in the size. -/
theorem subSize_eq (h : c.toMemoryCache.Valid) {key : String} {value : List UInt8}
    (hkey : c.data.lookup key = some value) :
    subSize c.currentSize value.length = some (c.currentSize - value.length) := by
  refine if_pos ?_
  rw [h.counted, MemoryCache.total_erase hkey]
  exact Nat.le_add_right ..

/-- A read that finds its key counts it as accessed. -/
theorem Accounted.get (h : c.Accounted maxSize) (key : String) :
    (c.get key).1.Accounted maxSize := by
  have hvalid := h.valid.get key
  unfold TrackedCache.get
  unfold MemoryCache.get at hvalid
  match hkey : c.data.lookup key with
  | none => exact h
  | some value =>
    rw [hkey] at hvalid
    refine ⟨hvalid, h.limited, h.bounded, fun k hk => ?_⟩
    rcases (AList.mem_insert _).mp hk with rfl | hk
    · exact AList.lookup_isSome.mp (by rw [hkey]; rfl)
    · exact h.accessed k hk

/-- An entry goes from all four structures. -/
theorem Accounted.dropCold (h : c.Accounted maxSize) {entry : Sigma fun _ : String => List UInt8}
    (hkey : c.data.lookup entry.1 = some entry.2) :
    Accounted maxSize { c.dropCold entry with currentSize := c.currentSize - entry.2.length } where
  valid := h.valid.erase hkey fun _ hk hne => List.mem_filter.mpr ⟨hk, decide_eq_true hne⟩
  limited := h.limited
  bounded := Nat.le_trans (Nat.sub_le ..) h.bounded
  accessed k hk := by
    obtain ⟨hne, hmem⟩ := AList.mem_erase.mp hk
    exact AList.mem_erase.mpr ⟨hne, h.accessed k hmem⟩

theorem Accounted.remove (h : c.Accounted maxSize) (key : String) :
    ∃ c', c.remove key = some c' ∧ c'.Accounted maxSize := by
  unfold TrackedCache.remove
  split
  next value hkey =>
    rw [subSize_eq h.valid hkey]
    exact ⟨_, rfl, @Accounted.dropCold maxSize c h ⟨key, value⟩ hkey⟩
  next => exact ⟨c, rfl, h⟩

theorem Accounted.clear (h : c.Accounted maxSize) : c.clear.Accounted maxSize where
  valid := ⟨fun _ h => absurd h (AList.notMem_empty _), rfl⟩
  limited := h.limited
  bounded := Nat.zero_le maxSize
  accessed _ h := absurd h (AList.notMem_empty _)

/-- The first loop of `evict_cold_entries` takes off what the entries that the second one drops
are counted with. -/
theorem Accounted.dropColds (entries : List (Sigma fun _ : String => List UInt8)) :
    ∀ {c : TrackedCache}, c.Accounted maxSize → entries.NodupKeys →
      (∀ entry ∈ entries, c.data.lookup entry.1 = some entry.2) →
      ∃ size, entries.foldlM (fun size entry => subSize size entry.2.length) c.currentSize =
          some size ∧
        (entries.foldl TrackedCache.dropCold { c with currentSize := size }).Accounted maxSize := by
  induction entries with
  | nil => exact fun h _ _ => ⟨_, rfl, h⟩
  | cons entry entries ih =>
    intro c h hnodup hentries
    obtain ⟨hnew, hrest⟩ := List.nodupKeys_cons.mp hnodup
    have hkey := hentries entry (List.mem_cons_self ..)
    have hothers : ∀ e ∈ entries, (c.data.erase entry.1).lookup e.1 = some e.2 := by
      intro e he
      have hne : e.1 ≠ entry.1 := fun heq => hnew (heq ▸ List.mem_keys_of_mem he)
      rw [AList.lookup_erase_ne hne]
      exact hentries e (List.mem_cons_of_mem _ he)
    obtain ⟨size, hsize, haccounted⟩ := ih (h.dropCold hkey) hrest hothers
    refine ⟨size, ?_, haccounted⟩
    rw [List.foldlM_cons, subSize_eq h.valid hkey]
    exact hsize

theorem Accounted.evictColdEntries (h : c.Accounted maxSize) (cold : String → Bool) :
    ∃ c', c.evictColdEntries cold = some c' ∧ c'.Accounted maxSize := by
  have hnodup : (c.data.entries.filter fun entry => cold entry.1).NodupKeys :=
    c.data.nodupKeys.sublist List.filter_sublist
  obtain ⟨size, hsize, haccounted⟩ := Accounted.dropColds _ h hnodup fun entry hentry =>
    AList.mem_lookup_iff.mpr (List.mem_of_mem_filter hentry)
  refine ⟨_, ?_, haccounted⟩
  rw [TrackedCache.evictColdEntries, hsize]
  rfl

/-! ## The loop of `put` -/

/-- A turn of the loop is one of the plain cache, and does not underflow. -/
theorem evictOne_spec (h : c.toMemoryCache.Valid) {key : String} (haccessed : c.AccessedBut key) :
    ∃ c', c.evictOne = some c' ∧ c'.toMemoryCache = c.toMemoryCache.evictOne ∧
      c'.AccessedBut key := by
  unfold evictOne MemoryCache.evictOne
  cases c.lruQueue with
  | nil => exact ⟨c, rfl, rfl, haccessed⟩
  | cons first queue =>
    dsimp only
    cases hfirst : c.data.lookup first with
    | none => exact ⟨_, rfl, rfl, haccessed⟩
    | some value =>
      dsimp only
      rw [subSize_eq h hfirst]
      refine ⟨_, rfl, rfl, fun k hk => ?_⟩
      obtain ⟨hne, hmem⟩ := AList.mem_erase.mp hk
      exact (haccessed k hmem).imp_left fun hdata => AList.mem_erase.mpr ⟨hne, hdata⟩

/-- The loop ends, with the cache of `MemoryCache.evictLoop`. -/
theorem makeRoom_spec {size : Nat} {key : String} (queued : Nat) : ∀ {c : TrackedCache},
    c.toMemoryCache.Valid → c.AccessedBut key → size ≤ c.maxSize → c.lruQueue.length ≤ queued →
    ∃ c', makeRoom size queued c = some c' ∧
      c'.toMemoryCache = MemoryCache.evictLoop size queued c.toMemoryCache ∧
      c'.AccessedBut key := by
  induction queued with
  | zero =>
    intro c h haccessed hsize hqueue
    have hempty := h.currentSize_eq_zero (List.eq_nil_of_length_eq_zero (Nat.le_zero.mp hqueue))
    refine ⟨c, if_neg ?_, rfl, haccessed⟩
    rw [hempty, Nat.zero_add]
    exact Nat.not_lt.mpr hsize
  | succ queued ih =>
    intro c h haccessed hsize hqueue
    unfold makeRoom MemoryCache.evictLoop
    split
    next =>
      obtain ⟨c', hturn, hplain, haccessed'⟩ := evictOne_spec h haccessed
      have hlength := c.toMemoryCache.length_evictOne
      have hmax := c.toMemoryCache.maxSize_evictOne
      rw [← hplain] at hlength hmax
      rw [hturn, ← hplain]
      exact ih (hplain ▸ h.evictOne) haccessed' (by omega) (by omega)
    next => exact ⟨c, rfl, rfl, haccessed⟩

theorem dropOld_spec (h : c.Accounted maxSize) (key : String) :
    ∃ c', c.dropOld key = some c' ∧ c'.toMemoryCache = c.toMemoryCache.dropOld key ∧
      c'.AccessedBut key := by
  unfold dropOld MemoryCache.dropOld
  cases hkey : c.data.lookup key with
  | none => exact ⟨c, rfl, rfl, fun k hk => Or.inl (h.accessed k hk)⟩
  | some value =>
    dsimp only
    rw [subSize_eq h.valid hkey]
    refine ⟨_, rfl, rfl, fun k hk => ?_⟩
    by_cases hk' : k = key
    · exact Or.inr hk'
    · exact Or.inl (AList.mem_erase.mpr ⟨hk', h.accessed k hk⟩)

/-- `put` is that of the plain cache. -/
theorem Accounted.put_spec (h : c.Accounted maxSize) {key : String} {value : List UInt8}
    (hsize : value.length ≤ c.maxSize) :
    ∃ c', c.put key value = some c' ∧ c'.toMemoryCache = c.toMemoryCache.put key value ∧
      ∀ k ∈ c'.accessCount, k ∈ c'.data := by
  obtain ⟨c₁, hdrop, hplain₁, haccessed₁⟩ := dropOld_spec h key
  have hqueue := c.toMemoryCache.lruQueue_dropOld key
  have hmax := c.toMemoryCache.maxSize_dropOld key
  rw [← hplain₁] at hqueue hmax
  obtain ⟨c₂, hroom, hplain₂, haccessed₂⟩ := makeRoom_spec c₁.lruQueue.length
    (hplain₁ ▸ h.valid.dropOld key) haccessed₁ (hmax ▸ hsize) (Nat.le_refl _)
  rw [hplain₁, MemoryCache.lruQueue_dropOld] at hplain₂
  refine ⟨{ c₂ with
    data := c₂.data.insert key value
    currentSize := c₂.currentSize + value.length
    lruQueue := c₂.lruQueue ++ [key] }, ?_, ?_, fun k hk => ?_⟩
  · rw [put, if_neg (Nat.not_lt.mpr hsize), hdrop]
    show (makeRoom value.length c₁.lruQueue.length c₁).bind _ = _
    rw [hroom]
    rfl
  · rw [MemoryCache.put, if_neg (Nat.not_lt.mpr hsize), ← hplain₂]
  · rcases haccessed₂ k hk with hdata | rfl
    · exact (AList.mem_insert _).mpr (Or.inr hdata)
    · exact (AList.mem_insert _).mpr (Or.inl rfl)

/-- A write evicts until there is room, and adds the bytes. -/
theorem Accounted.put (h : c.Accounted maxSize) (key : String) (value : List UInt8) :
    ∃ c', c.put key value = some c' ∧ c'.Accounted maxSize := by
  by_cases hsize : c.maxSize < value.length
  · exact ⟨c, if_pos hsize, h⟩
  · have hfits := Nat.le_of_not_lt hsize
    obtain ⟨c', hput, hplain, haccessed⟩ := h.put_spec hfits
    have hvalid := h.valid.put key value
    have hbounded := @MemoryCache.Valid.currentSize_put_le _ h.valid key value hfits
    have hmax := c.toMemoryCache.maxSize_put key value
    rw [← hplain] at hvalid hbounded hmax
    exact ⟨c', hput, hvalid, hmax.trans h.limited, h.limited ▸ hbounded, haccessed⟩

/-- A batch is a sequence of writes. -/
theorem Accounted.batchPut (items : List (String × List UInt8)) : ∀ {c : TrackedCache},
    c.Accounted maxSize → ∃ c', c.batchPut items = some c' ∧ c'.Accounted maxSize := by
  induction items with
  | nil => exact fun h => ⟨_, rfl, h⟩
  | cons item items ih =>
    intro c h
    obtain ⟨c₁, hput, h₁⟩ := h.put item.1 item.2
    obtain ⟨c₂, hrest, h₂⟩ := ih h₁
    refine ⟨c₂, ?_, h₂⟩
    rw [TrackedCache.batchPut, List.foldlM_cons, hput]
    exact hrest

/-! ## A run -/

/-- No call panics, and each keeps the account. -/
theorem Accounted.call (h : c.Accounted maxSize) (call : Call) :
    ∃ c', c.call call = some c' ∧ c'.Accounted maxSize := by
  cases call with
  | put key value => exact h.put key value
  | get key => exact ⟨_, rfl, h.get key⟩
  | remove key => exact h.remove key
  | batchPut items => exact h.batchPut items
  | evictColdEntries cold => exact h.evictColdEntries cold
  | clear => exact ⟨_, rfl, h.clear⟩

theorem Accounted.run (calls : List Call) : ∀ {c : TrackedCache},
    c.Accounted maxSize → ∃ c', c.run calls = some c' ∧ c'.Accounted maxSize := by
  induction calls with
  | nil => exact fun h => ⟨_, rfl, h⟩
  | cons call calls ih =>
    intro c h
    obtain ⟨c₁, hcall, h₁⟩ := h.call call
    obtain ⟨c₂, hrest, h₂⟩ := ih h₁
    refine ⟨c₂, ?_, h₂⟩
    rw [TrackedCache.run, List.foldlM_cons, hcall]
    exact hrest

end Calls

/-- No sequence of calls underflows or hangs, and after each of them the books are in order. -/
theorem run_accounted (maxSize : Nat) (calls : List Call) :
    ∃ c, (new maxSize).run calls = some c ∧
      c.currentSize = (c.data.entries.map (·.2.length)).sum ∧ c.currentSize ≤ maxSize ∧
      (∀ key ∈ c.data, key ∈ c.lruQueue) ∧ ∀ key ∈ c.accessCount, key ∈ c.data := by
  obtain ⟨c, hrun, h⟩ := (accounted_new maxSize).run calls
  exact ⟨c, hrun, h.valid.counted, h.bounded, h.valid.queued, h.accessed⟩

end TrackedCache

end InterBit.Storage
