import InterBit.Lib.ByteMemory
import InterBit.Lib.Run
import InterBit.Optimization.RingBuffer

/-!
# The arena

`Arena` of `optimization/memory_pool.rs`. An address is a number, and where a new chunk stands is an
argument. `none` is a panic; a sum or a difference that is out of range panics or wraps around, as
the build has it. The bytes of a chunk are those that its vector has; up to the capacity the vector
grows without being moved.

`allocate` rounds up with a mask that is meant for powers of two. With overflow checks a request
that the mask cannot serve panics. Without them some such requests come through: the alignment 0
gives the offset 0 every time. So for these builds a request is one that a `Layout` could make
(`Asks`), and then no number wraps around (`ArenaChunk.exists_of_place`).

`Holder` is the arena with the objects that have been allocated since the last `clear`: where each
of them stands and what was last written to it. In `Holder.Sound` the chunks are apart, and each
object is kept by a chunk, apart from the others.
-/

namespace InterBit.Optimization

open InterBit.Lib

/-- `!a` on `usize`. -/
def notUsize (a : Nat) : Nat := 2 ^ 64 - 1 - a

/-! ## The code -/

/-- `struct ArenaChunk`; the vector `memory` stands at `base`. -/
structure ArenaChunk where
  base : Nat
  memory : List UInt8
  capacity : Nat
  used : Nat

/-- `struct Arena`. -/
structure Arena where
  chunks : List ArenaChunk
  currentChunk : Option ArenaChunk
  chunkSize : Nat

/-- `struct ArenaStats`, without the utilization, which is a float. -/
structure ArenaStats where
  chunksCount : Nat
  totalAllocated : Nat
  totalUsed : Nat
  deriving DecidableEq

namespace ArenaChunk

/-- `Vec::with_capacity`, which reserves `capacity` bytes or more. -/
def withCapacity (base capacity : Nat) : ArenaChunk := ⟨base, [], capacity, 0⟩

/-- The offset of the next object and where it ends, if it fits. -/
def place (build : Build) (chunk : ArenaChunk) (size align : Nat) :
    Option (Option (Nat × Nat)) := do
  let sum ← build.addUsize chunk.used align
  let top ← build.subUsize sum 1
  let mask ← build.subUsize align 1
  let offset := top &&& notUsize mask
  let last ← build.addUsize offset size
  some (if last ≤ chunk.capacity then some (offset, last) else none)

/-- The chunk with the next object, which ends at `last`. -/
def extend (chunk : ArenaChunk) (last : Nat) : ArenaChunk :=
  { chunk with
    memory :=
      if chunk.memory.length < last then
        chunk.memory ++ List.replicate (last - chunk.memory.length) 0
      else chunk.memory
    used := last }

/-- The chunk when something has been written through a pointer. -/
def write (chunk : ArenaChunk) (ptr : Nat) (data : List UInt8) : ArenaChunk :=
  { chunk with memory := Lib.store chunk.base chunk.memory ptr data }

end ArenaChunk

namespace Arena

/-- `Arena::new`. -/
def new (chunkSize base capacity : Nat) : Arena :=
  ⟨[], some (.withCapacity base capacity), chunkSize⟩

/-- A new chunk becomes the current one. -/
def grow (arena : Arena) (size base : Nat) : Option (Nat × Arena) :=
  let capacity := max size arena.chunkSize
  if 2 ^ 63 ≤ capacity then none
  else
    let chunk : ArenaChunk :=
      { base, memory := List.replicate capacity 0, capacity, used := size }
    some (base, { arena with
      chunks := arena.chunks ++ arena.currentChunk.toList
      currentChunk := some chunk })

/-- `allocate`. -/
def allocate (build : Build) (arena : Arena) (size align base : Nat) :
    Option (Nat × Arena) := do
  match arena.currentChunk with
  | some chunk =>
    match ← chunk.place build size align with
    | some (offset, last) =>
      some (chunk.base + offset, { arena with currentChunk := some (chunk.extend last) })
    | none => arena.grow size base
  | none => arena.grow size base

/-- All chunks. -/
def all (arena : Arena) : List ArenaChunk := arena.chunks ++ arena.currentChunk.toList

/-- What is written through a pointer. -/
def store (arena : Arena) (ptr : Nat) (data : List UInt8) : Arena :=
  { arena with
    chunks := arena.chunks.map fun chunk => chunk.write ptr data
    currentChunk := arena.currentChunk.map fun chunk => chunk.write ptr data }

/-- What is read through a pointer. -/
def load (arena : Arena) (ptr size : Nat) : Option (List UInt8) := do
  let chunk ← arena.all.find? fun chunk =>
    Span.Within ⟨ptr, size⟩ ⟨chunk.base, chunk.memory.length⟩
  some (Lib.load chunk.base chunk.memory ptr size)

/-- `allocate_copy` of the bytes of a value. -/
def allocateCopy (build : Build) (arena : Arena) (value : List UInt8) (align base : Nat) :
    Option (Nat × Arena) := do
  let (ptr, arena) ← arena.allocate build value.length align base
  some (ptr, arena.store ptr value)

/-- `clear`. -/
def clear (arena : Arena) (base capacity : Nat) : Arena :=
  { arena with chunks := [], currentChunk := some (.withCapacity base capacity) }

/-- `stats`. -/
def stats (build : Build) (arena : Arena) : Option ArenaStats := do
  let totalAllocated ← (arena.all.map ArenaChunk.capacity).foldlM build.addUsize 0
  let totalUsed ← (arena.all.map ArenaChunk.used).foldlM build.addUsize 0
  let chunksCount := arena.chunks.length + if arena.currentChunk.isSome then 1 else 0
  some { chunksCount, totalAllocated, totalUsed }

end Arena

/-! ## Rounding up -/

/-- What a mask takes away and what it leaves. -/
theorem land_add_land_notUsize {x mask : Nat} (hx : x < 2 ^ 64) (hmask : mask < 2 ^ 64) :
    (x &&& mask) + (x &&& notUsize mask) = x := by
  let a := BitVec.ofNat 64 x
  let b := BitVec.ofNat 64 mask
  have ha : a.toNat = x := Nat.mod_eq_of_lt hx
  have hb : b.toNat = mask := Nat.mod_eq_of_lt hmask
  have hbits : (a &&& b) &&& (a &&& ~~~b) = 0#64 := by
    ext i
    simp only [BitVec.getElem_and, BitVec.getElem_not, BitVec.getElem_zero]
    cases a[i] <;> cases b[i] <;> rfl
  have hsum := BitVec.toNat_add_of_and_eq_zero hbits
  rw [BitVec.add_eq_or_of_and_eq_zero _ _ hbits, ← BitVec.and_or_distrib_left, BitVec.or_not_self,
    BitVec.and_allOnes, BitVec.toNat_and, BitVec.toNat_and, BitVec.toNat_not, ha, hb] at hsum
  exact hsum.symm

/-- What a `Layout` allows: the alignment is a power of two, and there are at most `isize::MAX`
bytes. -/
def IsLayout (size align : Nat) : Prop := (∃ k < 64, align = 2 ^ k) ∧ size < 2 ^ 63

instance (size align : Nat) : Decidable (IsLayout size align) :=
  inferInstanceAs (Decidable (_ ∧ _))

/-- Without overflow checks the request is one that a `Layout` allows. -/
def Asks (build : Build) (size align : Nat) : Prop :=
  build.overflowChecks = true ∨ IsLayout size align

instance (build : Build) (size align : Nat) : Decidable (Asks build size align) :=
  inferInstanceAs (Decidable (_ ∨ _))

/-- Rounded up to a power of two, a number stays below the powers that it is below. -/
theorem round_le {used k : Nat} (hk : k < 64) (hused : used < 2 ^ 63) :
    2 ^ k * ((used + 2 ^ k - 1) / 2 ^ k) ≤ 2 ^ 63 := by
  have hpow : 2 ^ k * 2 ^ (63 - k) = 2 ^ 63 := by
    rw [← Nat.pow_add]
    congr 1
    omega
  have hdiv : (used + 2 ^ k - 1) / 2 ^ k ≤ 2 ^ (63 - k) := by
    have hpos := Nat.two_pow_pos k
    refine Nat.le_of_lt_succ (Nat.div_lt_of_lt_mul ?_)
    rw [Nat.mul_succ, hpow]
    omega
  exact Nat.le_trans (Nat.mul_le_mul_left _ hdiv) (Nat.le_of_eq hpow)

/-- The offset of an object is the first one from `used` on that the rounding gives. -/
theorem ArenaChunk.exists_of_place {build : Build} {chunk : ArenaChunk} {size align : Nat}
    {found : Option (Nat × Nat)} (h : chunk.place build size align = some found)
    (hasks : Asks build size align) (hused : chunk.used < 2 ^ 63) :
    ∃ offset, chunk.used ≤ offset ∧ offset < chunk.used + align ∧
      (∀ k, align = 2 ^ k → offset % align = 0) ∧
      found = if offset + size ≤ chunk.capacity then some (offset, offset + size) else none := by
  simp only [place, Option.bind_eq_bind, Option.bind_eq_some_iff, Option.some.injEq] at h
  obtain ⟨sum, hsum, top, htop, mask, hmask, last, hlast, rfl⟩ := h
  have hpower : ∀ {k}, k < 64 → 0 < 2 ^ k ∧ 2 ^ k ≤ 2 ^ 63 := fun hk =>
    ⟨Nat.two_pow_pos _, Nat.pow_le_pow_right (by decide) (by omega)⟩
  -- neither the sum nor one of the differences wraps around
  obtain ⟨hsumlt, rfl⟩ := Build.addUsize_eq_some hsum <| hasks.imp_right fun ⟨hpow, _⟩ => by
    obtain ⟨k, hk, rfl⟩ := hpow
    have := hpower hk
    omega
  obtain ⟨hpos, rfl⟩ := Build.subUsize_eq_some hmask (hasks.imp_right fun ⟨hpow, _⟩ => by
    obtain ⟨k, hk, rfl⟩ := hpow
    exact (hpower hk).1) (by omega)
  obtain ⟨-, rfl⟩ := Build.subUsize_eq_some htop (.inr (by omega)) hsumlt
  have hbits : (chunk.used + align - 1 &&& align - 1) ≤ align - 1 := Nat.and_le_right
  have hland : (chunk.used + align - 1 &&& align - 1)
      + (chunk.used + align - 1 &&& notUsize (align - 1)) = chunk.used + align - 1 :=
    land_add_land_notUsize (by omega) (by omega)
  have hround : ∀ k, align = 2 ^ k → (chunk.used + align - 1 &&& notUsize (align - 1))
      = 2 ^ k * ((chunk.used + 2 ^ k - 1) / 2 ^ k) := by
    intro k hk
    rw [hk] at hland ⊢
    rw [Nat.and_two_pow_sub_one_eq_mod] at hland
    have hdiv := Nat.div_add_mod (chunk.used + 2 ^ k - 1) (2 ^ k)
    omega
  -- nor does the end of the object
  obtain ⟨-, rfl⟩ := Build.addUsize_eq_some hlast <| hasks.imp_right fun ⟨hpow, hsize⟩ => by
    obtain ⟨k, hk, halign⟩ := hpow
    rw [hround k halign]
    have := round_le hk hused
    omega
  refine ⟨_, ?_, ?_, ?_, rfl⟩
  · omega
  · omega
  · intro k hk
    rw [hround k hk, hk, Nat.mul_mod_right]

/-! ## The invariant -/

/-- An object in the arena, with what was last written to it. -/
structure ArenaObject where
  ptr : Nat
  data : List UInt8
  align : Nat
  deriving DecidableEq

/-- The bytes of an object. -/
def ArenaObject.span (object : ArenaObject) : Span := ⟨object.ptr, object.data.length⟩

/-- Memory that a vector can have: it does not stand at the address 0, it has at most `isize::MAX`
bytes, and it ends below the last address. -/
def Reserves (base capacity : Nat) : Prop :=
  0 < base ∧ capacity < 2 ^ 63 ∧ base + capacity < 2 ^ 64

instance (base capacity : Nat) : Decidable (Reserves base capacity) :=
  inferInstanceAs (Decidable (_ ∧ _ ∧ _))

namespace ArenaChunk

/-- The memory that is reserved for the chunk. -/
def room (chunk : ArenaChunk) : Span := ⟨chunk.base, chunk.capacity⟩

/-- The bytes that are in use or lost to an alignment. -/
def taken (chunk : ArenaChunk) : Span := ⟨chunk.base, chunk.used⟩

/-- What is in use has been written, and the bytes after it are 0. -/
structure Sound (chunk : ArenaChunk) : Prop where
  reserved : Reserves chunk.base chunk.capacity
  written : chunk.used ≤ chunk.memory.length
  fits : chunk.memory.length ≤ chunk.capacity
  blank : ∀ i, chunk.used ≤ i → i < chunk.memory.length → chunk.memory[i]? = some 0

/-- The object stands in the chunk, at a distance of its start that fits its alignment. -/
structure Keeps (chunk : ArenaChunk) (object : ArenaObject) : Prop where
  within : object.span.Within chunk.taken
  holds : Holds chunk.base chunk.memory object.ptr object.data
  aligned : ∀ k, object.align = 2 ^ k → (object.ptr - chunk.base) % object.align = 0

end ArenaChunk

/-- The arena and the objects since the last `clear`. -/
structure Holder where
  arena : Arena
  objects : List ArenaObject

/-- The chunks are apart, and so are the objects, each of which is kept by a chunk. -/
structure Holder.Sound (h : Holder) : Prop where
  chunks : ∀ chunk ∈ h.arena.all, chunk.Sound
  apart : (h.arena.all.map ArenaChunk.room).Pairwise Span.Apart
  kept : ∀ object ∈ h.objects, ∃ chunk ∈ h.arena.all, chunk.Keeps object
  objects : (h.objects.map ArenaObject.span).Pairwise Span.Apart

namespace ArenaChunk

variable {chunk : ArenaChunk} {object : ArenaObject}

theorem Sound.within_room (h : chunk.Sound) {s : Span} (hs : s.Within chunk.taken) :
    s.Within chunk.room := by
  have hwritten := h.written
  have hfits := h.fits
  simp only [Span.Within, taken, room] at hs ⊢
  omega

theorem Keeps.within_room (h : chunk.Keeps object) (hsound : chunk.Sound) :
    object.span.Within chunk.room := hsound.within_room h.within

theorem memory_extend (chunk : ArenaChunk) (last : Nat) :
    (chunk.extend last).memory
      = chunk.memory ++ List.replicate (last - chunk.memory.length) 0 := by
  unfold extend
  dsimp only
  split
  next => rfl
  next hlong =>
    rw [Nat.sub_eq_zero_of_le (Nat.le_of_not_lt hlong), List.replicate_zero, List.append_nil]

/-- All bytes from `used` on are 0, also those that are new. -/
theorem Sound.getElem?_extend {last i : Nat} (h : chunk.Sound) (hused : chunk.used ≤ i)
    (hi : i < (chunk.extend last).memory.length) :
    (chunk.extend last).memory[i]? = some 0 := by
  rw [memory_extend, List.length_append, List.length_replicate] at hi
  rw [memory_extend]
  by_cases hold : i < chunk.memory.length
  · rw [List.getElem?_append_left hold]
    exact h.blank i hused hold
  · rw [List.getElem?_append_right (Nat.le_of_not_lt hold), List.getElem?_replicate,
      if_pos (by omega)]

theorem length_extend (chunk : ArenaChunk) (last : Nat) :
    (chunk.extend last).memory.length = max chunk.memory.length last := by
  rw [memory_extend, List.length_append, List.length_replicate]
  omega

/-- A chunk stays sound when it grows within its capacity. -/
theorem Sound.extend {last : Nat} (h : chunk.Sound) (hused : chunk.used ≤ last)
    (hfits : last ≤ chunk.capacity) : (chunk.extend last).Sound where
  reserved := h.reserved
  written := by
    rw [length_extend]
    exact Nat.le_max_right _ _
  fits := by
    rw [length_extend]
    exact Nat.max_le.mpr ⟨h.fits, hfits⟩
  blank := by
    intro i hi hlt
    exact h.getElem?_extend (Nat.le_trans hused hi) hlt

/-- The next object of a chunk reads 0. -/
theorem Sound.keeps_extend {offset size align : Nat} (h : chunk.Sound)
    (hused : chunk.used ≤ offset) (haligned : ∀ k, align = 2 ^ k → offset % align = 0) :
    (chunk.extend (offset + size)).Keeps ⟨chunk.base + offset, List.replicate size 0, align⟩ := by
  have hlength := length_extend chunk (offset + size)
  refine ⟨⟨Nat.le_add_right _ _, ?_⟩, ⟨⟨Nat.le_add_right _ _, ?_⟩, ?_⟩, ?_⟩
  · show chunk.base + offset + (List.replicate size (0 : UInt8)).length
      ≤ chunk.base + (offset + size)
    rw [List.length_replicate]
    omega
  · show chunk.base + offset + (List.replicate size (0 : UInt8)).length
      ≤ chunk.base + (chunk.extend (offset + size)).memory.length
    rw [List.length_replicate]
    omega
  · intro i hi
    rw [List.length_replicate] at hi
    show (chunk.extend (offset + size)).memory[chunk.base + offset - chunk.base + i]? = _
    rw [h.getElem?_extend (by omega) (by omega), List.getElem?_replicate, if_pos hi]
  · intro k hk
    show (chunk.base + offset - chunk.base) % align = 0
    rw [Nat.add_sub_cancel_left]
    exact haligned k hk

/-- Objects in front of the new room are kept. -/
theorem Keeps.extend {offset size : Nat} (h : chunk.Keeps object) (hused : chunk.used ≤ offset) :
    (chunk.extend (offset + size)).Keeps object := by
  refine ⟨⟨h.within.1, ?_⟩, ?_, h.aligned⟩
  · have hlast : object.span.start + object.span.size ≤ chunk.base + chunk.used := h.within.2
    show object.span.start + object.span.size ≤ chunk.base + (offset + size)
    omega
  · rw [memory_extend]
    exact h.holds.append _

/-- A chunk that is made for an object. -/
theorem sound_fresh {base size capacity : Nat} (hsize : size ≤ capacity)
    (hreserved : Reserves base capacity) :
    Sound ⟨base, List.replicate capacity 0, capacity, size⟩ where
  reserved := hreserved
  written := by
    rw [List.length_replicate]
    exact hsize
  fits := Nat.le_of_eq List.length_replicate
  blank := by
    intro i _ hi
    rw [List.length_replicate] at hi
    rw [List.getElem?_replicate, if_pos hi]

/-- A chunk made for one object keeps it, all zeros. -/
theorem keeps_fresh {base size capacity align : Nat} (hsize : size ≤ capacity) :
    Keeps ⟨base, List.replicate capacity 0, capacity, size⟩
      ⟨base, List.replicate size 0, align⟩ := by
  refine ⟨⟨Nat.le_refl _, ?_⟩, ⟨⟨Nat.le_refl _, ?_⟩, ?_⟩, ?_⟩
  · show base + (List.replicate size (0 : UInt8)).length ≤ base + size
    rw [List.length_replicate]
  · show base + (List.replicate size (0 : UInt8)).length
      ≤ base + (List.replicate capacity (0 : UInt8)).length
    rw [List.length_replicate, List.length_replicate]
    omega
  · intro i hi
    rw [List.length_replicate] at hi
    show (List.replicate capacity (0 : UInt8))[base - base + i]? = (List.replicate size 0)[i]?
    rw [List.getElem?_replicate, List.getElem?_replicate, if_pos (by omega), if_pos hi]
  · intro k _
    show (base - base) % align = 0
    rw [Nat.sub_self, Nat.zero_mod]

/-- An empty chunk is sound. -/
theorem sound_withCapacity {base capacity : Nat} (hreserved : Reserves base capacity) :
    (withCapacity base capacity).Sound where
  reserved := hreserved
  written := Nat.le_refl 0
  fits := Nat.zero_le _
  blank := by
    intro i _ hi
    cases hi

/-- A write to an object changes nothing after the bytes in use. -/
theorem Sound.write {ptr : Nat} {data : List UInt8} (h : chunk.Sound)
    (hin : Span.Within ⟨ptr, data.length⟩ ⟨chunk.base, chunk.memory.length⟩ →
      Span.Within ⟨ptr, data.length⟩ chunk.taken ∨ data.length = 0) :
    (chunk.write ptr data).Sound where
  reserved := h.reserved
  written := by
    show chunk.used ≤ (Lib.store chunk.base chunk.memory ptr data).length
    rw [length_store]
    exact h.written
  fits := by
    show (Lib.store chunk.base chunk.memory ptr data).length ≤ chunk.capacity
    rw [length_store]
    exact h.fits
  blank := by
    intro i hi hlt
    replace hi : chunk.used ≤ i := hi
    replace hlt : i < (Lib.store chunk.base chunk.memory ptr data).length := hlt
    rw [length_store] at hlt
    show (Lib.store chunk.base chunk.memory ptr data)[i]? = some 0
    rw [← h.blank i hi hlt]
    by_cases hwithin : Span.Within ⟨ptr, data.length⟩ ⟨chunk.base, chunk.memory.length⟩
    · refine getElem?_store ?_
      rcases hin hwithin with hin | hempty
      · have hlast : ptr + data.length ≤ chunk.base + chunk.used := hin.2
        omega
      · omega
    · rw [Lib.store, if_neg hwithin]

/-- A write to one object leaves the others. -/
theorem Keeps.write_of_apart {ptr : Nat} {data : List UInt8} (h : chunk.Keeps object)
    (hapart : object.span.Apart ⟨ptr, data.length⟩) : (chunk.write ptr data).Keeps object :=
  ⟨h.within, h.holds.store_of_apart hapart, h.aligned⟩

theorem Keeps.write {data : List UInt8} (h : chunk.Keeps object)
    (hlength : data.length = object.data.length) :
    (chunk.write object.ptr data).Keeps { object with data } := by
  refine ⟨?_, holds_store ?_, h.aligned⟩
  · show Span.Within ⟨object.ptr, data.length⟩ chunk.taken
    rw [hlength]
    exact h.within
  · rw [hlength]
    exact h.holds.1

end ArenaChunk

/-! ## Steps -/

namespace Holder

variable {h : Holder} {size align base ptr : Nat} {arena : Arena} {chunk : ArenaChunk}

/-- An object comes from a new chunk. -/
theorem Sound.grow (hs : h.Sound) (heq : h.arena.grow size base = some (ptr, arena))
    (hbase : 0 < base) (hlast : base + max size h.arena.chunkSize < 2 ^ 64)
    (hfresh : ∀ chunk ∈ h.arena.all, chunk.room.Apart ⟨base, max size h.arena.chunkSize⟩) :
    Sound ⟨arena, h.objects ++ [⟨ptr, List.replicate size 0, align⟩]⟩ := by
  simp only [Arena.grow, Option.ite_none_left_eq_some, Option.some.injEq, Prod.mk.injEq] at heq
  obtain ⟨hlayout, rfl, rfl⟩ := heq
  let capacity := max size h.arena.chunkSize
  let fresh : ArenaChunk := ⟨base, List.replicate capacity 0, capacity, size⟩
  let object : ArenaObject := ⟨base, List.replicate size 0, align⟩
  -- the new chunk begins with the object
  have hkeeps : fresh.Keeps object := ArenaChunk.keeps_fresh (Nat.le_max_left _ _)
  have hsound : fresh.Sound :=
    ArenaChunk.sound_fresh (Nat.le_max_left _ _) ⟨hbase, Nat.lt_of_not_le hlayout, hlast⟩
  refine ⟨?_, ?_, ?_, ?_⟩
  · show ∀ chunk ∈ h.arena.all ++ [fresh], chunk.Sound
    rw [List.forall_mem_append, List.forall_mem_singleton]
    exact ⟨hs.chunks, hsound⟩
  · show ((h.arena.all ++ [fresh]).map ArenaChunk.room).Pairwise Span.Apart
    rw [List.map_append, List.pairwise_append]
    refine ⟨hs.apart, List.pairwise_singleton _ _, ?_⟩
    intro r hr s hsingle
    obtain ⟨chunk, hchunk, rfl⟩ := List.mem_map.mp hr
    rw [List.mem_singleton.mp hsingle]
    exact hfresh chunk hchunk
  · show ∀ old ∈ h.objects ++ [object], ∃ keeper ∈ h.arena.all ++ [fresh], keeper.Keeps old
    rw [List.forall_mem_append, List.forall_mem_singleton]
    refine ⟨?_, fresh, List.mem_append_right _ List.mem_cons_self, hkeeps⟩
    intro old hold
    obtain ⟨chunk, hchunk, hkept⟩ := hs.kept old hold
    exact ⟨chunk, List.mem_append_left _ hchunk, hkept⟩
  · show ((h.objects ++ [object]).map ArenaObject.span).Pairwise Span.Apart
    rw [List.map_append, List.pairwise_append]
    refine ⟨hs.objects, List.pairwise_singleton _ _, ?_⟩
    intro r hr s hsingle
    obtain ⟨old, hold, rfl⟩ := List.mem_map.mp hr
    rw [List.mem_singleton.mp hsingle]
    obtain ⟨chunk, hchunk, hkept⟩ := hs.kept old hold
    -- old objects lie in old chunks, apart from the new one
    exact (hfresh chunk hchunk).of_within (hkept.within_room (hs.chunks chunk hchunk))
      (hkeeps.within_room hsound)

/-- An object comes from the current chunk. -/
theorem Sound.extend {offset : Nat} (hs : h.Sound) (hcurrent : h.arena.currentChunk = some chunk)
    (hused : chunk.used ≤ offset) (hfits : offset + size ≤ chunk.capacity)
    (haligned : ∀ k, align = 2 ^ k → offset % align = 0) :
    Sound ⟨{ h.arena with currentChunk := some (chunk.extend (offset + size)) },
      h.objects ++ [⟨chunk.base + offset, List.replicate size 0, align⟩]⟩ := by
  have hall : h.arena.all = h.arena.chunks ++ [chunk] := by
    rw [Arena.all, hcurrent, Option.toList_some]
  let object : ArenaObject := ⟨chunk.base + offset, List.replicate size 0, align⟩
  let next := chunk.extend (offset + size)
  have hmem : chunk ∈ h.arena.all := hall ▸ List.mem_append_right _ List.mem_cons_self
  have hchunk := hs.chunks chunk hmem
  have hsound : next.Sound := hchunk.extend (by omega) hfits
  have hkeeps : next.Keeps object := hchunk.keeps_extend hused haligned
  have hapart := hs.apart
  rw [hall] at hapart
  refine ⟨?_, ?_, ?_, ?_⟩
  · show ∀ chunk ∈ h.arena.chunks ++ [next], chunk.Sound
    rw [List.forall_mem_append, List.forall_mem_singleton]
    exact ⟨fun other hother => hs.chunks other (hall ▸ List.mem_append_left _ hother), hsound⟩
  · show ((h.arena.chunks ++ [next]).map ArenaChunk.room).Pairwise Span.Apart
    rw [List.map_append] at hapart ⊢
    exact hapart
  · show ∀ old ∈ h.objects ++ [object], ∃ keeper ∈ h.arena.chunks ++ [next], keeper.Keeps old
    rw [List.forall_mem_append, List.forall_mem_singleton]
    refine ⟨?_, next, List.mem_append_right _ List.mem_cons_self, hkeeps⟩
    intro old hold
    obtain ⟨keeper, hkeeper, hkept⟩ := hs.kept old hold
    rw [hall, List.mem_append, List.mem_singleton] at hkeeper
    rcases hkeeper with hkeeper | rfl
    · exact ⟨keeper, List.mem_append_left _ hkeeper, hkept⟩
    · exact ⟨next, List.mem_append_right _ List.mem_cons_self, hkept.extend hused⟩
  · show ((h.objects ++ [object]).map ArenaObject.span).Pairwise Span.Apart
    rw [List.map_append, List.pairwise_append]
    refine ⟨hs.objects, List.pairwise_singleton _ _, ?_⟩
    intro r hr s hsingle
    obtain ⟨old, hold, rfl⟩ := List.mem_map.mp hr
    rw [List.mem_singleton.mp hsingle]
    obtain ⟨keeper, hkeeper, hkept⟩ := hs.kept old hold
    rw [hall, List.mem_append, List.mem_singleton] at hkeeper
    rcases hkeeper with hkeeper | rfl
    · -- the object stands in another chunk
      have hrooms : keeper.room.Apart chunk.room := by
        rw [List.map_append, List.pairwise_append] at hapart
        exact hapart.2.2 _ (List.mem_map_of_mem hkeeper) _ List.mem_cons_self
      have hother := hs.chunks keeper (hall ▸ List.mem_append_left _ hkeeper)
      exact hrooms.of_within (hkept.within_room hother) (hkeeps.within_room hsound)
    · -- it stands in this chunk, below `used`
      have hlast : old.span.start + old.span.size ≤ keeper.base + keeper.used := hkept.within.2
      left
      show old.span.start + old.span.size ≤ keeper.base + offset
      omega

/-- `alloc` has to give new memory only for a new chunk. -/
def Fresh (build : Build) (h : Holder) (size align base : Nat) : Prop :=
  (∀ chunk, h.arena.currentChunk = some chunk → chunk.place build size align = some none) →
    0 < base ∧ base + max size h.arena.chunkSize < 2 ^ 64 ∧
      ∀ chunk ∈ h.arena.all, chunk.room.Apart ⟨base, max size h.arena.chunkSize⟩

variable {build : Build}

/-- An object comes from the current chunk if it fits there, and else from a new one. -/
theorem cases_of_allocate {before after : Arena} {size align base ptr : Nat}
    (heq : before.allocate build size align base = some (ptr, after))
    (hasks : Asks build size align)
    (hsmall : ∀ chunk, before.currentChunk = some chunk → chunk.used < 2 ^ 63) :
    (∃ chunk offset, before.currentChunk = some chunk ∧ chunk.used ≤ offset ∧
      offset < chunk.used + align ∧ offset + size ≤ chunk.capacity ∧
      (∀ k, align = 2 ^ k → offset % align = 0) ∧ ptr = chunk.base + offset ∧
      after = { before with currentChunk := some (chunk.extend (offset + size)) }) ∨
    before.grow size base = some (ptr, after) ∧ ∀ chunk, before.currentChunk = some chunk →
      chunk.place build size align = some none ∧ 0 < align ∧
        chunk.capacity + 2 ≤ chunk.used + size + align := by
  unfold Arena.allocate at heq
  cases hcurrent : before.currentChunk with
  | none =>
    rw [hcurrent] at heq
    refine Or.inr ⟨heq, fun chunk hchunk => ?_⟩
    cases hchunk
  | some chunk =>
    rw [hcurrent] at heq
    cases hplace : chunk.place build size align with
    | none =>
      simp only [hplace] at heq
      cases heq
    | some found =>
      obtain ⟨offset, hused, hoffset, haligned, hfound⟩ :=
        ArenaChunk.exists_of_place hplace hasks (hsmall chunk hcurrent)
      by_cases hfits : offset + size ≤ chunk.capacity
      · rw [if_pos hfits] at hfound
        simp only [hplace, hfound, Option.bind_eq_bind, Option.bind_some, Option.some.injEq,
          Prod.mk.injEq] at heq
        exact Or.inl ⟨chunk, offset, rfl, hused, hoffset, hfits, haligned, heq.1.symm,
          heq.2.symm⟩
      · rw [if_neg hfits] at hfound
        simp only [hplace, hfound, Option.bind_eq_bind, Option.bind_some] at heq
        refine Or.inr ⟨heq, fun chunk' hchunk' => ?_⟩
        obtain rfl := Option.some.inj hchunk'
        exact ⟨by rw [hplace, hfound], by omega, by omega⟩

/-- What is in use of the current chunk is in its vector. -/
theorem Sound.used_lt (hs : h.Sound) (hcurrent : h.arena.currentChunk = some chunk) :
    chunk.used < 2 ^ 63 := by
  have hmem : chunk ∈ h.arena.all := by
    rw [Arena.all, hcurrent]
    exact List.mem_append_right _ (List.mem_singleton_self chunk)
  have hchunk := hs.chunks chunk hmem
  exact Nat.lt_of_le_of_lt (Nat.le_trans hchunk.written hchunk.fits) hchunk.reserved.2.1

/-- `allocate` gives an object that is apart from all others and reads 0. -/
theorem Sound.allocate (hs : h.Sound)
    (heq : h.arena.allocate build size align base = some (ptr, arena))
    (hasks : Asks build size align) (hfresh : h.Fresh build size align base) :
    Sound ⟨arena, h.objects ++ [⟨ptr, List.replicate size 0, align⟩]⟩ := by
  rcases cases_of_allocate heq hasks fun _ => hs.used_lt with
    ⟨chunk, offset, hcurrent, hused, -, hfits, haligned, rfl, rfl⟩ | ⟨hgrow, hfull⟩
  · exact hs.extend hcurrent hused hfits haligned
  · obtain ⟨hbase, hlast, hapart⟩ := hfresh fun chunk hchunk => (hfull chunk hchunk).1
    exact hs.grow hgrow hbase hlast hapart

theorem all_store (arena : Arena) (ptr : Nat) (data : List UInt8) :
    (arena.store ptr data).all = arena.all.map fun chunk => chunk.write ptr data := by
  rw [Arena.all, Arena.all, List.map_append, ← Option.toList_map]
  rfl

/-- Bytes that lie in the room of two chunks are none. -/
theorem Sound.eq_or_size_eq_zero (hs : h.Sound) {other : ArenaChunk} {s : Span}
    (hchunk : chunk ∈ h.arena.all) (hother : other ∈ h.arena.all) (hin : s.Within chunk.room)
    (hin' : s.Within other.room) : other = chunk ∨ s.size = 0 := by
  obtain ⟨before, after, hall⟩ := List.append_of_mem hchunk
  have hapart := hs.apart
  rw [hall, List.map_append, List.map_cons] at hapart
  rw [hall, List.mem_append, List.mem_cons] at hother
  rcases hother with hother | rfl | hother
  · right
    exact (rel_of_pairwise_split hapart (.inl (List.mem_map_of_mem hother))).size_eq_zero hin hin'
  · exact Or.inl rfl
  · right
    exact (rel_of_pairwise_split hapart (.inr (List.mem_map_of_mem hother))).size_eq_zero hin hin'

/-- A write to an object changes this object only. -/
theorem Sound.write {before after : List ArenaObject} {object : ArenaObject} {data : List UInt8}
    (hs : h.Sound) (hobjects : h.objects = before ++ object :: after)
    (hlength : data.length = object.data.length) :
    Sound ⟨h.arena.store object.ptr data, before ++ { object with data } :: after⟩ := by
  have hspan : Span.mk object.ptr data.length = object.span := by rw [hlength, ArenaObject.span]
  have hmem : object ∈ h.objects := hobjects ▸ List.mem_append_right _ List.mem_cons_self
  obtain ⟨keeper, hkeeper, hkept⟩ := hs.kept object hmem
  refine ⟨?_, ?_, ?_, ?_⟩
  · show ∀ chunk ∈ (h.arena.store object.ptr data).all, chunk.Sound
    rw [all_store, List.forall_mem_map]
    intro chunk hchunk
    refine (hs.chunks chunk hchunk).write fun hwithin => ?_
    -- only the chunk that keeps the object has it within its memory, if it has bytes at all
    have hroom : Span.Within ⟨object.ptr, data.length⟩ chunk.room :=
      ⟨hwithin.1, Nat.le_trans hwithin.2 (Nat.add_le_add_left (hs.chunks chunk hchunk).fits _)⟩
    rw [hspan] at hroom ⊢
    have hkept' := hkept.within_room (hs.chunks keeper hkeeper)
    rcases hs.eq_or_size_eq_zero hkeeper hchunk hkept' hroom with rfl | hempty
    · exact Or.inl hkept.within
    · right
      rw [hlength]
      exact hempty
  · show ((h.arena.store object.ptr data).all.map ArenaChunk.room).Pairwise Span.Apart
    rw [all_store, List.map_map]
    exact hs.apart
  · show ∀ old ∈ before ++ { object with data } :: after,
      ∃ chunk ∈ (h.arena.store object.ptr data).all, chunk.Keeps old
    rw [all_store]
    have hothers : ∀ old, old ∈ before ∨ old ∈ after →
        ∃ chunk ∈ h.arena.all.map fun chunk => chunk.write object.ptr data, chunk.Keeps old := by
      intro old hold
      have hold' : old ∈ h.objects := by
        rw [hobjects, List.mem_append, List.mem_cons]
        exact hold.imp_right .inr
      obtain ⟨chunk, hchunk, hkept⟩ := hs.kept old hold'
      refine ⟨_, List.mem_map_of_mem hchunk, hkept.write_of_apart ?_⟩
      rw [hspan]
      have hapart := hs.objects
      rw [hobjects, List.map_append, List.map_cons] at hapart
      refine (rel_of_pairwise_split hapart ?_).symm
      exact hold.imp List.mem_map_of_mem List.mem_map_of_mem
    rw [List.forall_mem_append, List.forall_mem_cons]
    refine ⟨fun old hold => hothers old (.inl hold), ?_, fun old hold => hothers old (.inr hold)⟩
    exact ⟨_, List.mem_map_of_mem hkeeper, hkept.write hlength⟩
  · show ((before ++ { object with data } :: after).map ArenaObject.span).Pairwise Span.Apart
    have hapart := hs.objects
    rw [hobjects] at hapart
    rw [List.map_append, List.map_cons] at hapart ⊢
    rw [show ArenaObject.span { object with data } = object.span from hspan]
    exact hapart

end Holder

end InterBit.Optimization
