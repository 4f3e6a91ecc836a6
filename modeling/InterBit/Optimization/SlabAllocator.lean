import InterBit.Lib.Regions
import InterBit.Lib.Run
import InterBit.Optimization.RingBuffer

/-!
# The slab allocator

`SlabAllocator` of `optimization/memory_pool.rs`. An address is a number, and the address that
`alloc` gives for a new slab is an argument. A free list is a stack whose top is the head of the
list. `none` is a panic; a count or a product that is out of range panics or wraps around, as the
build has it.

`Client` is the allocator with the blocks that have been handed out and not been given back. Its
invariant (`Client.Sound`) is that the slabs are apart and that the blocks of each are either free
or in use. From it follows that every call of a client that gives back only what it has returns, in
every build: `allocate` (`Sound.allocate`), `deallocate` (`Sound.deallocate`) and `stats`
(`Sound.stats`).
-/

namespace InterBit.Optimization

open InterBit.Lib

/-- `struct Slab`, without the layout. -/
structure Slab where
  memory : Nat
  freeList : List Nat
  usedCount : Nat

/-- `struct SlabAllocator`. -/
structure SlabAllocator where
  slabs : List Slab
  blockSize : Nat
  slabSize : Nat

/-- `struct SlabStats`. -/
structure SlabStats where
  totalSlabs : Nat
  totalBlocks : Nat
  usedBlocks : Nat
  freeBlocks : Nat
  blockSize : Nat
  deriving DecidableEq

/-! ## The code -/

namespace Slab

/-- The address of a block. -/
def address (blockSize : Nat) (slab : Slab) (offset : Nat) : Nat :=
  slab.memory + offset * blockSize

/-- The first slab with a free block gives it; the inner `none` is that there is none. -/
def popFirst (build : Build) (blockSize : Nat) : List Slab → Option (Option (Nat × List Slab))
  | [] => some none
  | slab :: slabs =>
    match slab.freeList with
    | offset :: freeList => do
      let usedCount ← build.addUsize slab.usedCount 1
      let distance ← build.mulUsize offset blockSize
      some (some (slab.memory + distance, { slab with freeList, usedCount } :: slabs))
    | [] => do
      let found ← popFirst build blockSize slabs
      some (found.map fun (ptr, slabs) => (ptr, slab :: slabs))

/-- The first slab that the pointer points into gets the block back. -/
def pushFirst (build : Build) (blockSize slabSize ptr : Nat) : List Slab → Option (List Slab)
  | [] => none
  | slab :: slabs => do
    let slabEnd ← build.addUsize slab.memory slabSize
    if slab.memory ≤ ptr ∧ ptr < slabEnd then
      let offset ← divUsize (ptr - slab.memory) blockSize
      -- without overflow checks a count of 0 wraps around
      let usedCount ← build.subUsize slab.usedCount 1
      some ({ slab with freeList := offset :: slab.freeList, usedCount } :: slabs)
    else
      let slabs ← pushFirst build blockSize slabSize ptr slabs
      some (slab :: slabs)

end Slab

namespace SlabAllocator

variable (build : Build)

/-- `SlabAllocator::new`. -/
def new (blockSize blocksPerSlab : Nat) : Option SlabAllocator := do
  let slabSize ← build.mulUsize blockSize blocksPerSlab
  some ⟨[], blockSize, slabSize⟩

/-- A new slab, whose first block is handed out. A layout has at most `isize::MAX` bytes, and
`alloc` gives the address 0 if it fails. -/
def newSlab (allocator : SlabAllocator) (memory : Nat) : Option Slab := do
  if 2 ^ 63 ≤ allocator.slabSize ∨ memory = 0 then none
  let blocksCount ← divUsize allocator.slabSize allocator.blockSize
  some { memory, freeList := (List.range blocksCount).tail, usedCount := 1 }

/-- `allocate`, with the address that `alloc` gives if a new slab is needed. -/
def allocate (allocator : SlabAllocator) (memory : Nat) : Option (Nat × SlabAllocator) := do
  match ← Slab.popFirst build allocator.blockSize allocator.slabs with
  | some (ptr, slabs) => some (ptr, { allocator with slabs })
  | none =>
    let slab ← allocator.newSlab memory
    some (memory, { allocator with slabs := allocator.slabs ++ [slab] })

/-- `deallocate`. -/
def deallocate (allocator : SlabAllocator) (ptr : Nat) : Option SlabAllocator := do
  let slabs ← Slab.pushFirst build allocator.blockSize allocator.slabSize ptr allocator.slabs
  some { allocator with slabs }

/-- `stats`. -/
def stats (allocator : SlabAllocator) : Option SlabStats := do
  let totalSlabs := allocator.slabs.length
  let blocksPerSlab ← divUsize allocator.slabSize allocator.blockSize
  let totalBlocks ← build.mulUsize totalSlabs blocksPerSlab
  let usedBlocks ← (allocator.slabs.map Slab.usedCount).foldlM build.addUsize 0
  let freeBlocks ← build.subUsize totalBlocks usedBlocks
  some ⟨totalSlabs, totalBlocks, usedBlocks, freeBlocks, allocator.blockSize⟩

end SlabAllocator

/-! ## What a step does -/

variable {build : Build}

namespace Slab

variable {blockSize slabSize ptr offset : Nat} {freeList : List Nat} {slab : Slab}
  {slabs before after : List Slab}

/-- No slab has a free block, or there is a first one that has. -/
theorem full_or_exists_free (slabs : List Slab) : (∀ slab ∈ slabs, slab.freeList = []) ∨
    ∃ before slab after offset freeList, slabs = before ++ slab :: after ∧
      (∀ other ∈ before, other.freeList = []) ∧ slab.freeList = offset :: freeList := by
  induction slabs with
  | nil => exact Or.inl (List.forall_mem_nil _)
  | cons slab slabs ih =>
    cases hfree : slab.freeList with
    | cons offset freeList =>
      exact Or.inr ⟨[], slab, slabs, offset, freeList, rfl, List.forall_mem_nil _, hfree⟩
    | nil =>
      rcases ih with hall | ⟨before, found, after, offset, freeList, rfl, hbefore, hfound⟩
      · exact Or.inl (List.forall_mem_cons.mpr ⟨hfree, hall⟩)
      · exact Or.inr ⟨slab :: before, found, after, offset, freeList, rfl,
          List.forall_mem_cons.mpr ⟨hfree, hbefore⟩, hfound⟩

/-- The free blocks of a slab can be handed out without an overflow. -/
structure Fits (build : Build) (blockSize : Nat) (slab : Slab) : Prop where
  counts : build.overflowChecks = true → slab.usedCount + slab.freeList.length < 2 ^ 64
  distances : ∀ offset ∈ slab.freeList, offset * blockSize < 2 ^ 64

/-- The slab when the head of its free list has been handed out. -/
def popped (freeList : List Nat) (slab : Slab) : Slab :=
  { slab with freeList, usedCount := (slab.usedCount + 1) % 2 ^ 64 }

theorem popFirst_of_full (h : ∀ slab ∈ slabs, slab.freeList = []) :
    popFirst build blockSize slabs = some none := by
  induction slabs with
  | nil => rfl
  | cons slab slabs ih =>
    obtain ⟨hfull, hrest⟩ := List.forall_mem_cons.mp h
    simp only [popFirst, hfull, ih hrest, Option.bind_eq_bind, Option.bind_some, Option.map_none]

/-- A slab whose free blocks have all been handed out is passed over. -/
theorem popFirst_of_free (hbefore : ∀ other ∈ before, other.freeList = [])
    (hfree : slab.freeList = offset :: freeList) (hfits : slab.Fits build blockSize) :
    popFirst build blockSize (before ++ slab :: after)
      = some (some (slab.address blockSize offset, before ++ slab.popped freeList :: after)) := by
  induction before with
  | nil =>
    have hcount : build.addUsize slab.usedCount 1 = some ((slab.usedCount + 1) % 2 ^ 64) := by
      refine if_neg ?_
      rintro ⟨hchecks, hlarge⟩
      have hfew := hfits.counts hchecks
      rw [hfree, List.length_cons] at hfew
      omega
    have hdistance := hfits.distances offset (hfree ▸ List.mem_cons_self)
    simp only [List.nil_append, popFirst, hfree, hcount, Build.mulUsize_of_lt hdistance,
      Option.bind_eq_bind, Option.bind_some]
    rfl
  | cons other before ih =>
    obtain ⟨hfull, hrest⟩ := List.forall_mem_cons.mp hbefore
    simp only [List.cons_append, popFirst, hfull, ih hrest, Option.bind_eq_bind, Option.bind_some,
      Option.map_some]

/-- Taking a block leaves the slab fitting. -/
theorem Fits.popped (h : slab.Fits build blockSize) (hfree : slab.freeList = offset :: freeList) :
    (slab.popped freeList).Fits build blockSize where
  counts hchecks := by
    have hfew := h.counts hchecks
    rw [hfree, List.length_cons] at hfew
    have hround : (slab.usedCount + 1) % 2 ^ 64 ≤ slab.usedCount + 1 := Nat.mod_le _ _
    show (slab.usedCount + 1) % 2 ^ 64 + freeList.length < 2 ^ 64
    omega
  distances other hother := h.distances other (hfree ▸ List.mem_cons_of_mem _ hother)

/-- The slab when the block at `ptr` has been given back, and what it counts then. -/
def givenBack (blockSize ptr usedCount : Nat) (slab : Slab) : Slab where
  memory := slab.memory
  freeList := (ptr - slab.memory) / blockSize :: slab.freeList
  usedCount

/-- A block goes back to the slab it lies in, if it lies in no other. -/
theorem pushFirst_eq (hsize : 0 < blockSize) (hin : Inside slabSize slab.memory ptr)
    (hbefore : ∀ other ∈ before, ¬ Inside slabSize other.memory ptr)
    (hends : ∀ other, other ∈ before ∨ other = slab → other.memory + slabSize < 2 ^ 64) :
    pushFirst build blockSize slabSize ptr (before ++ slab :: after)
      = (build.subUsize slab.usedCount 1).map fun usedCount =>
          before ++ slab.givenBack blockSize ptr usedCount :: after := by
  induction before with
  | nil =>
    simp only [List.nil_append, pushFirst, Build.addUsize_of_lt (hends slab (.inr rfl)),
      if_pos (show slab.memory ≤ ptr ∧ _ from hin), divUsize_of_pos hsize, Option.bind_eq_bind,
      Option.bind_some]
    cases build.subUsize slab.usedCount 1 <;> rfl
  | cons other before ih =>
    have hother : ¬ (other.memory ≤ ptr ∧ ptr < other.memory + slabSize) :=
      hbefore other List.mem_cons_self
    have hrest := ih (fun s hs => hbefore s (List.mem_cons_of_mem _ hs))
      fun s hs => hends s (hs.imp_left (List.mem_cons_of_mem _))
    simp only [List.cons_append, pushFirst,
      Build.addUsize_of_lt (hends other (.inl List.mem_cons_self)), if_neg hother, hrest,
      Option.bind_eq_bind, Option.bind_some]
    cases build.subUsize slab.usedCount 1 <;> rfl

/-- Giving one back too, if the counter allows it. -/
theorem Fits.givenBack {usedCount : Nat} (h : slab.Fits build blockSize) (hptr : ptr < 2 ^ 64)
    (hcount : build.subUsize slab.usedCount 1 = some usedCount) :
    (slab.givenBack blockSize ptr usedCount).Fits build blockSize where
  counts hchecks := by
    have hfew := h.counts hchecks
    unfold Build.subUsize at hcount
    split at hcount
    next => cases hcount
    next hsome =>
      have hpos : ¬ slab.usedCount < 1 := fun hzero => hsome ⟨hchecks, hzero⟩
      have heq := Option.some.inj hcount
      show usedCount + (slab.freeList.length + 1) < 2 ^ 64
      omega
  distances := by
    show ∀ offset ∈ (ptr - slab.memory) / blockSize :: slab.freeList, _
    refine List.forall_mem_cons.mpr ⟨?_, h.distances⟩
    exact Nat.lt_of_le_of_lt (Nat.div_mul_le_self _ _) (by omega)

end Slab

/-! ## The invariant -/

/-- The allocator and the blocks in use; `peak` is the largest number of blocks that were in use
at one time. -/
structure Client where
  allocator : SlabAllocator
  live : Multiset Nat
  peak : Nat

namespace Slab

/-- The free blocks of a slab. -/
def free (blockSize : Nat) (slab : Slab) : Multiset Nat :=
  ↑(slab.freeList.map (slab.address blockSize))

/-- The blocks of `live` that lie in the slab. -/
def used (slabSize : Nat) (live : Multiset Nat) (slab : Slab) : Multiset Nat :=
  live.filter (Inside slabSize slab.memory)

/-- Each block of the slab is free or in use, and `used_count` counts those in use. -/
structure Sound (blockSize n : Nat) (live : Multiset Nat) (slab : Slab) : Prop where
  blocks : slab.free blockSize + slab.used (blockSize * n) live = Lib.blocks blockSize n slab.memory
  count : slab.usedCount = (slab.used (blockSize * n) live).card
  starts : 0 < slab.memory
  fits : slab.memory + blockSize * n < 2 ^ 64

end Slab

/-- The slabs are apart, and every block in use lies in one. -/
structure SlabAllocator.Sound (blockSize n : Nat) (live : Multiset Nat)
    (allocator : SlabAllocator) : Prop where
  block : allocator.blockSize = blockSize
  size : allocator.slabSize = blockSize * n
  apart : (allocator.slabs.map Slab.memory).Pairwise (NoOverlap (blockSize * n))
  slabs : ∀ slab ∈ allocator.slabs, slab.Sound blockSize n live
  covered : ∀ ptr ∈ live, ∃ memory ∈ allocator.slabs.map Slab.memory,
    Inside (blockSize * n) memory ptr

/-- There are as many slabs as it takes for the largest number of blocks that were in use at one
time. -/
structure Client.Sound (blockSize n : Nat) (c : Client) : Prop where
  allocator : c.allocator.Sound blockSize n c.live
  few : c.allocator.slabs.length * n < c.peak + n
  peak : c.live.card ≤ c.peak
  many : c.peak ≤ c.allocator.slabs.length * n

variable {blockSize n : Nat} {live : Multiset Nat} {slab : Slab} {ptr : Nat}

namespace Slab

theorem Sound.count_add (h : slab.Sound blockSize n live) :
    slab.freeList.length + slab.usedCount = n := by
  have hcard := congrArg Multiset.card h.blocks
  rw [Multiset.card_add, card_blocks, ← h.count, free, Multiset.coe_card, List.length_map] at hcard
  exact hcard

/-- There are fewer blocks than addresses. -/
theorem Sound.count_lt (h : slab.Sound blockSize n live) (hsize : 0 < blockSize) : n < 2 ^ 64 := by
  have hfits := h.fits
  have hle : n ≤ blockSize * n := Nat.le_mul_of_pos_left n hsize
  omega

theorem Sound.mem_blocks (h : slab.Sound blockSize n live) (hptr : ptr ∈ live)
    (hin : Inside (blockSize * n) slab.memory ptr) :
    ptr ∈ Lib.blocks blockSize n slab.memory := by
  rw [← h.blocks]
  exact Multiset.mem_add.mpr (.inr (Multiset.mem_filter.mpr ⟨hptr, hin⟩))

/-- No live block is counted twice. -/
theorem Sound.used_nodup (hsize : 0 < blockSize) (h : slab.Sound blockSize n live) :
    (slab.used (blockSize * n) live).Nodup := by
  have hall := nodup_blocks (n := n) (p := slab.memory) hsize
  rw [← h.blocks] at hall
  exact (Multiset.nodup_add.mp hall).2.1

/-- A block that is taken or given back elsewhere changes nothing here. -/
theorem Sound.cons_other (h : slab.Sound blockSize n live)
    (hout : ¬ Inside (blockSize * n) slab.memory ptr) : slab.Sound blockSize n (ptr ::ₘ live) := by
  have hused : slab.used (blockSize * n) (ptr ::ₘ live) = slab.used (blockSize * n) live :=
    Multiset.filter_cons_of_neg _ hout
  exact ⟨hused ▸ h.blocks, hused ▸ h.count, h.starts, h.fits⟩

theorem Sound.of_cons_other (h : slab.Sound blockSize n (ptr ::ₘ live))
    (hout : ¬ Inside (blockSize * n) slab.memory ptr) : slab.Sound blockSize n live := by
  have hused : slab.used (blockSize * n) (ptr ::ₘ live) = slab.used (blockSize * n) live :=
    Multiset.filter_cons_of_neg _ hout
  exact ⟨hused ▸ h.blocks, hused ▸ h.count, h.starts, h.fits⟩

/-- The head of the free list is one of the slab's blocks. -/
theorem Sound.mem_of_free {offset : Nat} {freeList : List Nat} (h : slab.Sound blockSize n live)
    (hfree : slab.freeList = offset :: freeList) :
    slab.address blockSize offset ∈ Lib.blocks blockSize n slab.memory := by
  rw [← h.blocks, free, hfree]
  exact Multiset.mem_add.mpr (.inl (Multiset.mem_coe.mpr List.mem_cons_self))

/-- The free blocks of a slab are its own, so nothing overflows when they are handed out. -/
theorem Sound.fits_free (h : slab.Sound blockSize n live) (hsize : 0 < blockSize) :
    slab.Fits build blockSize where
  counts _ := by
    have hall := h.count_add
    have hlt := h.count_lt hsize
    omega
  distances offset hoffset := by
    have hmem : slab.address blockSize offset ∈ Lib.blocks blockSize n slab.memory := by
      rw [← h.blocks, free]
      exact Multiset.mem_add.mpr (.inl (Multiset.mem_coe.mpr (List.mem_map_of_mem hoffset)))
    have hin : slab.memory + offset * blockSize < slab.memory + blockSize * n :=
      (inside_of_mem_blocks hsize hmem).2
    have hfits := h.fits
    omega

/-- A free block comes into use. -/
theorem Sound.pop {offset : Nat} {freeList : List Nat} (hsize : 0 < blockSize)
    (h : slab.Sound blockSize n live) (hfree : slab.freeList = offset :: freeList) :
    Slab.Sound blockSize n (slab.address blockSize offset ::ₘ live) (slab.popped freeList) := by
  have hin := inside_of_mem_blocks hsize (h.mem_of_free hfree)
  have hused : slab.used (blockSize * n) (slab.address blockSize offset ::ₘ live)
      = slab.address blockSize offset ::ₘ slab.used (blockSize * n) live :=
    Multiset.filter_cons_of_pos _ hin
  refine ⟨?_, ?_, h.starts, h.fits⟩
  · have hblocks := h.blocks
    rw [free, hfree, List.map_cons, ← Multiset.cons_coe, Multiset.cons_add] at hblocks
    show (↑(freeList.map (slab.address blockSize)) : Multiset Nat) + slab.used _ _ = _
    rw [hused, Multiset.add_cons]
    exact hblocks
  · have hall := h.count_add
    have hlt := h.count_lt hsize
    rw [hfree, List.length_cons] at hall
    show (slab.usedCount + 1) % 2 ^ 64 = (slab.used _ _).card
    rw [hused, Multiset.card_cons, ← h.count, Nat.mod_eq_of_lt (by omega)]

/-- A block in use becomes free. -/
theorem Sound.push (build : Build) (hsize : 0 < blockSize)
    (h : slab.Sound blockSize n (ptr ::ₘ live))
    (hin : Inside (blockSize * n) slab.memory ptr) :
    build.subUsize slab.usedCount 1 = some (slab.usedCount - 1) ∧
      (slab.givenBack blockSize ptr (slab.usedCount - 1)).Sound blockSize n live := by
  have hused : slab.used (blockSize * n) (ptr ::ₘ live)
      = ptr ::ₘ slab.used (blockSize * n) live := Multiset.filter_cons_of_pos _ hin
  have hcount := h.count
  rw [hused, Multiset.card_cons] at hcount
  obtain ⟨i, -, hi⟩ := Lib.mem_blocks.mp (h.mem_blocks (Multiset.mem_cons_self ptr live) hin)
  have haddress : slab.address blockSize ((ptr - slab.memory) / blockSize) = ptr := by
    rw [← hi, div_of_mem_blocks hsize, address]
  have hall := h.count_add
  have hlt := h.count_lt hsize
  refine ⟨Build.subUsize_of_le (by omega) (by omega), ⟨?_, ?_, h.starts, h.fits⟩⟩
  · have hblocks := h.blocks
    rw [hused, Multiset.add_cons] at hblocks
    show (↑(((ptr - slab.memory) / blockSize :: slab.freeList).map (slab.address blockSize)) :
      Multiset Nat) + slab.used _ _ = _
    rw [List.map_cons, haddress, ← Multiset.cons_coe, Multiset.cons_add]
    exact hblocks
  · show slab.usedCount - 1 = (slab.used _ _).card
    omega

end Slab

namespace SlabAllocator

variable {allocator : SlabAllocator}

/-- What the slabs count is what is in use, and the rest is in the free lists. -/
theorem Sound.sum_usedCount (h : allocator.Sound blockSize n live) :
    (allocator.slabs.map Slab.usedCount).sum = live.card := by
  have hone : allocator.slabs.Pairwise fun s t => ∀ ptr,
      Inside (blockSize * n) s.memory ptr → ¬ Inside (blockSize * n) t.memory ptr :=
    (List.pairwise_map.mp h.apart).imp fun hst ptr => hst.not_inside
  have hall : ∀ ptr ∈ live, ∃ slab ∈ allocator.slabs, Inside (blockSize * n) slab.memory ptr := by
    intro ptr hptr
    obtain ⟨memory, hmemory, hin⟩ := h.covered ptr hptr
    obtain ⟨slab, hslab, rfl⟩ := List.mem_map.mp hmemory
    exact ⟨slab, hslab, hin⟩
  rw [← sum_card_filter_owners hone hall]
  exact congrArg List.sum (List.map_congr_left fun slab hslab => (h.slabs slab hslab).count)

theorem Sound.sum_length (h : allocator.Sound blockSize n live) :
    (allocator.slabs.map fun slab => slab.freeList.length).sum + live.card
      = allocator.slabs.length * n := by
  rw [← h.sum_usedCount, ← List.sum_map_add,
    List.map_congr_left fun slab hslab => (h.slabs slab hslab).count_add, List.map_const',
    List.sum_replicate_nat]

/-- If there is no free block, all blocks are in use. -/
theorem Sound.card_live_of_full (h : allocator.Sound blockSize n live)
    (hfull : ∀ slab ∈ allocator.slabs, slab.freeList = []) :
    live.card = allocator.slabs.length * n := by
  have hnone : (allocator.slabs.map fun slab => slab.freeList.length).sum = 0 :=
    List.sum_eq_zero fun k hk => by
      obtain ⟨slab, hslab, rfl⟩ := List.mem_map.mp hk
      exact List.length_eq_zero_iff.mpr (hfull slab hslab)
  rw [← h.sum_length, hnone, Nat.zero_add]

theorem Sound.card_le (h : allocator.Sound blockSize n live) :
    live.card ≤ allocator.slabs.length * n := by
  rw [← h.sum_length]
  exact Nat.le_add_left _ _

variable {before after : List Slab}

theorem mem_of_others (hslabs : allocator.slabs = before ++ slab :: after) {other : Slab}
    (hother : other ∈ before ∨ other ∈ after) : other ∈ allocator.slabs := by
  rw [hslabs]
  rcases hother with hother | hother
  · exact List.mem_append_left _ hother
  · exact List.mem_append_right before (List.mem_cons_of_mem _ hother)

/-- A slab is apart from those before it and those after it. -/
theorem Sound.apart_others (h : allocator.Sound blockSize n live)
    (hslabs : allocator.slabs = before ++ slab :: after) {other : Slab}
    (hother : other ∈ before ∨ other ∈ after) :
    NoOverlap (blockSize * n) slab.memory other.memory := by
  have hapart := List.pairwise_map.mp h.apart
  rw [hslabs, List.pairwise_append, List.pairwise_cons] at hapart
  rcases hother with hother | hother
  · exact (hapart.2.2 other hother slab List.mem_cons_self).symm
  · exact hapart.2.1.1 other hother

/-- The slab of a block in use. -/
theorem Sound.exists_slab (h : allocator.Sound blockSize n live) (hptr : ptr ∈ live) :
    ∃ before slab after, allocator.slabs = before ++ slab :: after ∧
      Inside (blockSize * n) slab.memory ptr ∧
      ∀ other, other ∈ before ∨ other ∈ after → ¬ Inside (blockSize * n) other.memory ptr := by
  obtain ⟨memory, hmemory, hin⟩ := h.covered ptr hptr
  obtain ⟨slab, hmem, rfl⟩ := List.mem_map.mp hmemory
  obtain ⟨before, after, hslabs⟩ := List.append_of_mem hmem
  refine ⟨before, slab, after, hslabs, hin, ?_⟩
  intro other hother
  exact (h.apart_others hslabs hother).not_inside hin

/-- No block is handed out twice. -/
theorem Sound.nodup (h : allocator.Sound blockSize n live) (hsize : 0 < blockSize) :
    live.Nodup := by
  refine Multiset.nodup_iff_count_le_one.mpr fun ptr => ?_
  by_cases hptr : ptr ∈ live
  · obtain ⟨before, slab, after, hslabs, hin, -⟩ := h.exists_slab hptr
    have hmem : slab ∈ allocator.slabs := hslabs ▸ List.mem_append_right before List.mem_cons_self
    have hnodup := (h.slabs slab hmem).used_nodup hsize
    rw [← Multiset.count_filter_of_pos (p := Inside (blockSize * n) slab.memory) hin]
    exact Multiset.nodup_iff_count_le_one.mp hnodup ptr
  · rw [Multiset.count_eq_zero.mpr hptr]
    exact Nat.zero_le 1

/-- The slabs fit into the addresses. -/
theorem Sound.length_mul_lt (h : allocator.Sound blockSize n live) :
    allocator.slabs.length * (blockSize * n) < 2 ^ 64 := by
  have hle : (allocator.slabs.map Slab.memory).length * (blockSize * n) ≤ 2 ^ 64 - 1 := by
    refine length_mul_le h.apart fun memory hmemory => ?_
    obtain ⟨slab, hslab, rfl⟩ := List.mem_map.mp hmemory
    exact ⟨(h.slabs slab hslab).starts, Nat.le_of_lt (h.slabs slab hslab).fits⟩
  rw [List.length_map] at hle
  omega

/-- `stats` counts the blocks in use. -/
theorem Sound.stats (h : allocator.Sound blockSize n live) (hsize : 0 < blockSize) :
    allocator.stats build = some
      { totalSlabs := allocator.slabs.length
        totalBlocks := allocator.slabs.length * n
        usedBlocks := live.card
        freeBlocks := allocator.slabs.length * n - live.card
        blockSize } := by
  have hblocks : allocator.slabs.length * n < 2 ^ 64 := by
    refine Nat.lt_of_le_of_lt ?_ h.length_mul_lt
    exact Nat.mul_le_mul_left _ (Nat.le_mul_of_pos_left n hsize)
  have hused : (allocator.slabs.map Slab.usedCount).foldlM build.addUsize 0 = some live.card := by
    have hle := h.card_le
    have hsum := @Build.foldlM_addUsize build (allocator.slabs.map Slab.usedCount) 0
    rw [h.sum_usedCount, Nat.zero_add] at hsum
    exact hsum (by omega)
  simp only [SlabAllocator.stats, h.block, h.size, divUsize_of_pos hsize, hused,
    Nat.mul_div_cancel_left n hsize, Build.mulUsize_of_lt hblocks,
    Build.subUsize_of_le h.card_le hblocks, Option.bind_eq_bind, Option.bind_some]

/-- One slab gets a new content. -/
theorem Sound.replace {slab' : Slab} {live' : Multiset Nat} (h : allocator.Sound blockSize n live)
    (hslabs : allocator.slabs = before ++ slab :: after) (hmemory : slab'.memory = slab.memory)
    (hslab' : slab'.Sound blockSize n live')
    (hothers : ∀ other, other ∈ before ∨ other ∈ after → other.Sound blockSize n live')
    (hcovered : ∀ ptr ∈ live', ptr ∈ live ∨ Inside (blockSize * n) slab.memory ptr) :
    Sound blockSize n live' { allocator with slabs := before ++ slab' :: after } := by
  have hmap : (before ++ slab' :: after).map Slab.memory = allocator.slabs.map Slab.memory := by
    rw [hslabs, List.map_append, List.map_cons, hmemory, ← List.map_cons, ← List.map_append]
  refine ⟨h.block, h.size, ?_, ?_, ?_⟩
  · show ((before ++ slab' :: after).map Slab.memory).Pairwise _
    rw [hmap]
    exact h.apart
  · intro other hother
    rcases List.mem_append.mp hother with hother | hother
    · exact hothers other (.inl hother)
    · rcases List.mem_cons.mp hother with rfl | hother
      · exact hslab'
      · exact hothers other (.inr hother)
  · intro ptr hptr
    show ∃ memory ∈ (before ++ slab' :: after).map Slab.memory, _
    rw [hmap]
    rcases hcovered ptr hptr with hptr | hin
    · exact h.covered ptr hptr
    · refine ⟨slab.memory, List.mem_map_of_mem ?_, hin⟩
      rw [hslabs]
      exact List.mem_append_right before List.mem_cons_self

/-- A slab that comes from the system has its first block in use. -/
theorem sound_newSlab {memory : Nat} (hsize : 0 < blockSize) (hn : 0 < n)
    (hnull : 0 < memory) (hfits : memory + blockSize * n < 2 ^ 64)
    (hout : ∀ ptr ∈ live, ¬ Inside (blockSize * n) memory ptr) :
    Slab.Sound blockSize n (memory ::ₘ live)
      { memory, freeList := (List.range n).tail, usedCount := 1 } := by
  have hin : Inside (blockSize * n) memory memory :=
    ⟨Nat.le_refl _, Nat.lt_add_of_pos_right (Nat.mul_pos hsize hn)⟩
  have hused : (memory ::ₘ live).filter (Inside (blockSize * n) memory) = {memory} := by
    rw [Multiset.filter_cons_of_pos _ hin, Multiset.filter_eq_nil.mpr hout, Multiset.cons_zero]
  refine ⟨?_, ?_, hnull, hfits⟩
  · show (↑((List.range n).tail.map fun i => memory + i * blockSize) : Multiset Nat) +
      (memory ::ₘ live).filter (Inside (blockSize * n) memory) = _
    obtain ⟨m, rfl⟩ : ∃ m, n = m + 1 := ⟨n - 1, by omega⟩
    rw [hused, Multiset.add_comm, Multiset.singleton_add, Multiset.cons_coe, Lib.blocks,
      ← Multiset.coe_range, Multiset.map_coe, List.range_succ_eq_map, List.tail_cons, List.map_cons,
      Nat.zero_mul, Nat.add_zero]
  · show 1 = ((memory ::ₘ live).filter (Inside (blockSize * n) memory)).card
    rw [hused, Multiset.card_singleton]

/-- Memory that is new to the allocator. It ends below the last address, so that `slab_end` is an
address as well. -/
def Fresh (allocator : SlabAllocator) (memory : Nat) : Prop :=
  memory ≠ 0 ∧ memory + allocator.slabSize < 2 ^ 64 ∧
    ∀ slab ∈ allocator.slabs, NoOverlap allocator.slabSize slab.memory memory

/-- A slab hands out the head of its free list. -/
theorem Sound.pop {offset : Nat} {freeList : List Nat} (h : allocator.Sound blockSize n live)
    (hsize : 0 < blockSize) (hslabs : allocator.slabs = before ++ slab :: after)
    (hfree : slab.freeList = offset :: freeList) :
    Sound blockSize n (slab.address blockSize offset ::ₘ live) { allocator with
      slabs := before ++ slab.popped freeList :: after } := by
  have hslab : slab.Sound blockSize n live :=
    h.slabs slab (hslabs ▸ List.mem_append_right before List.mem_cons_self)
  have hin := inside_of_mem_blocks hsize (hslab.mem_of_free hfree)
  refine h.replace hslabs rfl (hslab.pop hsize hfree) ?_ ?_
  · intro other hother
    have hmem := mem_of_others hslabs hother
    exact (h.slabs other hmem).cons_other ((h.apart_others hslabs hother).not_inside hin)
  · intro ptr hptr
    rcases Multiset.mem_cons.mp hptr with rfl | hptr
    · exact Or.inr hin
    · exact Or.inl hptr

/-- A slab joins the others. -/
theorem Sound.concat {memory : Nat} {freeList : List Nat} (h : allocator.Sound blockSize n live)
    (hin : Inside (blockSize * n) memory memory)
    (hapart : ∀ other ∈ allocator.slabs, NoOverlap (blockSize * n) other.memory memory)
    (hslab : Slab.Sound blockSize n (memory ::ₘ live) ⟨memory, freeList, 1⟩) :
    Sound blockSize n (memory ::ₘ live)
      { allocator with slabs := allocator.slabs ++ [⟨memory, freeList, 1⟩] } := by
  have hmap : (allocator.slabs ++ [Slab.mk memory freeList 1]).map Slab.memory
      = allocator.slabs.map Slab.memory ++ [memory] := List.map_append
  refine ⟨h.block, h.size, ?_, ?_, ?_⟩
  · show ((allocator.slabs ++ [Slab.mk memory freeList 1]).map Slab.memory).Pairwise _
    rw [hmap, List.pairwise_append]
    refine ⟨h.apart, List.pairwise_singleton _ _, ?_⟩
    intro p hp q hq
    obtain ⟨other, hother, rfl⟩ := List.mem_map.mp hp
    rw [List.mem_singleton.mp hq]
    exact hapart other hother
  · intro other hother
    rcases List.mem_append.mp hother with hother | hother
    · exact (h.slabs other hother).cons_other ((hapart other hother).symm.not_inside hin)
    · rw [List.mem_singleton.mp hother]
      exact hslab
  · intro ptr hptr
    show ∃ p ∈ (allocator.slabs ++ [Slab.mk memory freeList 1]).map Slab.memory, _
    rw [hmap]
    rcases Multiset.mem_cons.mp hptr with rfl | hptr
    · exact ⟨ptr, List.mem_append_right _ List.mem_cons_self, hin⟩
    · obtain ⟨p, hp, hin'⟩ := h.covered ptr hptr
      exact ⟨p, List.mem_append_left _ hp, hin'⟩

/-- `allocate` hands out a free block if there is one, and else the first block of new memory. -/
theorem Sound.allocate {memory : Nat} (build : Build) (h : allocator.Sound blockSize n live)
    (hsize : 0 < blockSize) (hn : 0 < n) (hlayout : blockSize * n < 2 ^ 63)
    (hfresh : (∀ slab ∈ allocator.slabs, slab.freeList = []) → allocator.Fresh memory) :
    ∃ ptr allocator', allocator.allocate build memory = some (ptr, allocator') ∧
      allocator'.Sound blockSize n (ptr ::ₘ live) ∧
      (allocator'.slabs.length = allocator.slabs.length ∨
        allocator'.slabs.length = allocator.slabs.length + 1 ∧
          live.card = allocator.slabs.length * n) := by
  rcases Slab.full_or_exists_free allocator.slabs with
    hfull | ⟨before, slab, after, offset, freeList, hslabs, hbefore, hfree⟩
  · obtain ⟨hnull, hfits, hapart⟩ := hfresh hfull
    rw [h.size] at hfits hapart
    have hin : Inside (blockSize * n) memory memory :=
      ⟨Nat.le_refl _, Nat.lt_add_of_pos_right (Nat.mul_pos hsize hn)⟩
    have hout : ∀ ptr ∈ live, ¬ Inside (blockSize * n) memory ptr := by
      intro ptr hptr hin
      obtain ⟨other, hother, hin'⟩ := h.covered ptr hptr
      obtain ⟨slab, hslab, rfl⟩ := List.mem_map.mp hother
      exact (hapart slab hslab).not_inside hin' hin
    have hnew : allocator.newSlab memory = some ⟨memory, (List.range n).tail, 1⟩ := by
      rw [newSlab, h.size, h.block, if_neg (by omega), divUsize_of_pos hsize,
        Nat.mul_div_cancel_left n hsize]
      rfl
    refine ⟨memory, _, ?_, h.concat hin hapart
      (sound_newSlab hsize hn (Nat.pos_of_ne_zero hnull) hfits hout), ?_⟩
    · simp only [SlabAllocator.allocate, Slab.popFirst_of_full hfull, hnew, Option.bind_eq_bind,
        Option.bind_some]
    · exact Or.inr ⟨List.length_append, h.card_live_of_full hfull⟩
  · have hmem : slab ∈ allocator.slabs := hslabs ▸ List.mem_append_right before List.mem_cons_self
    have hpop := @Slab.popFirst_of_free build blockSize offset freeList slab before after hbefore
      hfree ((h.slabs slab hmem).fits_free hsize)
    refine ⟨_, { allocator with slabs := before ++ slab.popped freeList :: after }, ?_,
      h.pop hsize hslabs hfree, ?_⟩
    · simp only [SlabAllocator.allocate, h.block, hslabs, hpop, Option.bind_eq_bind,
        Option.bind_some]
    · left
      rw [hslabs, List.length_append, List.length_append, List.length_cons, List.length_cons]

/-- The slab that a pointer points into is found, since none of them reaches the last address. -/
theorem Sound.pushFirst_eq {before after : List Slab} (build : Build)
    (h : allocator.Sound blockSize n live) (hsize : 0 < blockSize)
    (hslabs : allocator.slabs = before ++ slab :: after)
    (hin : Inside (blockSize * n) slab.memory ptr)
    (hout : ∀ other ∈ before, ¬ Inside (blockSize * n) other.memory ptr) :
    Slab.pushFirst build allocator.blockSize allocator.slabSize ptr allocator.slabs
      = (build.subUsize slab.usedCount 1).map fun usedCount =>
          before ++ slab.givenBack blockSize ptr usedCount :: after := by
  rw [h.block, h.size, hslabs]
  refine Slab.pushFirst_eq hsize hin hout ?_
  rintro other (hother | rfl)
  · exact (h.slabs other (mem_of_others hslabs (.inl hother))).fits
  · exact (h.slabs other (hslabs ▸ List.mem_append_right before List.mem_cons_self)).fits

/-- `deallocate` takes back every block in use. -/
theorem Sound.deallocate (build : Build)
    (h : allocator.Sound blockSize n (ptr ::ₘ live)) (hsize : 0 < blockSize)
    (hslabs : allocator.slabs = before ++ slab :: after)
    (hin : Inside (blockSize * n) slab.memory ptr)
    (hout : ∀ other, other ∈ before ∨ other ∈ after →
      ¬ Inside (blockSize * n) other.memory ptr) :
    let slabs := before ++ slab.givenBack blockSize ptr (slab.usedCount - 1) :: after
    allocator.deallocate build ptr = some { allocator with slabs } ∧
      Sound blockSize n live { allocator with slabs } := by
  have hmem : slab ∈ allocator.slabs := hslabs ▸ List.mem_append_right before List.mem_cons_self
  obtain ⟨hcount, hslab⟩ := (h.slabs slab hmem).push build hsize hin
  refine ⟨?_, h.replace hslabs rfl hslab ?_ ?_⟩
  · rw [SlabAllocator.deallocate, h.pushFirst_eq build hsize hslabs hin fun other hother =>
      hout other (.inl hother), hcount]
    rfl
  · intro other hother
    exact (h.slabs other (mem_of_others hslabs hother)).of_cons_other (hout other hother)
  · intro other hother
    exact Or.inl (Multiset.mem_cons_of_mem hother)

end SlabAllocator

end InterBit.Optimization
