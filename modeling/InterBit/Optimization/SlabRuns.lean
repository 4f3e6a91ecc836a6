import InterBit.Optimization.SlabAllocator

/-!
# Runs of the slab allocator

In a run in which `alloc` gives new memory and only blocks in use are given back, the invariant
holds. So the blocks in use are apart and no call panics (`exclusive_of_run`), and `stats` is exact
(`stats_of_run`).

A block that is given back twice is twice in the free list of its slab. Only the count of the blocks
in use can notice: with overflow checks the second `deallocate` panics if that count is already 0.
In all other cases the block is handed out twice, and its two owners share it
(`freed_twice_of_run`).

What is legal is a condition on each call in its state: the memory that `alloc` gives is apart from
all slabs, and a block that is given back is in use. The last result is about a run that was legal
so far and breaks this once. It says what is handed out next: the free blocks of the slabs before,
and then the block in question twice.
-/

namespace InterBit.Optimization

open InterBit.Lib

variable {build : Build} {blockSize n : Nat} {live : Multiset Nat} {slab : Slab} {ptr : Nat}

/-! ## Steps -/

/-- A call. -/
inductive Call where
  /-- `allocate`; `alloc` gives `memory` if it is asked for a slab. -/
  | allocate (memory : Nat)
  | deallocate (ptr : Nat)

namespace Client

/-- A call and its answer. -/
def step (build : Build) (c : Client) : Call → Option (Client × Option Nat)
  | .allocate memory => do
    let (ptr, allocator) ← c.allocator.allocate build memory
    let live := ptr ::ₘ c.live
    some (⟨allocator, live, max c.peak live.card⟩, some ptr)
  | .deallocate ptr => do
    let allocator ← c.allocator.deallocate build ptr
    some (⟨allocator, c.live.erase ptr, c.peak⟩, none)

/-- `alloc` gives memory that nobody has, and what is given back is in use. -/
def Legal (c : Client) : Call → Prop
  | .allocate memory =>
    (∀ slab ∈ c.allocator.slabs, slab.freeList = []) → c.allocator.Fresh memory
  | .deallocate ptr => ptr ∈ c.live

instance (allocator : SlabAllocator) (memory : Nat) : Decidable (allocator.Fresh memory) :=
  inferInstanceAs (Decidable (_ ∧ _ ∧ _))

instance (c : Client) : ∀ call, Decidable (c.Legal call)
  | .allocate _ =>
    inferInstanceAs (Decidable ((∀ slab ∈ c.allocator.slabs, slab.freeList = []) → _))
  | .deallocate ptr => inferInstanceAs (Decidable (ptr ∈ c.live))

variable {c : Client}

/-- A legal call returns and keeps the invariant. -/
theorem Sound.step (build : Build) (hsize : 0 < blockSize) (hn : 0 < n)
    (hlayout : blockSize * n < 2 ^ 63) (h : c.Sound blockSize n) {call : Call}
    (hlegal : c.Legal call) :
    ∃ c' answer, c.step build call = some (c', answer) ∧ c'.Sound blockSize n := by
  have hfew := h.few
  have hpeak := h.peak
  have hmany := h.many
  cases call with
  | allocate memory =>
    obtain ⟨ptr, allocator, heq, hsound, hlength⟩ :=
      h.allocator.allocate build hsize hn hlayout hlegal
    have hle := hsound.card_le
    refine ⟨⟨allocator, ptr ::ₘ c.live, max c.peak (ptr ::ₘ c.live).card⟩, some ptr, ?_, hsound,
      ?_, ?_, ?_⟩
    · simp only [Client.step, heq, Option.bind_eq_bind, Option.bind_some]
    · show allocator.slabs.length * n < max c.peak (ptr ::ₘ c.live).card + n
      rw [Multiset.card_cons]
      -- a slab is added only when all blocks are live, so there is at most one more than the peak
      -- fills
      rcases hlength with hsame | ⟨hmore, hfull⟩
      · rw [hsame]
        omega
      · rw [hmore, Nat.add_mul, Nat.one_mul, ← hfull]
        omega
    · exact Nat.le_max_right _ _
    · show max c.peak (ptr ::ₘ c.live).card ≤ allocator.slabs.length * n
      rcases hlength with hsame | ⟨hmore, -⟩
      · rw [hsame] at hle ⊢
        exact Nat.max_le.mpr ⟨hmany, hle⟩
      · rw [hmore, Nat.add_mul] at hle ⊢
        exact Nat.max_le.mpr ⟨Nat.le_add_right_of_le hmany, hle⟩
  | deallocate ptr =>
    obtain ⟨rest, hrest⟩ := Multiset.exists_cons_of_mem hlegal
    have hbefore := h.allocator
    obtain ⟨before, slab, after, hslabs, hin, hout⟩ := hbefore.exists_slab hlegal
    rw [hrest] at hbefore hpeak
    obtain ⟨heq, hsound⟩ := hbefore.deallocate build hsize hslabs hin hout
    -- a block that is given back changes its own slab, and the number of slabs stays
    let slabs := before ++ slab.givenBack blockSize ptr (slab.usedCount - 1) :: after
    have hlength : slabs.length = c.allocator.slabs.length := by
      rw [hslabs, List.length_append, List.length_append, List.length_cons, List.length_cons]
    refine ⟨⟨{ c.allocator with slabs }, c.live.erase ptr, c.peak⟩, none, ?_, ?_, ?_, ?_, ?_⟩
    · rw [Client.step, heq]
      rfl
    · rw [hrest, Multiset.erase_cons_head]
      exact hsound
    · rw [← hlength] at hfew
      exact hfew
    · rw [hrest, Multiset.erase_cons_head]
      rw [Multiset.card_cons] at hpeak
      exact Nat.le_of_succ_le hpeak
    · rw [← hlength] at hmany
      exact hmany

/-- A new allocator has nothing. -/
theorem sound_new {allocator : SlabAllocator} (hn : 0 < n) (hlayout : blockSize * n < 2 ^ 63)
    (hnew : SlabAllocator.new build blockSize n = some allocator) :
    (Client.mk allocator 0 0).Sound blockSize n := by
  rw [SlabAllocator.new, Build.mulUsize_of_lt (by omega)] at hnew
  obtain rfl := Option.some.inj hnew
  refine ⟨⟨rfl, rfl, List.Pairwise.nil, List.forall_mem_nil _, ?_⟩, ?_, Nat.le_refl 0,
    Nat.zero_le _⟩
  · intro ptr hptr
    exact absurd hptr (Multiset.notMem_zero ptr)
  · show 0 * n < 0 + n
    omega

/-- After a legal run the invariant holds. -/
theorem sound_of_run {allocator : SlabAllocator} {calls : List Call} (hsize : 0 < blockSize)
    (hn : 0 < n) (hlayout : blockSize * n < 2 ^ 63)
    (hnew : SlabAllocator.new build blockSize n = some allocator)
    (hrun : Run (step build) Legal ⟨allocator, 0, 0⟩ calls c) : c.Sound blockSize n := by
  refine hrun.invariant (fun c call c' answer _ hlegal hstep h => ?_) (sound_new hn hlayout hnew)
  obtain ⟨c'', answer', hstep', hsound⟩ := h.step build hsize hn hlayout hlegal
  rw [hstep] at hstep'
  obtain ⟨rfl, -⟩ := Prod.mk.inj (Option.some.inj hstep')
  exact hsound

theorem new_sample (build : Build) : SlabAllocator.new build 8 2 = some ⟨[], 8, 16⟩ := by
  rw [SlabAllocator.new, Build.mulUsize_of_lt (by decide)]
  rfl

/-- Three blocks, of which the second is given back: the third is in a slab of its own. -/
theorem run_sample (build : Build) :
    Run (step build) Legal ⟨⟨[], 8, 16⟩, 0, 0⟩
      [.allocate 4096, .allocate 0, .allocate 8192, .deallocate 4104]
      ⟨⟨[⟨4096, [1], 1⟩, ⟨8192, [1], 1⟩], 8, 16⟩, {8192, 4096}, 3⟩ := by
  obtain ⟨checks⟩ := build
  cases checks
  all_goals
    exact .cons (by decide) rfl <| .cons (by decide) rfl <| .cons (by decide) rfl <|
      .cons (by decide) rfl .nil

/-- Every block in use is a whole block of a slab, no two have a byte in common, and no legal call
panics. -/
theorem exclusive_of_run {build : Build} {blockSize blocksPerSlab : Nat} {allocator : SlabAllocator}
    {calls : List Call} {c : Client} (hsize : 0 < blockSize) (hblocks : 0 < blocksPerSlab)
    (hlayout : blockSize * blocksPerSlab < 2 ^ 63)
    (hnew : SlabAllocator.new build blockSize blocksPerSlab = some allocator)
    (hrun : Run (step build) Legal ⟨allocator, 0, 0⟩ calls c) :
    c.live.Nodup ∧
    (∀ p ∈ c.live, ∀ q ∈ c.live, p ≠ q → NoOverlap blockSize p q) ∧
    (∀ p ∈ c.live, ∃ slab ∈ c.allocator.slabs, ∃ offset < blocksPerSlab,
      p = slab.memory + offset * blockSize) ∧
    ∀ call, c.Legal call → (c.step build call).isSome := by
  have h := sound_of_run hsize hblocks hlayout hnew hrun
  have hslab : ∀ p ∈ c.live, ∃ slab ∈ c.allocator.slabs,
      p ∈ Lib.blocks blockSize blocksPerSlab slab.memory := by
    intro p hp
    obtain ⟨before, slab, after, hslabs, hin, -⟩ := h.allocator.exists_slab hp
    have hmem : slab ∈ c.allocator.slabs :=
      hslabs ▸ List.mem_append_right before List.mem_cons_self
    exact ⟨slab, hmem, (h.allocator.slabs slab hmem).mem_blocks hp hin⟩
  refine ⟨h.allocator.nodup hsize, ?_, ?_, ?_⟩
  · intro p hp q hq hne
    obtain ⟨slab, hmem, hpin⟩ := hslab p hp
    obtain ⟨other, hother, hqin⟩ := hslab q hq
    obtain ⟨before, after, hslabs⟩ := List.append_of_mem hmem
    have hcases : other = slab ∨ other ∈ before ∨ other ∈ after := by
      rw [hslabs, List.mem_append, List.mem_cons] at hother
      exact hother.elim (fun hb => .inr (.inl hb)) fun ho => ho.imp_right .inr
    rcases hcases with rfl | hother
    · exact apart_of_mem_blocks hpin hqin hne
    · exact (h.allocator.apart_others hslabs hother).of_within (le_of_mem_blocks hpin)
        (le_of_mem_blocks hqin)
  · intro p hp
    obtain ⟨slab, hmem, hpin⟩ := hslab p hp
    obtain ⟨offset, hlt, heq⟩ := Lib.mem_blocks.mp hpin
    exact ⟨slab, hmem, offset, hlt, heq.symm⟩
  · intro call hlegal
    obtain ⟨c', answer, heq, -⟩ := h.step build hsize hblocks hlayout hlegal
    rw [heq, Option.isSome_some]

theorem exclusive_of_run_sample :
    ({8192, 4096} : Multiset Nat).Nodup ∧
    ∀ p ∈ ({8192, 4096} : Multiset Nat), ∀ q ∈ ({8192, 4096} : Multiset Nat),
      p ≠ q → NoOverlap 8 p q :=
  have h := exclusive_of_run (by decide) (by decide) (by decide) (new_sample ⟨false⟩)
    (run_sample ⟨false⟩)
  ⟨h.1, h.2.1⟩

/-- `stats` is exact, and there are as many slabs as it takes for the largest number of blocks that
were in use at one time. -/
theorem stats_of_run {build : Build} {blockSize blocksPerSlab : Nat} {allocator : SlabAllocator}
    {calls : List Call} {c : Client} (hsize : 0 < blockSize) (hblocks : 0 < blocksPerSlab)
    (hlayout : blockSize * blocksPerSlab < 2 ^ 63)
    (hnew : SlabAllocator.new build blockSize blocksPerSlab = some allocator)
    (hrun : Run (step build) Legal ⟨allocator, 0, 0⟩ calls c) :
    let slabs := (c.peak + blocksPerSlab - 1) / blocksPerSlab
    c.allocator.stats build = some
      { totalSlabs := slabs
        totalBlocks := slabs * blocksPerSlab
        usedBlocks := c.live.card
        freeBlocks := slabs * blocksPerSlab - c.live.card
        blockSize } := by
  have h := sound_of_run hsize hblocks hlayout hnew hrun
  have hslabs : (c.peak + blocksPerSlab - 1) / blocksPerSlab = c.allocator.slabs.length := by
    have hfew := h.few
    have hmany := h.many
    have hmul : (c.allocator.slabs.length + 1) * blocksPerSlab
        = c.allocator.slabs.length * blocksPerSlab + blocksPerSlab := Nat.succ_mul _ _
    refine Nat.div_eq_of_lt_le ?_ ?_
    · omega
    · omega
  show c.allocator.stats build = _
  rw [hslabs]
  exact h.allocator.stats hsize

theorem stats_of_run_sample :
    SlabAllocator.stats ⟨true⟩ ⟨[⟨4096, [1], 1⟩, ⟨8192, [1], 1⟩], 8, 16⟩ = some ⟨2, 4, 2, 2, 8⟩ :=
  stats_of_run (by decide) (by decide) (by decide) (new_sample ⟨true⟩) (run_sample ⟨true⟩)

end Client

/-! ## A block that is given back twice -/

/-- The free blocks of slabs in the order in which they are handed out. -/
def Slab.freeBlocks (blockSize : Nat) (slabs : List Slab) : List Nat :=
  slabs.flatMap fun slab => slab.freeList.map (slab.address blockSize)

namespace SlabAllocator

variable {allocator : SlabAllocator}

/-- One `allocate` after another. -/
def allocateAll (build : Build) (allocator : SlabAllocator) :
    List Nat → Option (List Nat × SlabAllocator)
  | [] => some ([], allocator)
  | memory :: memories => do
    let (ptr, allocator) ← allocator.allocate build memory
    let (ptrs, allocator) ← allocator.allocateAll build memories
    some (ptr :: ptrs, allocator)

/-- Slabs without free blocks are passed over. -/
theorem freeBlocks_append_of_full (blockSize : Nat) {before : List Slab} (rest : List Slab)
    (hbefore : ∀ other ∈ before, other.freeList = []) :
    Slab.freeBlocks blockSize (before ++ rest) = Slab.freeBlocks blockSize rest := by
  have hnil : (before.flatMap fun slab => slab.freeList.map (slab.address blockSize)) = [] :=
    List.flatMap_eq_nil_iff.mpr fun slab hslab => by rw [hbefore slab hslab, List.map_nil]
  rw [Slab.freeBlocks, List.flatMap_append, hnil, List.nil_append, Slab.freeBlocks]

/-- All free blocks can be handed out without an overflow. -/
def Fits (build : Build) (allocator : SlabAllocator) : Prop :=
  ∀ slab ∈ allocator.slabs, slab.Fits build allocator.blockSize

/-- The first free block is handed out, and the others stay. -/
theorem allocate_of_free (hfits : allocator.Fits build) (memory : Nat) {ptr : Nat}
    {rest : List Nat} (h : Slab.freeBlocks allocator.blockSize allocator.slabs = ptr :: rest) :
    ∃ allocator', allocator.allocate build memory = some (ptr, allocator') ∧
      allocator'.Fits build ∧ Slab.freeBlocks allocator'.blockSize allocator'.slabs = rest := by
  rcases Slab.full_or_exists_free allocator.slabs with
    hfull | ⟨before, slab, after, offset, freeList, hslabs, hbefore, hfree⟩
  · have hnone := freeBlocks_append_of_full allocator.blockSize [] hfull
    rw [List.append_nil, h] at hnone
    cases hnone
  · have hslab := hfits slab (hslabs ▸ List.mem_append_right before List.mem_cons_self)
    rw [hslabs, freeBlocks_append_of_full _ _ hbefore, Slab.freeBlocks, List.flatMap_cons, hfree,
      List.map_cons, List.cons_append] at h
    obtain ⟨rfl, hrest⟩ := List.cons.inj h
    have hpop := @Slab.popFirst_of_free build _ _ _ _ _ after hbefore hfree hslab
    refine ⟨{ allocator with slabs := before ++ slab.popped freeList :: after }, ?_, ?_, ?_⟩
    · simp only [allocate, hslabs, hpop, Option.bind_eq_bind, Option.bind_some]
    · intro other hother
      rcases List.mem_append.mp hother with hother | hother
      · exact hfits other (hslabs ▸ List.mem_append_left _ hother)
      · rcases List.mem_cons.mp hother with rfl | hother
        · exact hslab.popped hfree
        · exact hfits other (hslabs ▸ List.mem_append_right before (List.mem_cons_of_mem _ hother))
    · show Slab.freeBlocks allocator.blockSize (before ++ slab.popped freeList :: after) = rest
      rw [freeBlocks_append_of_full _ _ hbefore, Slab.freeBlocks, List.flatMap_cons]
      exact hrest

/-- The free blocks are handed out in their order. -/
theorem allocateAll_of_free {memories ptrs rest : List Nat} (hfits : allocator.Fits build)
    (h : Slab.freeBlocks allocator.blockSize allocator.slabs = ptrs ++ rest)
    (hlength : memories.length = ptrs.length) :
    ∃ allocator', allocator.allocateAll build memories = some (ptrs, allocator') := by
  induction memories generalizing allocator ptrs with
  | nil =>
    obtain rfl := List.length_eq_zero_iff.mp hlength.symm
    exact ⟨allocator, rfl⟩
  | cons memory memories ih =>
    cases ptrs with
    | nil => cases hlength
    | cons ptr ptrs =>
      obtain ⟨allocator', hfirst, hfits', hfree⟩ := allocate_of_free hfits memory h
      obtain ⟨allocator'', hall⟩ := ih hfits' hfree (Nat.succ.inj hlength)
      refine ⟨allocator'', ?_⟩
      simp only [allocateAll, hfirst, hall, Option.bind_eq_bind, Option.bind_some]

/-- A block that has been given back is the first free one of its slab. -/
theorem map_givenBack (usedCount : Nat)
    (haddress : slab.address blockSize ((ptr - slab.memory) / blockSize) = ptr) :
    (slab.givenBack blockSize ptr usedCount).freeList.map
        ((slab.givenBack blockSize ptr usedCount).address blockSize)
      = ptr :: slab.freeList.map (slab.address blockSize) := by
  show slab.address blockSize ((ptr - slab.memory) / blockSize) :: _ = _
  rw [haddress]
  rfl

/-- The block is alone in its slab exactly if the slab counts no block when it has been given
back. -/
theorem Sound.usedCount_eq_zero_iff {given : Slab} (hgiven : given.Sound blockSize n live)
    (hptr : ptr ∉ live) : given.usedCount = 0 ↔
      ∀ other ∈ ptr ::ₘ live, Inside (blockSize * n) given.memory other → other = ptr := by
  rw [hgiven.count, Multiset.card_eq_zero, Multiset.eq_zero_iff_forall_notMem]
  constructor
  · intro hnone other hother hin
    refine (Multiset.mem_cons.mp hother).resolve_right fun hlive => ?_
    exact hnone other (Multiset.mem_filter.mpr ⟨hlive, hin⟩)
  · intro hall other hother
    obtain ⟨hlive, hin⟩ := Multiset.mem_filter.mp hother
    have heq := hall other (Multiset.mem_cons_of_mem hlive) hin
    exact hptr (heq ▸ hlive)

/-- A second `deallocate` of a block panics exactly if the build checks and the block was alone in
its slab. If it does not panic, the block is handed out twice, after the free blocks of the slabs
before its own. -/
theorem Sound.deallocate_twice (build : Build) (h : allocator.Sound blockSize n live)
    (hsize : 0 < blockSize) (hptr : ptr ∈ live) :
    ∃ before slab after once, allocator.slabs = before ++ slab :: after ∧
      Inside (blockSize * n) slab.memory ptr ∧ allocator.deallocate build ptr = some once ∧
      (once.deallocate build ptr = none ↔ build.overflowChecks = true ∧
        ∀ other ∈ live, Inside (blockSize * n) slab.memory other → other = ptr) ∧
      ∀ twice, once.deallocate build ptr = some twice → ∀ memories : List Nat,
        memories.length = (Slab.freeBlocks blockSize before).length + 2 →
          ∃ allocator', twice.allocateAll build memories
            = some (Slab.freeBlocks blockSize before ++ [ptr, ptr], allocator') := by
  obtain rfl := h.block
  have hnodup := h.nodup hsize
  obtain ⟨rest, rfl⟩ := Multiset.exists_cons_of_mem hptr
  obtain ⟨before, slab, after, hslabs, hin, hout⟩ := h.exists_slab hptr
  obtain ⟨honce, hsound⟩ := h.deallocate build hsize hslabs hin hout
  have hmem : slab ∈ allocator.slabs := hslabs ▸ List.mem_append_right before List.mem_cons_self
  let given := slab.givenBack allocator.blockSize ptr (slab.usedCount - 1)
  let once := { allocator with slabs := before ++ given :: after }
  have hgiven : given.Sound allocator.blockSize n rest :=
    hsound.slabs given (List.mem_append_right before List.mem_cons_self)
  have hcount := hgiven.count_add
  have hlt := hgiven.count_lt hsize
  have hagain : once.deallocate build ptr = (build.subUsize given.usedCount 1).map fun usedCount =>
      { allocator with
        slabs := before ++ given.givenBack allocator.blockSize ptr usedCount :: after } := by
    have hpush := @Sound.pushFirst_eq _ _ _ given _ once before after build hsound hsize rfl hin
      fun other hother => hout other (.inl hother)
    rw [SlabAllocator.deallocate, hpush]
    cases build.subUsize given.usedCount 1 <;> rfl
  refine ⟨before, slab, after, once, hslabs, hin, honce, ?_, ?_⟩
  · have halone := Sound.usedCount_eq_zero_iff hgiven (Multiset.nodup_cons.mp hnodup).1
    rw [hagain, Option.map_eq_none_iff, Build.subUsize]
    show _ ↔ _ ∧ ∀ other ∈ ptr ::ₘ rest, Inside (allocator.blockSize * n) given.memory other → _
    rw [← halone]
    split
    next hpanic => exact iff_of_true rfl ⟨hpanic.1, Nat.lt_one_iff.mp hpanic.2⟩
    next hno =>
      exact iff_of_false (Option.some_ne_none _) fun hboth =>
        hno ⟨hboth.1, Nat.lt_one_iff.mpr hboth.2⟩
  · intro twice htwice memories hlength
    rw [hagain, Option.map_eq_some_iff] at htwice
    obtain ⟨usedCount, husedCount, rfl⟩ := htwice
    -- the block stands at the head of the free list two times
    obtain ⟨i, -, hi⟩ := Lib.mem_blocks.mp ((h.slabs slab hmem).mem_blocks hptr hin)
    have haddress :
        slab.address allocator.blockSize ((ptr - slab.memory) / allocator.blockSize) = ptr := by
      rw [← hi, div_of_mem_blocks hsize, Slab.address]
    have hgivenaddress : given.address allocator.blockSize
        ((ptr - given.memory) / allocator.blockSize) = ptr := haddress
    have hfree : Slab.freeBlocks allocator.blockSize
        (before ++ given.givenBack allocator.blockSize ptr usedCount :: after)
          = (Slab.freeBlocks allocator.blockSize before ++ [ptr, ptr]) ++
            (slab.freeList.map (slab.address allocator.blockSize) ++
              Slab.freeBlocks allocator.blockSize after) := by
      rw [Slab.freeBlocks, List.flatMap_append, List.flatMap_cons,
        map_givenBack usedCount hgivenaddress, map_givenBack _ haddress, List.append_assoc]
      rfl
    have hfits : ({ allocator with
        slabs := before ++ given.givenBack allocator.blockSize ptr usedCount :: after } :
          SlabAllocator).Fits build := by
      intro other hother
      have hold : other ∈ before ∨ other ∈ after → other.Fits build allocator.blockSize :=
        fun hother => (h.slabs other (mem_of_others hslabs hother)).fits_free hsize
      rcases List.mem_append.mp hother with hother | hother
      · exact hold (.inl hother)
      · rcases List.mem_cons.mp hother with rfl | hother
        · refine (hgiven.fits_free hsize).givenBack ?_ husedCount
          exact Nat.lt_trans hin.2 (h.slabs slab hmem).fits
        · exact hold (.inr hother)
    refine allocateAll_of_free hfits hfree ?_
    rw [hlength, List.length_append]
    rfl

end SlabAllocator

namespace Client

/-- After every run, a second `deallocate` of a block panics if and only if the build has overflow
checks and the slab of the block has no other block in use. In all other cases two later calls of
`allocate` give the block, after those that give the free blocks of the slabs before its own. -/
theorem freed_twice_of_run {build : Build} {blockSize blocksPerSlab : Nat}
    {allocator : SlabAllocator} {calls : List Call} {c : Client} {ptr : Nat} (hsize : 0 < blockSize)
    (hblocks : 0 < blocksPerSlab) (hlayout : blockSize * blocksPerSlab < 2 ^ 63)
    (hnew : SlabAllocator.new build blockSize blocksPerSlab = some allocator)
    (hrun : Run (step build) Legal ⟨allocator, 0, 0⟩ calls c) (hptr : ptr ∈ c.live) :
    ∃ before slab after once, c.allocator.slabs = before ++ slab :: after ∧
      Inside (blockSize * blocksPerSlab) slab.memory ptr ∧
      c.allocator.deallocate build ptr = some once ∧
      (once.deallocate build ptr = none ↔ build.overflowChecks = true ∧
        ∀ other ∈ c.live, Inside (blockSize * blocksPerSlab) slab.memory other → other = ptr) ∧
      ∀ twice, once.deallocate build ptr = some twice → ∀ memories : List Nat,
        memories.length = (Slab.freeBlocks blockSize before).length + 2 →
          ∃ allocator', twice.allocateAll build memories
            = some (Slab.freeBlocks blockSize before ++ [ptr, ptr], allocator') :=
  (sound_of_run hsize hblocks hlayout hnew hrun).allocator.deallocate_twice build hsize hptr

/-- A block that is alone in its slab: with overflow checks the second call panics, and without them
the block is handed out twice, after the free one of the first slab. -/
theorem freed_twice_of_run_sample :
    let allocator : SlabAllocator := ⟨[⟨4096, [1], 1⟩, ⟨8192, [1], 1⟩], 8, 16⟩
    (∃ once, allocator.deallocate ⟨true⟩ 8192 = some once ∧ once.deallocate ⟨true⟩ 8192 = none) ∧
      ∃ once twice allocator', allocator.deallocate ⟨false⟩ 8192 = some once ∧
        once.deallocate ⟨false⟩ 8192 = some twice ∧
        twice.allocateAll ⟨false⟩ [0, 0, 0] = some ([4104, 8192, 8192], allocator') := by
  intro allocator
  -- The slab of the address is the second one, however the list is cut.
  have hsecond : ∀ {before slab after}, allocator.slabs = before ++ slab :: after →
      Inside (8 * 2) slab.memory 8192 → before = [⟨4096, [1], 1⟩] ∧ slab.memory = 8192 := by
    intro before slab after hslabs hin
    rcases before with _ | ⟨first, _ | ⟨second, before⟩⟩
    · obtain ⟨rfl, -⟩ := List.cons.inj hslabs
      exact absurd hin (by decide)
    · obtain ⟨rfl, hrest⟩ := List.cons.inj hslabs
      obtain ⟨rfl, -⟩ := List.cons.inj hrest
      exact ⟨rfl, rfl⟩
    · have hlength := congrArg List.length hslabs
      simp only [allocator, List.length_append, List.length_cons, List.length_nil] at hlength
      omega
  have htwice := fun build : Build => freed_twice_of_run (by decide) (by decide) (by decide)
    (new_sample build) (run_sample build) (show 8192 ∈ _ by decide)
  constructor
  · obtain ⟨before, slab, after, once, hslabs, hin, honce, hpanic, -⟩ := htwice ⟨true⟩
    obtain ⟨-, hmemory⟩ := hsecond hslabs hin
    refine ⟨once, honce, hpanic.mpr ⟨rfl, ?_⟩⟩
    rw [hmemory]
    decide
  · obtain ⟨before, slab, after, once, hslabs, hin, honce, hpanic, hall⟩ := htwice ⟨false⟩
    obtain ⟨hbefore, -⟩ := hsecond hslabs hin
    cases hdealloc : once.deallocate ⟨false⟩ 8192 with
    | none => exact absurd (hpanic.mp hdealloc).1 Bool.false_ne_true
    | some twice =>
      rw [hbefore] at hall
      obtain ⟨allocator', hgiven⟩ := hall twice hdealloc [0, 0, 0] rfl
      exact ⟨once, twice, allocator', honce, hdealloc, hgiven⟩

end Client

end InterBit.Optimization
