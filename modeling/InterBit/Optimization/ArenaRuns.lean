import Mathlib.Algebra.Order.BigOperators.Group.List
import InterBit.Optimization.Arena

/-!
# Runs of the arena

Objects are allocated, written through their pointers and given up together by `clear`, in any
order. Every object reads as it was last written (`load_of_run`). `allocate` is next fit, which
bounds the number of chunks by what is allocated (`chunks_of_run`).

Both hold in every build. With overflow checks the requests are arbitrary, and one that overflows
panics, which ends the run. Without them they are those that a `Layout` allows (`Legal`).

The bound on the chunks is an argument about neighbours: an object that has come into a new chunk
has not fitted into the one before, so two chunks in a row are at least as full as one chunk, up to
the rounding (`Counted`). It needs a largest alignment, which is a parameter of the run.
-/

namespace InterBit.Optimization

open InterBit.Lib

/-- A call. -/
inductive ArenaCall where
  /-- `allocate`; a new chunk would stand at `base`. -/
  | allocate (size align base : Nat)
  /-- `allocate_copy`; a new chunk would stand at `base`. -/
  | allocateCopy (value : List UInt8) (align base : Nat)
  /-- The `k`-th object is written through its pointer. -/
  | write (k : Nat) (data : List UInt8)
  /-- `clear`. -/
  | clear (base capacity : Nat)

/-- The alignment that a call asks for. -/
def ArenaCall.align : ArenaCall → Nat
  | .allocate _ align _ => align
  | .allocateCopy _ align _ => align
  | .write .. => 0
  | .clear .. => 0

/-- The bytes of all chunks that are in use or lost to an alignment. -/
def Arena.used (arena : Arena) : Nat := (arena.all.map ArenaChunk.used).sum

namespace Holder

/-- A call and its answer. -/
def step (build : Build) (h : Holder) : ArenaCall → Option (Holder × Option Nat)
  | .allocate size align base => do
    let (ptr, arena) ← h.arena.allocate build size align base
    some (⟨arena, h.objects ++ [⟨ptr, List.replicate size 0, align⟩]⟩, some ptr)
  | .allocateCopy value align base => do
    let (ptr, arena) ← h.arena.allocateCopy build value align base
    some (⟨arena, h.objects ++ [⟨ptr, value, align⟩]⟩, some ptr)
  | .write k data => do
    let object ← h.objects[k]?
    some (⟨h.arena.store object.ptr data, h.objects.set k { object with data }⟩, none)
  | .clear base capacity => some (⟨h.arena.clear base capacity, []⟩, none)

/-- A request does not wrap around, new chunks are apart from the old ones, and nothing is written
beyond an object. -/
def Legal (build : Build) (h : Holder) : ArenaCall → Prop
  | .allocate size align base => Asks build size align ∧ h.Fresh build size align base
  | .allocateCopy value align base =>
    Asks build value.length align ∧ h.Fresh build value.length align base
  | .write k data => ∀ object, h.objects[k]? = some object → data.length = object.data.length
  | .clear base capacity => h.arena.chunkSize ≤ capacity ∧ Reserves base capacity

variable {build : Build} {h h' : Holder} {call : ArenaCall} {answer : Option Nat}

/-- An arena with an empty chunk, as `new` and `clear` leave it. -/
theorem sound_withCapacity (chunkSize : Nat) {base capacity : Nat}
    (hreserved : Reserves base capacity) :
    Sound ⟨⟨[], some (.withCapacity base capacity), chunkSize⟩, []⟩ where
  chunks := by
    intro chunk hchunk
    rw [List.mem_singleton.mp hchunk]
    exact ArenaChunk.sound_withCapacity hreserved
  apart := List.pairwise_singleton _ _
  kept := List.forall_mem_nil _
  objects := List.Pairwise.nil

/-- A legal call keeps the invariant. -/
theorem Sound.step (hs : h.Sound) (hlegal : h.Legal build call)
    (heq : h.step build call = some (h', answer)) : h'.Sound := by
  cases call with
  | allocate size align base =>
    simp only [Holder.step, Option.bind_eq_bind, Option.bind_eq_some_iff, Option.some.injEq,
      Prod.mk.injEq, Prod.exists] at heq
    obtain ⟨ptr, arena, hallocate, rfl, -⟩ := heq
    exact hs.allocate hallocate hlegal.1 hlegal.2
  | allocateCopy value align base =>
    simp only [Holder.step, Arena.allocateCopy, Option.bind_eq_bind, Option.bind_eq_some_iff,
      Option.some.injEq, Prod.mk.injEq, Prod.exists] at heq
    obtain ⟨ptr, arena, ⟨ptr', arena', hallocate, rfl, rfl⟩, rfl, -⟩ := heq
    exact (hs.allocate hallocate hlegal.1 hlegal.2).write rfl List.length_replicate.symm
  | write k data =>
    simp only [Holder.step, Option.bind_eq_bind, Option.bind_eq_some_iff, Option.some.injEq,
      Prod.mk.injEq] at heq
    obtain ⟨object, hobject, rfl, -⟩ := heq
    obtain ⟨hk, rfl⟩ := List.getElem?_eq_some_iff.mp hobject
    rw [List.set_eq_take_append_cons_drop, if_pos hk]
    refine hs.write ?_ (hlegal _ hobject)
    rw [List.getElem_cons_drop, List.take_append_drop]
  | clear base capacity =>
    obtain ⟨rfl, -⟩ := Prod.mk.inj (Option.some.inj heq)
    exact sound_withCapacity _ hlegal.2

/-- An object is read where it stands. -/
theorem Sound.load_eq (hs : h.Sound) {object : ArenaObject} (hobject : object ∈ h.objects) :
    h.arena.load object.ptr object.data.length = some object.data := by
  obtain ⟨keeper, hkeeper, hkept⟩ := hs.kept object hobject
  cases hfind : h.arena.all.find? fun chunk =>
      decide (Span.Within ⟨object.ptr, object.data.length⟩ ⟨chunk.base, chunk.memory.length⟩) with
  | none =>
    have hnot := List.find?_eq_none.mp hfind keeper hkeeper
    exact absurd (decide_eq_true hkept.holds.1) hnot
  | some chunk =>
    have hin := List.find?_some hfind
    rw [decide_eq_true_eq] at hin
    have hchunk := List.mem_of_find?_eq_some hfind
    have hroom : object.span.Within chunk.room :=
      ⟨hin.1, Nat.le_trans hin.2 (Nat.add_le_add_left (hs.chunks chunk hchunk).fits _)⟩
    have hkeptroom := hkept.within_room (hs.chunks keeper hkeeper)
    simp only [Arena.load, hfind, Option.bind_eq_bind, Option.bind_some, Option.some.injEq]
    rcases hs.eq_or_size_eq_zero hkeeper hchunk hkeptroom hroom with rfl | hempty
    · exact hkept.holds.load_eq
    · have hdata : object.data = [] := List.length_eq_zero_iff.mp hempty
      rw [hdata, Lib.load, List.length_nil, List.take_zero]

/-! ## How much memory it takes -/

/-- The chunks fit into the addresses, so `stats` adds up without an overflow. -/
theorem Sound.stats_eq (hs : h.Sound) : h.arena.stats build = some
    { chunksCount := h.arena.chunks.length + if h.arena.currentChunk.isSome then 1 else 0
      totalAllocated := (h.arena.all.map ArenaChunk.capacity).sum
      totalUsed := h.arena.used } := by
  have hallocated : (h.arena.all.map ArenaChunk.capacity).sum < 2 ^ 64 := by
    have hsum := @sum_size_le 1 (2 ^ 64) (h.arena.all.map ArenaChunk.room) hs.apart <| by
      refine List.forall_mem_map.mpr fun chunk hchunk => ?_
      obtain ⟨hbase, -, hlast⟩ := (hs.chunks chunk hchunk).reserved
      exact ⟨hbase, Nat.le_of_lt hlast⟩
    rw [List.map_map] at hsum
    exact Nat.lt_of_le_of_lt hsum (by decide)
  have hused : h.arena.used ≤ (h.arena.all.map ArenaChunk.capacity).sum := by
    refine List.sum_le_sum fun chunk hchunk => ?_
    exact Nat.le_trans (hs.chunks chunk hchunk).written (hs.chunks chunk hchunk).fits
  have hallocated' := @Build.foldlM_addUsize build (h.arena.all.map ArenaChunk.capacity) 0
  have hused' := @Build.foldlM_addUsize build (h.arena.all.map ArenaChunk.used) 0
  rw [Nat.zero_add] at hallocated' hused'
  simp only [Arena.stats, hallocated' hallocated, hused' (Nat.lt_of_le_of_lt hused hallocated),
    Option.bind_eq_bind, Option.bind_some, Arena.used]

/-- With alignments of at most `align`, an object takes less than `align` bytes more than its size,
and a chunk and the next one are at least as full as one chunk, but for an alignment. -/
structure Counted (align : Nat) (h : Holder) : Prop where
  current : ∃ chunk, h.arena.currentChunk = some chunk
  large : ∀ chunk ∈ h.arena.all, h.arena.chunkSize ≤ chunk.capacity
  full : (h.arena.all.map ArenaChunk.used).IsChain fun a b => h.arena.chunkSize + 2 - align ≤ a + b
  least : (h.objects.map fun object => object.data.length).sum ≤ h.arena.used
  most : h.arena.used + h.objects.length
    ≤ (h.objects.map fun object => object.data.length).sum + h.objects.length * align

variable {align : Nat}

/-- One more object, which is at most an alignment above what was in use. -/
theorem Counted.concat {arena : Arena} {object : ArenaObject}
    (hs : h.Counted align) (hcurrent : ∃ chunk, arena.currentChunk = some chunk)
    (hlarge : ∀ chunk ∈ arena.all, arena.chunkSize ≤ chunk.capacity)
    (hfull : (arena.all.map ArenaChunk.used).IsChain fun a b => arena.chunkSize + 2 - align ≤ a + b)
    (hleast : h.arena.used + object.data.length ≤ arena.used)
    (hmost : arena.used + 1
      ≤ h.arena.used + object.data.length + align) :
    Counted align ⟨arena, h.objects ++ [object]⟩ := by
  have hleast' := hs.least
  have hmost' := hs.most
  have hsum : ((h.objects ++ [object]).map fun object => object.data.length).sum
      = (h.objects.map fun object => object.data.length).sum + object.data.length := by
    rw [List.map_append, List.sum_append, List.map_singleton, List.sum_singleton]
  refine ⟨hcurrent, hlarge, hfull, ?_, ?_⟩
  · show ((h.objects ++ [object]).map fun object => object.data.length).sum ≤ arena.used
    rw [hsum]
    omega
  · show arena.used + (h.objects ++ [object]).length
      ≤ ((h.objects ++ [object]).map fun object => object.data.length).sum
        + (h.objects ++ [object]).length * align
    rw [hsum, List.length_append, List.length_singleton, Nat.add_mul, Nat.one_mul]
    omega

/-- What is in use in a list of chunks and one more. -/
theorem sum_used_concat (chunks : List ArenaChunk) (chunk : ArenaChunk) :
    ((chunks ++ [chunk]).map ArenaChunk.used).sum
      = (chunks.map ArenaChunk.used).sum + chunk.used := by
  rw [List.map_append, List.sum_append, List.map_singleton, List.sum_singleton]

/-- One more object keeps the bounds. -/
theorem Counted.allocate {arena : Arena} {size align' base ptr : Nat} (hs : h.Counted align)
    (hsound : h.Sound) (halign : align' ≤ align)
    (heq : h.arena.allocate build size align' base = some (ptr, arena))
    (hasks : Asks build size align') {object : ArenaObject} (hobject : object.data.length = size) :
    Counted align ⟨arena, h.objects ++ [object]⟩ := by
  obtain ⟨chunk, hchunk⟩ := hs.current
  have hall : h.arena.all = h.arena.chunks ++ [chunk] := by
    rw [Arena.all, hchunk, Option.toList_some]
  have hused : h.arena.used = (h.arena.chunks.map ArenaChunk.used).sum + chunk.used := by
    show (h.arena.all.map ArenaChunk.used).sum = _
    rw [hall, sum_used_concat]
  have hlarge := hs.large
  have hfull := hs.full
  rcases cases_of_allocate heq hasks fun _ => hsound.used_lt with
    ⟨chunk', offset, hcurrent, hoffset, hlt, -, -, -, rfl⟩ | ⟨hgrow, hplace⟩
  · -- the current chunk goes up to the end of the object
    obtain rfl := Option.some.inj (hchunk.symm.trans hcurrent)
    let next := chunk.extend (offset + size)
    have hused' : ((h.arena.chunks ++ [next]).map ArenaChunk.used).sum
        = (h.arena.chunks.map ArenaChunk.used).sum + (offset + size) :=
      sum_used_concat h.arena.chunks next
    rw [hall] at hlarge hfull
    refine hs.concat ⟨next, rfl⟩ ?_ ?_ ?_ ?_
    · show ∀ chunk ∈ h.arena.chunks ++ [next], h.arena.chunkSize ≤ chunk.capacity
      rw [List.forall_mem_append, List.forall_mem_singleton] at hlarge ⊢
      exact hlarge
    · show ((h.arena.chunks ++ [next]).map ArenaChunk.used).IsChain _
      rw [List.map_append] at hfull ⊢
      exact isChain_concat_mono hfull (show chunk.used ≤ offset + size by omega)
    · show h.arena.used + object.data.length
        ≤ ((h.arena.chunks ++ [next]).map ArenaChunk.used).sum
      omega
    · show ((h.arena.chunks ++ [next]).map ArenaChunk.used).sum + 1
        ≤ h.arena.used + object.data.length + align
      omega
  · -- a new chunk, since the object does not fit into the current one
    simp only [Arena.grow, Option.ite_none_left_eq_some, Option.some.injEq, Prod.mk.injEq] at hgrow
    obtain ⟨-, -, rfl⟩ := hgrow
    let capacity := max size h.arena.chunkSize
    let fresh : ArenaChunk := ⟨base, List.replicate capacity 0, capacity, size⟩
    have hused' : ((h.arena.all ++ [fresh]).map ArenaChunk.used).sum
        = (h.arena.all.map ArenaChunk.used).sum + size := sum_used_concat h.arena.all fresh
    obtain ⟨-, hpos, hnotfull⟩ := hplace chunk hchunk
    have hcapacity := hlarge chunk (hall ▸ List.mem_append_right _ List.mem_cons_self)
    refine hs.concat ⟨fresh, rfl⟩ ?_ ?_ ?_ ?_
    · show ∀ chunk ∈ h.arena.all ++ [fresh], h.arena.chunkSize ≤ chunk.capacity
      rw [List.forall_mem_append, List.forall_mem_singleton]
      exact ⟨hlarge, Nat.le_max_right _ _⟩
    · show ((h.arena.all ++ [fresh]).map ArenaChunk.used).IsChain _
      rw [hall, List.map_append] at hfull
      rw [hall, List.append_assoc, List.map_append]
      show (_ ++ [chunk.used, size]).IsChain _
      rw [List.isChain_append_cons_cons]
      refine ⟨hfull, ?_, List.isChain_singleton size⟩
      show h.arena.chunkSize + 2 - align ≤ chunk.used + size
      omega
    · show (h.arena.all.map ArenaChunk.used).sum + object.data.length
        ≤ ((h.arena.all ++ [fresh]).map ArenaChunk.used).sum
      omega
    · show ((h.arena.all ++ [fresh]).map ArenaChunk.used).sum + 1
        ≤ (h.arena.all.map ArenaChunk.used).sum + object.data.length + align
      omega

/-- A write changes neither what is in use nor the sizes. -/
theorem Counted.write {before after : List ArenaObject} {object : ArenaObject} {data : List UInt8}
    (hs : h.Counted align) (hobjects : h.objects = before ++ object :: after)
    (hlength : data.length = object.data.length) :
    Counted align ⟨h.arena.store object.ptr data, before ++ { object with data } :: after⟩ := by
  have hused : (h.arena.store object.ptr data).all.map ArenaChunk.used
      = h.arena.all.map ArenaChunk.used := by
    rw [all_store, List.map_map]
    rfl
  have hsizes : ((before ++ { object with data } :: after).map fun object => object.data.length)
      = h.objects.map fun object => object.data.length := by
    rw [hobjects, List.map_append, List.map_append, List.map_cons, List.map_cons, hlength]
  have hcount : (before ++ { object with data } :: after).length = h.objects.length := by
    rw [hobjects, List.length_append, List.length_append, List.length_cons, List.length_cons]
  obtain ⟨chunk, hchunk⟩ := hs.current
  refine ⟨⟨chunk.write object.ptr data, ?_⟩, ?_, ?_, ?_, ?_⟩
  · show h.arena.currentChunk.map _ = _
    rw [hchunk, Option.map_some]
  · show ∀ chunk ∈ (h.arena.store object.ptr data).all, h.arena.chunkSize ≤ chunk.capacity
    rw [all_store, List.forall_mem_map]
    exact hs.large
  · show ((h.arena.store object.ptr data).all.map ArenaChunk.used).IsChain _
    rw [hused]
    exact hs.full
  · show ((before ++ { object with data } :: after).map fun object => object.data.length).sum
      ≤ ((h.arena.store object.ptr data).all.map ArenaChunk.used).sum
    rw [hsizes, hused]
    exact hs.least
  · show ((h.arena.store object.ptr data).all.map ArenaChunk.used).sum
        + (before ++ { object with data } :: after).length
      ≤ ((before ++ { object with data } :: after).map fun object => object.data.length).sum
        + (before ++ { object with data } :: after).length * align
    rw [hsizes, hused, hcount]
    exact hs.most

theorem counted_withCapacity {chunkSize base capacity : Nat} (hle : chunkSize ≤ capacity) :
    Counted align ⟨⟨[], some (.withCapacity base capacity), chunkSize⟩, []⟩ where
  current := ⟨_, rfl⟩
  large := by
    intro chunk hchunk
    rw [List.mem_singleton.mp hchunk]
    exact hle
  full := List.isChain_singleton _
  least := Nat.zero_le _
  most := by
    show 0 + 0 ≤ 0 + 0 * align
    omega

/-- `allocate` leaves the size of the chunks. -/
theorem chunkSize_of_allocate {before after : Arena} {size align base ptr : Nat}
    (heq : before.allocate build size align base = some (ptr, after)) :
    after.chunkSize = before.chunkSize := by
  have hgrow : ∀ {after}, before.grow size base = some (ptr, after) →
      after.chunkSize = before.chunkSize := by
    intro after heq
    simp only [Arena.grow, Option.ite_none_left_eq_some, Option.some.injEq, Prod.mk.injEq] at heq
    rw [← heq.2.2]
  unfold Arena.allocate at heq
  cases hcurrent : before.currentChunk with
  | none =>
    rw [hcurrent] at heq
    exact hgrow heq
  | some chunk =>
    simp only [hcurrent, Option.bind_eq_bind, Option.bind_eq_some_iff] at heq
    obtain ⟨found, -, heq⟩ := heq
    cases found with
    | none => exact hgrow heq
    | some place => exact (congrArg (fun r => r.2.chunkSize) (Option.some.inj heq)).symm

/-- The size of the chunks stays. -/
theorem chunkSize_of_step (heq : h.step build call = some (h', answer)) :
    h'.arena.chunkSize = h.arena.chunkSize := by
  cases call with
  | allocate size align base =>
    simp only [Holder.step, Option.bind_eq_bind, Option.bind_eq_some_iff, Option.some.injEq,
      Prod.mk.injEq, Prod.exists] at heq
    obtain ⟨ptr, arena, hallocate, rfl, -⟩ := heq
    exact chunkSize_of_allocate hallocate
  | allocateCopy value align base =>
    simp only [Holder.step, Arena.allocateCopy, Option.bind_eq_bind, Option.bind_eq_some_iff,
      Option.some.injEq, Prod.mk.injEq, Prod.exists] at heq
    obtain ⟨ptr, arena, ⟨ptr', arena', hallocate, rfl, rfl⟩, rfl, -⟩ := heq
    show arena'.chunkSize = h.arena.chunkSize
    exact chunkSize_of_allocate hallocate
  | write k data =>
    simp only [Holder.step, Option.bind_eq_bind, Option.bind_eq_some_iff, Option.some.injEq,
      Prod.mk.injEq] at heq
    obtain ⟨object, -, rfl, -⟩ := heq
    rfl
  | clear base capacity =>
    obtain ⟨rfl, -⟩ := Prod.mk.inj (Option.some.inj heq)
    rfl

/-- A legal call keeps the bounds. -/
theorem Counted.step (hs : h.Counted align) (hsound : h.Sound) (hlegal : h.Legal build call)
    (halign : call.align ≤ align) (heq : h.step build call = some (h', answer)) :
    h'.Counted align := by
  cases call with
  | allocate size align' base =>
    simp only [Holder.step, Option.bind_eq_bind, Option.bind_eq_some_iff, Option.some.injEq,
      Prod.mk.injEq, Prod.exists] at heq
    obtain ⟨ptr, arena, hallocate, rfl, -⟩ := heq
    exact hs.allocate hsound halign hallocate hlegal.1 List.length_replicate
  | allocateCopy value align' base =>
    simp only [Holder.step, Arena.allocateCopy, Option.bind_eq_bind, Option.bind_eq_some_iff,
      Option.some.injEq, Prod.mk.injEq, Prod.exists] at heq
    obtain ⟨ptr, arena, ⟨ptr', arena', hallocate, rfl, rfl⟩, rfl, -⟩ := heq
    let object : ArenaObject := ⟨ptr', List.replicate value.length 0, align'⟩
    have hzeros : object.data.length = value.length := List.length_replicate
    exact (hs.allocate hsound halign hallocate hlegal.1 hzeros).write rfl hzeros.symm
  | write k data =>
    simp only [Holder.step, Option.bind_eq_bind, Option.bind_eq_some_iff, Option.some.injEq,
      Prod.mk.injEq] at heq
    obtain ⟨object, hobject, rfl, -⟩ := heq
    obtain ⟨hk, rfl⟩ := List.getElem?_eq_some_iff.mp hobject
    rw [List.set_eq_take_append_cons_drop, if_pos hk]
    refine hs.write ?_ (hlegal _ hobject)
    rw [List.getElem_cons_drop, List.take_append_drop]
  | clear base capacity =>
    obtain ⟨rfl, -⟩ := Prod.mk.inj (Option.some.inj heq)
    exact counted_withCapacity hlegal.1

/-! ## Runs -/

/-- After a legal run the invariant holds. -/
theorem sound_of_run {chunkSize base capacity : Nat} {calls : List ArenaCall}
    (hreserved : Reserves base capacity)
    (hrun : Run (step build) (Legal build) ⟨.new chunkSize base capacity, []⟩ calls h) :
    h.Sound :=
  hrun.invariant (fun _ _ _ _ _ hlegal hstep hs => hs.step hlegal hstep)
    (sound_withCapacity _ hreserved)

/-- Two objects in one chunk, of which the second is written, and one in a chunk of its own; without
overflow checks. -/
theorem arena_sample :
    Run (step ⟨false⟩) (fun h call => h.Legal ⟨false⟩ call ∧ call.align ≤ 8) ⟨.new 16 1000 16, []⟩
      [.allocateCopy [1, 2, 3] 1 0, .allocate 4 8 0, .write 1 [9, 9, 9, 9], .allocate 10 1 2000]
      ⟨⟨[⟨1000, [1, 2, 3, 0, 0, 0, 0, 0, 9, 9, 9, 9], 16, 12⟩],
          some ⟨2000, List.replicate 16 0, 16, 10⟩, 16⟩,
        [⟨1000, [1, 2, 3], 1⟩, ⟨1008, [9, 9, 9, 9], 8⟩, ⟨2000, List.replicate 10 0, 1⟩]⟩ :=
  .cons ⟨⟨by decide, fun h => absurd (h _ rfl) (by decide)⟩, by decide⟩ rfl <|
    .cons ⟨⟨by decide, fun h => absurd (h _ rfl) (by decide)⟩, by decide⟩ rfl <|
    .cons ⟨fun _ h => Option.some.inj h ▸ rfl, by decide⟩ rfl <|
    .cons ⟨⟨by decide, fun _ => by decide⟩, by decide⟩ rfl .nil

/-- Objects are apart, and each reads as it was last written, whatever has been written to the
others; a pointer fits its alignment as far as the chunk does. -/
theorem load_of_run {build : Build} {chunkSize base capacity : Nat} {calls : List ArenaCall}
    {h : Holder} (hreserved : Reserves base capacity)
    (hrun : Run (step build) (Legal build) ⟨.new chunkSize base capacity, []⟩ calls h) :
    (h.objects.map ArenaObject.span).Pairwise Span.Apart ∧
    ∀ object ∈ h.objects, h.arena.load object.ptr object.data.length = some object.data ∧
      ∃ chunk ∈ h.arena.all, object.span.Within chunk.room ∧
        ∀ k, object.align = 2 ^ k → object.ptr % object.align = chunk.base % object.align := by
  have hs := sound_of_run hreserved hrun
  refine ⟨hs.objects, fun object hobject => ⟨hs.load_eq hobject, ?_⟩⟩
  obtain ⟨keeper, hkeeper, hkept⟩ := hs.kept object hobject
  refine ⟨keeper, hkeeper, hkept.within_room (hs.chunks keeper hkeeper), ?_⟩
  intro k hk
  have hle : keeper.base ≤ object.ptr := hkept.within.1
  have haligned := hkept.aligned k hk
  obtain ⟨d, hd⟩ := Nat.exists_eq_add_of_le hle
  rw [hd, Nat.add_sub_cancel_left] at haligned
  rw [hd, Nat.add_mod, haligned, Nat.add_zero, Nat.mod_mod]

theorem load_of_run_sample :
    Arena.load ⟨[⟨1000, [1, 2, 3, 0, 0, 0, 0, 0, 9, 9, 9, 9], 16, 12⟩],
      some ⟨2000, List.replicate 16 0, 16, 10⟩, 16⟩ 1000 3 = some [1, 2, 3] :=
  ((load_of_run (by decide) (arena_sample.mono fun _ _ hok => hok.1)).2 ⟨1000, [1, 2, 3], 1⟩
    (by decide)).1

/-- With alignments of at most `align`, the chunks but the last take at most about twice the bytes
that are allocated. -/
theorem chunks_of_run {build : Build} {chunkSize base capacity align : Nat}
    {calls : List ArenaCall} {h : Holder} (hreserved : Reserves base capacity)
    (hcapacity : chunkSize ≤ capacity)
    (hrun : Run (step build) (fun h call => h.Legal build call ∧ call.align ≤ align)
      ⟨.new chunkSize base capacity, []⟩ calls h) :
    let bytes := (h.objects.map fun object => object.data.length).sum
    ∃ stats, h.arena.stats build = some stats ∧ bytes ≤ stats.totalUsed ∧
      stats.totalUsed + h.objects.length ≤ bytes + h.objects.length * align ∧
      (stats.chunksCount - 1) * (chunkSize + 2 - align) ≤ 2 * stats.totalUsed := by
  have hboth : h.Sound ∧ h.Counted align := hrun.invariant
    (I := fun h => h.Sound ∧ h.Counted align)
    (fun _ _ _ _ _ hok hstep hs => ⟨hs.1.step hok.1 hstep, hs.2.step hs.1 hok.1 hok.2 hstep⟩)
    ⟨sound_withCapacity _ hreserved, counted_withCapacity hcapacity⟩
  obtain ⟨hsound, hs⟩ := hboth
  have hsize : h.arena.chunkSize = chunkSize := by
    refine Run.invariant (I := fun h => h.arena.chunkSize = chunkSize) hrun ?_ rfl
    intro h call h' answer _ _ hstep hsize
    rw [chunkSize_of_step hstep, hsize]
  refine ⟨_, hsound.stats_eq, hs.least, hs.most, ?_⟩
  obtain ⟨chunk, hchunk⟩ := hs.current
  have hfull := hs.full
  rw [hsize] at hfull
  have hcount : h.arena.chunks.length + (if h.arena.currentChunk.isSome then 1 else 0)
      = h.arena.all.length := by
    rw [Arena.all, hchunk, List.length_append]
    simp only [Option.isSome_some, if_true, Option.toList_some, List.length_singleton]
  dsimp only
  rw [hcount, Arena.used]
  cases hall : h.arena.all with
  | nil =>
    rw [List.length_nil, Nat.zero_sub, Nat.zero_mul]
    exact Nat.zero_le _
  | cons first rest =>
    rw [hall, List.map_cons] at hfull
    have hsum := sum_of_chain hfull
    rw [List.length_map] at hsum
    rw [List.length_cons, Nat.add_sub_cancel, List.map_cons]
    exact Nat.le_trans (Nat.le_add_right _ _) hsum

theorem chunks_of_run_sample :
    ∃ stats, Arena.stats ⟨false⟩ ⟨[⟨1000, [1, 2, 3, 0, 0, 0, 0, 0, 9, 9, 9, 9], 16, 12⟩],
        some ⟨2000, List.replicate 16 0, 16, 10⟩, 16⟩ = some stats ∧
      17 ≤ stats.totalUsed ∧ stats.totalUsed + 3 ≤ 17 + 3 * 8 ∧
      (stats.chunksCount - 1) * (16 + 2 - 8) ≤ 2 * stats.totalUsed :=
  chunks_of_run (by decide) (by decide) arena_sample

end Holder

end InterBit.Optimization
