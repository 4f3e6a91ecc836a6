import InterBit.Optimization.RingBuffer

/-!
# Buffers that share their bytes

`ZeroCopyBuffer` of `optimization/zero_copy.rs`. A slice and the parts of a split point to the
allocation of the buffer they come from, and `concat` copies nothing if the second buffer begins in
the same allocation where the first one ends. An allocation is a number here. `none` is a panic.

A program makes buffers from buffers, in any order. It answers, and panics, as it would over lists
of bytes; only `new` makes a buffer that shows nothing of its data (`contents_run`).
-/

namespace InterBit.Optimization

/-! ## The code -/

namespace ZeroCopyBuffer

/-- `new`. -/
def new (data : List UInt8) : ZeroCopyBuffer := ⟨data, 0, 0⟩

/-- `slice`. -/
def slice (buffer : ZeroCopyBuffer) (first last : Nat) : Option ZeroCopyBuffer :=
  if first ≤ last ∧ last ≤ buffer.len then
    some ⟨buffer.data, buffer.offset + first, last - first⟩
  else none

/-- `split_at`. -/
def splitAt (buffer : ZeroCopyBuffer) (mid : Nat) : Option (ZeroCopyBuffer × ZeroCopyBuffer) :=
  if mid ≤ buffer.len then
    some (⟨buffer.data, buffer.offset, mid⟩,
      ⟨buffer.data, buffer.offset + mid, buffer.len - mid⟩)
  else none

/-- The range of the buffer is within its data. -/
def InData (buffer : ZeroCopyBuffer) : Prop := buffer.offset + buffer.len ≤ buffer.data.length

variable {buffer part left right : ZeroCopyBuffer} {first last mid : Nat}

theorem InData.length (h : buffer.InData) : buffer.asSlice.length = buffer.len := by
  rw [asSlice, List.length_take, List.length_drop]
  exact Nat.min_eq_left (Nat.le_sub_of_add_le' h)

theorem slice_eq_some (h : buffer.InData) (hslice : buffer.slice first last = some part) :
    part.InData ∧ part.data = buffer.data ∧
      part.asSlice = (buffer.asSlice.take last).drop first := by
  rw [slice] at hslice
  split at hslice
  next hok =>
    cases hslice
    have hin := h
    rw [InData] at hin
    refine ⟨?_, rfl, ?_⟩
    · change buffer.offset + first + (last - first) ≤ buffer.data.length
      omega
    · rw [asSlice, asSlice, List.take_take, Nat.min_eq_left hok.2, List.drop_take,
        List.drop_drop]
  next => cases hslice

theorem splitAt_eq_some (h : buffer.InData) (hsplit : buffer.splitAt mid = some (left, right)) :
    (left.InData ∧ left.data = buffer.data ∧ left.asSlice = buffer.asSlice.take mid) ∧
      right.InData ∧ right.data = buffer.data ∧ right.asSlice = buffer.asSlice.drop mid := by
  rw [splitAt] at hsplit
  split at hsplit
  next hok =>
    cases hsplit
    have hin := h
    rw [InData] at hin
    refine ⟨⟨?_, rfl, ?_⟩, ?_, rfl, ?_⟩
    · change buffer.offset + mid ≤ buffer.data.length
      omega
    · rw [asSlice, asSlice, List.take_take, Nat.min_eq_left hok]
    · change buffer.offset + mid + (buffer.len - mid) ≤ buffer.data.length
      omega
    · rw [asSlice, asSlice, List.drop_take, List.drop_drop]
  next => cases hsplit

end ZeroCopyBuffer

/-- A buffer, and the allocation its `Arc` points to. -/
structure SharedBuffer where
  arc : Nat
  buffer : ZeroCopyBuffer

/-- The buffers so far; the next allocation has a number of its own. -/
structure Buffers where
  nextArc : Nat
  buffers : List SharedBuffer

/-- A call that makes a buffer; buffers are named by their places. -/
inductive BufferCall where
  | new (data : List UInt8)
  | fromBytes (bytes : List UInt8)
  | slice (i first last : Nat)
  | splitAt (i mid : Nat)
  | concat (i j : Nat)

namespace Buffers

/-- A buffer of an `Arc` of its own. -/
def alloc (s : Buffers) (buffer : ZeroCopyBuffer) : Buffers :=
  ⟨s.nextArc + 1, s.buffers ++ [⟨s.nextArc, buffer⟩]⟩

/-- A buffer of an `Arc` that there is. -/
def share (s : Buffers) (arc : Nat) (buffer : ZeroCopyBuffer) : Buffers :=
  { s with buffers := s.buffers ++ [⟨arc, buffer⟩] }

/-- `concat`. -/
def concat (s : Buffers) (left right : SharedBuffer) : Buffers :=
  if left.arc = right.arc ∧ left.buffer.offset + left.buffer.len = right.buffer.offset then
    s.share left.arc
      ⟨left.buffer.data, left.buffer.offset, left.buffer.len + right.buffer.len⟩
  else s.alloc (.fromBytes (left.buffer.asSlice ++ right.buffer.asSlice))

/-- One call. -/
def call (s : Buffers) : BufferCall → Option Buffers
  | .new data => some (s.alloc (.new data))
  | .fromBytes bytes => some (s.alloc (.fromBytes bytes))
  | .slice i first last => do
    let source ← s.buffers[i]?
    let part ← source.buffer.slice first last
    some (s.share source.arc part)
  | .splitAt i mid => do
    let source ← s.buffers[i]?
    let (left, right) ← source.buffer.splitAt mid
    some ((s.share source.arc left).share source.arc right)
  | .concat i j => do
    let left ← s.buffers[i]?
    let right ← s.buffers[j]?
    some (s.concat left right)

/-- What the buffers show. -/
def contents (s : Buffers) : List (List UInt8) := s.buffers.map (·.buffer.asSlice)

end Buffers

/-! ## The same over lists -/

/-- The call over lists of bytes. -/
def BufferCall.plain (xss : List (List UInt8)) : BufferCall → Option (List (List UInt8))
  | .new _ => some (xss ++ [[]])
  | .fromBytes bytes => some (xss ++ [bytes])
  | .slice i first last => do
    let xs ← xss[i]?
    if first ≤ last ∧ last ≤ xs.length then some (xss ++ [(xs.take last).drop first]) else none
  | .splitAt i mid => do
    let xs ← xss[i]?
    if mid ≤ xs.length then some (xss ++ [xs.take mid, xs.drop mid]) else none
  | .concat i j => do
    let xs ← xss[i]?
    let ys ← xss[j]?
    some (xss ++ [xs ++ ys])

namespace Buffers

/-- Ranges are within their data, and an allocation holds one thing. -/
structure Sound (s : Buffers) : Prop where
  inData : ∀ b ∈ s.buffers, b.buffer.InData
  arc_lt : ∀ b ∈ s.buffers, b.arc < s.nextArc
  data_eq : ∀ b ∈ s.buffers, ∀ b' ∈ s.buffers, b.arc = b'.arc → b.buffer.data = b'.buffer.data

variable {s : Buffers} {source left right : SharedBuffer} {buffer : ZeroCopyBuffer}

theorem contents_alloc (s : Buffers) (buffer : ZeroCopyBuffer) :
    (s.alloc buffer).contents = s.contents ++ [buffer.asSlice] := List.map_append

theorem contents_share (s : Buffers) (arc : Nat) (buffer : ZeroCopyBuffer) :
    (s.share arc buffer).contents = s.contents ++ [buffer.asSlice] := List.map_append

theorem Sound.alloc (h : s.Sound) (hin : buffer.InData) : (s.alloc buffer).Sound where
  inData b hb := by
    rcases List.mem_append.mp hb with hb | hb
    · exact h.inData b hb
    · rw [List.mem_singleton.mp hb]
      exact hin
  arc_lt b hb := by
    rcases List.mem_append.mp hb with hb | hb
    · exact Nat.lt_succ_of_lt (h.arc_lt b hb)
    · rw [List.mem_singleton.mp hb]
      exact Nat.lt_succ_self _
  data_eq b hb b' hb' harc := by
    rcases List.mem_append.mp hb with hb | hb <;> rcases List.mem_append.mp hb' with hb' | hb'
    · exact h.data_eq b hb b' hb' harc
    · rw [List.mem_singleton.mp hb'] at harc
      exact absurd (harc ▸ h.arc_lt b hb) (Nat.lt_irrefl _)
    · rw [List.mem_singleton.mp hb] at harc
      exact absurd (harc ▸ h.arc_lt b' hb') (Nat.lt_irrefl _)
    · rw [List.mem_singleton.mp hb, List.mem_singleton.mp hb']

theorem Sound.share (h : s.Sound) (hsource : source ∈ s.buffers) (hin : buffer.InData)
    (hdata : buffer.data = source.buffer.data) : (s.share source.arc buffer).Sound where
  inData b hb := by
    rcases List.mem_append.mp hb with hb | hb
    · exact h.inData b hb
    · rw [List.mem_singleton.mp hb]
      exact hin
  arc_lt b hb := by
    rcases List.mem_append.mp hb with hb | hb
    · exact h.arc_lt b hb
    · rw [List.mem_singleton.mp hb]
      exact h.arc_lt source hsource
  data_eq b hb b' hb' harc := by
    rcases List.mem_append.mp hb with hb | hb <;> rcases List.mem_append.mp hb' with hb' | hb'
    · exact h.data_eq b hb b' hb' harc
    · rw [List.mem_singleton.mp hb'] at harc ⊢
      exact (h.data_eq b hb source hsource harc).trans hdata.symm
    · rw [List.mem_singleton.mp hb] at harc ⊢
      exact hdata.trans (h.data_eq source hsource b' hb' harc)
    · rw [List.mem_singleton.mp hb, List.mem_singleton.mp hb']

/-- Two buffers that touch in one allocation are one range of it. -/
theorem Sound.asSlice_merged (h : s.Sound) (hleft : left ∈ s.buffers) (hright : right ∈ s.buffers)
    (harc : left.arc = right.arc)
    (hnext : left.buffer.offset + left.buffer.len = right.buffer.offset) :
    (ZeroCopyBuffer.mk left.buffer.data left.buffer.offset
        (left.buffer.len + right.buffer.len)).InData ∧
      (ZeroCopyBuffer.mk left.buffer.data left.buffer.offset
        (left.buffer.len + right.buffer.len)).asSlice
        = left.buffer.asSlice ++ right.buffer.asSlice := by
  have hdata := h.data_eq left hleft right hright harc
  have hin := h.inData right hright
  rw [ZeroCopyBuffer.InData, ← hdata, ← hnext] at hin
  constructor
  · rw [ZeroCopyBuffer.InData, ← Nat.add_assoc]
    exact hin
  · rw [ZeroCopyBuffer.asSlice, ZeroCopyBuffer.asSlice, ZeroCopyBuffer.asSlice, List.take_add,
      List.drop_drop, hnext, hdata]

theorem Sound.concat (h : s.Sound) (hleft : left ∈ s.buffers) (hright : right ∈ s.buffers) :
    (s.concat left right).Sound ∧
      (s.concat left right).contents
        = s.contents ++ [left.buffer.asSlice ++ right.buffer.asSlice] := by
  rw [Buffers.concat]
  split
  next hmerge =>
    obtain ⟨hin, hslice⟩ := h.asSlice_merged hleft hright hmerge.1 hmerge.2
    exact ⟨h.share hleft hin rfl, by rw [contents_share, hslice]⟩
  next =>
    refine ⟨h.alloc (Nat.zero_add _).le, ?_⟩
    rw [contents_alloc, ZeroCopyBuffer.asSlice_fromBytes]

theorem getElem?_contents (s : Buffers) (i : Nat) :
    s.contents[i]? = s.buffers[i]?.map (·.buffer.asSlice) := List.getElem?_map

/-- A call answers and panics as it does over lists. -/
theorem Sound.call (h : s.Sound) (c : BufferCall) :
    (s.call c).map contents = c.plain s.contents ∧ ∀ s', s.call c = some s' → s'.Sound := by
  cases c with
  | new data =>
    refine ⟨congrArg some ((contents_alloc s _).trans ?_), fun s' hs' => ?_⟩
    · rw [ZeroCopyBuffer.asSlice, ZeroCopyBuffer.new, List.take_zero]
    · cases hs'
      exact h.alloc (Nat.zero_le _)
  | fromBytes bytes =>
    refine ⟨congrArg some ((contents_alloc s _).trans ?_), fun s' hs' => ?_⟩
    · rw [ZeroCopyBuffer.asSlice_fromBytes]
    · cases hs'
      exact h.alloc (Nat.zero_add _).le
  | slice i first last =>
    rw [Buffers.call, BufferCall.plain, getElem?_contents]
    cases hget : s.buffers[i]? with
    | none => exact ⟨rfl, fun s' hs' => by cases hs'⟩
    | some source =>
      have hmem := List.mem_of_getElem? hget
      have hin := h.inData source hmem
      simp only [Option.map_some, Option.bind_eq_bind, Option.bind_some, hin.length]
      cases hslice : source.buffer.slice first last with
      | none =>
        rw [ZeroCopyBuffer.slice] at hslice
        split at hslice
        next => cases hslice
        -- the panic of the code is the failing condition on the plain list
        next hno => exact ⟨(if_neg hno).symm, fun s' hs' => by cases hs'⟩
      | some part =>
        obtain ⟨hpart, hdata, hshow⟩ := ZeroCopyBuffer.slice_eq_some hin hslice
        refine ⟨?_, fun s' hs' => ?_⟩
        · rw [ZeroCopyBuffer.slice] at hslice
          split at hslice
          next hok => rw [if_pos hok, Option.bind_some, Option.map_some, contents_share, hshow]
          next => cases hslice
        · cases hs'
          -- the slice points into the memory of its source
          exact h.share hmem hpart hdata
  | splitAt i mid =>
    rw [Buffers.call, BufferCall.plain, getElem?_contents]
    cases hget : s.buffers[i]? with
    | none => exact ⟨rfl, fun s' hs' => by cases hs'⟩
    | some source =>
      have hmem := List.mem_of_getElem? hget
      have hin := h.inData source hmem
      simp only [Option.map_some, Option.bind_eq_bind, Option.bind_some, hin.length]
      cases hsplit : source.buffer.splitAt mid with
      | none =>
        rw [ZeroCopyBuffer.splitAt] at hsplit
        split at hsplit
        next => cases hsplit
        next hno => exact ⟨(if_neg hno).symm, fun s' hs' => by cases hs'⟩
      | some parts =>
        obtain ⟨left, right⟩ := parts
        obtain ⟨⟨hleft, hldata, hlshow⟩, hright, hrdata, hrshow⟩ :=
          ZeroCopyBuffer.splitAt_eq_some hin hsplit
        refine ⟨?_, fun s' hs' => ?_⟩
        · rw [ZeroCopyBuffer.splitAt] at hsplit
          split at hsplit
          next hok =>
            rw [if_pos hok, Option.bind_some, Option.map_some, contents_share, contents_share,
              hlshow, hrshow, List.append_assoc]
            rfl
          next => cases hsplit
        · cases hs'
          exact (h.share hmem hleft hldata).share (List.mem_append_left _ hmem) hright hrdata
  | concat i j =>
    rw [Buffers.call, BufferCall.plain, getElem?_contents, getElem?_contents]
    cases hleft : s.buffers[i]? with
    | none => exact ⟨rfl, fun s' hs' => by cases hs'⟩
    | some left =>
      cases hright : s.buffers[j]? with
      | none => exact ⟨rfl, fun s' hs' => by cases hs'⟩
      | some right =>
        obtain ⟨hsound, hshow⟩ :=
          h.concat (List.mem_of_getElem? hleft) (List.mem_of_getElem? hright)
        refine ⟨congrArg some hshow, fun s' hs' => ?_⟩
        cases hs'
        exact hsound

theorem sound_start : (Buffers.mk 0 []).Sound where
  inData _ hb := absurd hb List.not_mem_nil
  arc_lt _ hb := absurd hb List.not_mem_nil
  data_eq _ hb := absurd hb List.not_mem_nil

/-- A program over buffers is one over lists of bytes: it panics where that one panics, and else the
buffers show what the lists are. -/
theorem contents_run (calls : List BufferCall) :
    (calls.foldlM call (Buffers.mk 0 [])).map contents = calls.foldlM BufferCall.plain [] := by
  suffices hall : ∀ (s : Buffers), s.Sound →
      (calls.foldlM call s).map contents = calls.foldlM BufferCall.plain s.contents from
    hall _ sound_start
  induction calls with
  | nil => exact fun _ _ => rfl
  | cons c calls ih =>
    intro s h
    obtain ⟨hcall, hsound⟩ := h.call c
    rw [List.foldlM_cons, List.foldlM_cons, ← hcall]
    cases hs : s.call c with
    | none => rfl
    | some s' => exact ih s' (hsound s' hs)

/-- The parts of a split show what the whole shows, and putting them together again copies nothing;
a buffer from `new` cannot be split. -/
example :
    (([.fromBytes [1, 2, 3], .splitAt 0 2, .concat 1 2] : List BufferCall).foldlM call
      (Buffers.mk 0 [])).map (fun s => (s.contents, s.nextArc))
        = some ([[1, 2, 3], [1, 2], [3], [1, 2, 3]], 1) ∧
    (([.new [1, 2, 3], .splitAt 0 2] : List BufferCall).foldlM call (Buffers.mk 0 [])).map contents
      = none := ⟨rfl, rfl⟩

end Buffers

end InterBit.Optimization
