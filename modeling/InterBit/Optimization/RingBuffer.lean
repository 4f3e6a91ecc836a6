import InterBit.Core.Bytes
import InterBit.Lib.CyclicWindow

/-!
# The ring buffer

`optimization/zero_copy.rs`. Positions are numbers of 64 bits. A sum or a difference that is out of
range panics or wraps around, as the build has it; an index or a range that is out of bounds panics
in every build. `none` is a panic. Full and empty have equal positions and are told apart by a flag.

`ByteQueue` says what the buffer is for. What is stored is the window from the read position on
(`Represents`). In no build does a call panic or a position wrap, and each call answers as the queue
does (`call_refines`), so every sequence of calls does (`run_refines`).
-/

namespace InterBit.Optimization

open InterBit.Lib

/-! ## Operations that may panic -/

/-- `a / b` on `usize`. -/
def divUsize (a b : Nat) : Option Nat := if b = 0 then none else some (a / b)

/-- `a % b` on `usize`. -/
def modUsize (a b : Nat) : Option Nat := if b = 0 then none else some (a % b)

/-- `&bytes[first..last]`. -/
def slice (bytes : List UInt8) (first last : Nat) : Option (List UInt8) :=
  if first ≤ last ∧ last ≤ bytes.length then some ((bytes.take last).drop first) else none

/-- `bytes[first..last].copy_from_slice(data)`. -/
def copyFromSlice (bytes : List UInt8) (first last : Nat) (data : List UInt8) :
    Option (List UInt8) :=
  if first ≤ last ∧ last ≤ bytes.length ∧ data.length = last - first then
    some (bytes.take first ++ data ++ bytes.drop last)
  else none

theorem divUsize_of_pos {a b : Nat} (h : 0 < b) : divUsize a b = some (a / b) :=
  if_neg (Nat.ne_of_gt h)

theorem modUsize_of_pos {a b : Nat} (h : 0 < b) : modUsize a b = some (a % b) :=
  if_neg (Nat.ne_of_gt h)

theorem slice_of_le {bytes : List UInt8} {first last : Nat} (h : first ≤ last)
    (hlast : last ≤ bytes.length) : slice bytes first last = some ((bytes.take last).drop first) :=
  if_pos ⟨h, hlast⟩

theorem copyFromSlice_eq {bytes data : List UInt8} {first last : Nat}
    (hlast : last = first + data.length) (h : last ≤ bytes.length) :
    copyFromSlice bytes first last data = some (splice bytes first data) := by
  rw [copyFromSlice, if_pos ⟨by omega, h, by omega⟩, splice, hlast]

/-! ## The code -/

/-- `struct ZeroCopyBuffer`. -/
structure ZeroCopyBuffer where
  data : List UInt8
  offset : Nat
  len : Nat

namespace ZeroCopyBuffer

/-- `from_bytes`. -/
def fromBytes (bytes : List UInt8) : ZeroCopyBuffer := ⟨bytes, 0, bytes.length⟩

/-- `as_slice`. -/
def asSlice (buffer : ZeroCopyBuffer) : List UInt8 :=
  (buffer.data.drop buffer.offset).take buffer.len

@[simp] theorem asSlice_fromBytes (bytes : List UInt8) : (fromBytes bytes).asSlice = bytes := by
  rw [asSlice, fromBytes, List.drop_zero, List.take_length]

end ZeroCopyBuffer

/-- `struct RingBuffer`. -/
structure RingBuffer where
  buffer : List UInt8
  capacity : Nat
  readPos : Nat
  writePos : Nat
  isFull : Bool

namespace RingBuffer

/-- `RingBuffer::new`; a vector has at most `isize::MAX` bytes. -/
def new (capacity : Nat) : Option RingBuffer :=
  if capacity < 2 ^ 63 then
    some
      { buffer := List.replicate capacity 0
        capacity
        readPos := 0
        writePos := 0
        isFull := false }
  else none

variable (build : Build)

/-- `available_write`. -/
def availableWrite (ring : RingBuffer) : Option Nat :=
  if ring.isFull then some 0
  else if ring.readPos ≤ ring.writePos then do
    let rest ← build.subUsize ring.capacity ring.writePos
    build.addUsize rest ring.readPos
  else build.subUsize ring.readPos ring.writePos

/-- `available_read`. -/
def availableRead (ring : RingBuffer) : Option Nat :=
  if ring.isFull then some ring.capacity
  else if ring.readPos ≤ ring.writePos then build.subUsize ring.writePos ring.readPos
  else do
    let rest ← build.subUsize ring.capacity ring.readPos
    build.addUsize rest ring.writePos

/-- `write`. -/
def write (ring : RingBuffer) (data : List UInt8) : Option (Nat × RingBuffer) := do
  let available ← ring.availableWrite build
  let toWrite := min data.length available
  if toWrite = 0 then return (0, ring)
  else
    let rest ← build.subUsize ring.capacity ring.writePos
    let firstPart := min rest toWrite
    let secondPart ← build.subUsize toWrite firstPart
    let last ← build.addUsize ring.writePos firstPart
    let first ← slice data 0 firstPart
    let buffer ← copyFromSlice ring.buffer ring.writePos last first
    let buffer ← (if 0 < secondPart then do
        let second ← slice data firstPart toWrite
        copyFromSlice buffer 0 secondPart second
      else some buffer : Option (List UInt8))
    let sum ← build.addUsize ring.writePos toWrite
    let writePos ← modUsize sum ring.capacity
    let isFull := if 0 < toWrite ∧ writePos = ring.readPos then true else ring.isFull
    return (toWrite, { ring with buffer, writePos, isFull })

/-- `read`; the slice that is read into is returned. -/
def read (ring : RingBuffer) (buf : List UInt8) : Option (Nat × List UInt8 × RingBuffer) := do
  let available ← ring.availableRead build
  let toRead := min buf.length available
  if toRead = 0 then return (0, buf, ring)
  else
    let rest ← build.subUsize ring.capacity ring.readPos
    let firstPart := min rest toRead
    let secondPart ← build.subUsize toRead firstPart
    let last ← build.addUsize ring.readPos firstPart
    let first ← slice ring.buffer ring.readPos last
    let buf ← copyFromSlice buf 0 firstPart first
    let buf ← (if 0 < secondPart then do
        let second ← slice ring.buffer 0 secondPart
        copyFromSlice buf firstPart toRead second
      else some buf : Option (List UInt8))
    let sum ← build.addUsize ring.readPos toRead
    let readPos ← modUsize sum ring.capacity
    return (toRead, buf, { ring with readPos, isFull := false })

/-- `read_zero_copy`. -/
def readZeroCopy (ring : RingBuffer) : Option (ZeroCopyBuffer × Option ZeroCopyBuffer) := do
  let available ← ring.availableRead build
  if available = 0 then return (.fromBytes [], none)
  else if ring.readPos < ring.writePos then
    let stored ← slice ring.buffer ring.readPos ring.writePos
    return (.fromBytes stored, none)
  else
    let first ← slice ring.buffer ring.readPos ring.capacity
    if 0 < ring.writePos then
      let second ← slice ring.buffer 0 ring.writePos
      return (.fromBytes first, some (.fromBytes second))
    else return (.fromBytes first, none)

end RingBuffer

/-- A call of the buffer. -/
inductive RingCall where
  | write (data : List UInt8)
  | read (buf : List UInt8)
  | readZeroCopy

/-- What a call answers: the number of bytes, and the bytes that the caller then has. -/
inductive RingReply where
  | written (n : Nat)
  | filled (n : Nat) (buf : List UInt8)
  | content (bytes : List UInt8)
  deriving DecidableEq

namespace RingBuffer

variable (build : Build)

/-- A call; `none` is a panic. -/
def call (ring : RingBuffer) : RingCall → Option (RingBuffer × RingReply)
  | .write data => do
    let (n, ring) ← ring.write build data
    return (ring, .written n)
  | .read buf => do
    let (n, buf, ring) ← ring.read build buf
    return (ring, .filled n buf)
  | .readZeroCopy => do
    let (first, second) ← ring.readZeroCopy build
    return (ring, .content (first.asSlice ++ (second.map ZeroCopyBuffer.asSlice).getD []))

/-- Calls one after the other. -/
def run (ring : RingBuffer) : List RingCall → Option (RingBuffer × List RingReply)
  | [] => some (ring, [])
  | call :: calls => do
    let (ring, reply) ← ring.call build call
    let (ring, replies) ← run ring calls
    return (ring, reply :: replies)

end RingBuffer

/-! ## What it is for -/

/-- A queue of bytes with a bound. -/
structure ByteQueue (capacity : Nat) where
  content : List UInt8
  fits : content.length ≤ capacity

namespace ByteQueue

variable {capacity : Nat}

def empty (capacity : Nat) : ByteQueue capacity := ⟨[], Nat.zero_le _⟩

/-- How many bytes can be added. -/
def free (queue : ByteQueue capacity) : Nat := capacity - queue.content.length

/-- As many of the bytes as there is room for are added. -/
def write (queue : ByteQueue capacity) (data : List UInt8) : Nat × ByteQueue capacity :=
  (min data.length queue.free,
    { content := queue.content ++ data.take (min data.length queue.free)
      fits := by
        have hfits := queue.fits
        rw [List.length_append, List.length_take, free]
        omega })

/-- The first bytes are taken out, and written to the beginning of the slice. -/
def read (queue : ByteQueue capacity) (buf : List UInt8) :
    Nat × List UInt8 × ByteQueue capacity :=
  let n := min buf.length queue.content.length
  (n, queue.content.take n ++ buf.drop n,
    { content := queue.content.drop n
      fits := by
        have hfits := queue.fits
        rw [List.length_drop]
        omega })

def call (queue : ByteQueue capacity) : RingCall → ByteQueue capacity × RingReply
  | .write data => ((queue.write data).2, .written (queue.write data).1)
  | .read buf => ((queue.read buf).2.2, .filled (queue.read buf).1 (queue.read buf).2.1)
  | .readZeroCopy => (queue, .content queue.content)

def run (queue : ByteQueue capacity) : List RingCall → ByteQueue capacity × List RingReply
  | [] => (queue, [])
  | call :: calls =>
    let (queue, reply) := queue.call call
    let (queue, replies) := run queue calls
    (queue, reply :: replies)

end ByteQueue

/-! ## The buffer is the queue -/

variable {build : Build} {capacity : Nat}

/-- The stored bytes are the window from the read position on. -/
structure Represents (ring : RingBuffer) (queue : ByteQueue capacity) : Prop where
  capacity_eq : ring.capacity = capacity
  capacity_lt : capacity < 2 ^ 63
  length_buffer : ring.buffer.length = capacity
  readPos_lt : ring.readPos < capacity ∨ capacity = 0 ∧ ring.readPos = 0
  writePos_eq : ring.writePos = (ring.readPos + queue.content.length) % capacity
  isFull_iff : ring.isFull = true ↔ queue.content.length = capacity ∧ 0 < capacity
  stored : window ring.buffer ring.readPos queue.content.length = queue.content

namespace Represents

variable {ring : RingBuffer} {queue : ByteQueue capacity}

/-- Where the write position is, as long as the buffer is not full. -/
theorem writePos_eq_cellAfter (h : Represents ring queue)
    (hroom : queue.content.length < capacity) :
    ring.writePos = cellAfter capacity ring.readPos queue.content.length := by
  have hread : ring.readPos < capacity := by
    have := h.readPos_lt
    omega
  rw [h.writePos_eq, cellAfter_eq_mod hread hroom]

/-- A full buffer has equal positions. -/
theorem writePos_eq_readPos (h : Represents ring queue) (hfull : queue.content.length = capacity) :
    ring.writePos = ring.readPos := by
  rw [h.writePos_eq, hfull, Nat.add_mod_right]
  rcases h.readPos_lt with hlt | ⟨hzero, hpos⟩
  · exact Nat.mod_eq_of_lt hlt
  · rw [hzero, Nat.mod_zero]

/-- The positions of a buffer that is not flagged as full. -/
theorem positions_of_not_full (h : Represents ring queue) (hnot : ¬ ring.isFull = true) :
    (capacity = 0 ∧ ring.readPos = 0 ∧ ring.writePos = 0) ∨
      (queue.content.length < capacity ∧ ring.readPos < capacity ∧
        ring.writePos = cellAfter capacity ring.readPos queue.content.length) := by
  have hfits := queue.fits
  rcases Nat.eq_zero_or_pos capacity with hzero | hpos
  · have hread : ring.readPos = 0 := by
      have := h.readPos_lt
      omega
    exact Or.inl ⟨hzero, hread, (h.writePos_eq_readPos (by omega)).trans hread⟩
  · have hroom : queue.content.length < capacity :=
      Nat.lt_of_le_of_ne hfits fun hfull => hnot (h.isFull_iff.mpr ⟨hfull, hpos⟩)
    have hread : ring.readPos < capacity := by
      have := h.readPos_lt
      omega
    exact Or.inr ⟨hroom, hread, h.writePos_eq_cellAfter hroom⟩

/-- The positions are equal again after a whole round only. -/
theorem mod_eq_readPos_iff (h : Represents ring queue) {n : Nat} (hpos : 0 < n)
    (hn : n ≤ capacity) : (ring.readPos + n) % capacity = ring.readPos ↔ n = capacity := by
  have hread : ring.readPos < capacity := by
    have := h.readPos_lt
    omega
  constructor
  · intro heq
    by_contra hne
    rw [cellAfter_eq_mod hread (by omega), cellAfter] at heq
    split at heq <;> omega
  · intro hround
    rw [hround, Nat.add_mod_right, Nat.mod_eq_of_lt hread]

theorem availableWrite_eq (h : Represents ring queue) :
    ring.availableWrite build = some queue.free := by
  have hlt := h.capacity_lt
  unfold RingBuffer.availableWrite ByteQueue.free
  split
  next hfull => rw [(h.isFull_iff.mp hfull).1, Nat.sub_self]
  next hnot =>
    rw [h.capacity_eq]
    rcases h.positions_of_not_full hnot with ⟨hzero, hread, hwrite⟩ | ⟨hroom, hread, hwrite⟩
    · subst hzero
      rw [hread, hwrite, if_pos (Nat.le_refl 0), Build.subUsize_of_le (Nat.le_refl 0) (by decide),
        Option.bind_eq_bind, Option.bind_some, Build.addUsize_of_lt (by decide)]
      exact congrArg some (Nat.zero_sub _).symm
    · rw [hwrite, cellAfter]
      rcases Nat.lt_or_ge (ring.readPos + queue.content.length) capacity with hbefore | hround
      · rw [if_pos hbefore, if_pos (Nat.le_add_right ..),
          Build.subUsize_of_le (by omega) (by omega), Option.bind_eq_bind, Option.bind_some,
          Build.addUsize_of_lt (by omega)]
        congr 1
        omega
      · rw [if_neg (Nat.not_lt.mpr hround), if_neg (by omega),
          Build.subUsize_of_le (by omega) (by omega)]
        congr 1
        omega

theorem availableRead_eq (h : Represents ring queue) :
    ring.availableRead build = some queue.content.length := by
  have hlt := h.capacity_lt
  unfold RingBuffer.availableRead
  split
  next hfull => rw [h.capacity_eq, (h.isFull_iff.mp hfull).1]
  next hnot =>
    rw [h.capacity_eq]
    rcases h.positions_of_not_full hnot with ⟨hzero, hread, hwrite⟩ | ⟨hroom, hread, hwrite⟩
    · have hnil : queue.content.length = 0 := by
        have := queue.fits
        omega
      rw [hread, hwrite, hnil, if_pos (Nat.le_refl 0),
        Build.subUsize_of_le (Nat.le_refl 0) (by decide)]
    · rw [hwrite, cellAfter]
      rcases Nat.lt_or_ge (ring.readPos + queue.content.length) capacity with hbefore | hround
      · rw [if_pos hbefore, if_pos (Nat.le_add_right ..),
          Build.subUsize_of_le (Nat.le_add_right ..) (by omega), Nat.add_sub_cancel_left]
      · rw [if_neg (Nat.not_lt.mpr hround), if_neg (by omega),
          Build.subUsize_of_le (by omega) (by omega), Option.bind_eq_bind, Option.bind_some,
          Build.addUsize_of_lt (by omega)]
        congr 1
        omega

/-- The two copies of `write` lay the bytes over the cells from the write position on. -/
theorem copies_eq_overlay {buffer data : List UInt8} {start k : Nat}
    (hstart : start < buffer.length) (hk : k ≤ data.length) (hfits : k ≤ buffer.length) :
    ∃ first buffer', slice data 0 (min (buffer.length - start) k) = some first ∧
      copyFromSlice buffer start (start + min (buffer.length - start) k) first = some buffer' ∧
      (if 0 < k - min (buffer.length - start) k then do
          let second ← slice data (min (buffer.length - start) k) k
          copyFromSlice buffer' 0 (k - min (buffer.length - start) k) second
        else some buffer') = some (overlay buffer start (data.take k)) := by
  have hfirst : (data.take (min (buffer.length - start) k)).length
      = min (buffer.length - start) k := by
    rw [List.length_take]
    omega
  have hlen : (splice buffer start (data.take (min (buffer.length - start) k))).length
      = buffer.length := length_splice (by omega)
  refine ⟨data.take (min (buffer.length - start) k),
    splice buffer start (data.take (min (buffer.length - start) k)),
    slice_of_le (Nat.zero_le _) (by omega), copyFromSlice_eq (by omega) (by omega), ?_⟩
  rw [overlay, List.take_take]
  split
  next hsecond =>
    have hall : min (buffer.length - start) k = buffer.length - start := by omega
    rw [hall] at hfirst hlen hsecond ⊢
    rw [slice_of_le (by omega) hk, Option.bind_eq_bind, Option.bind_some, copyFromSlice_eq _ _]
    · rw [List.length_drop, List.length_take]
      omega
    · omega
  next hnone =>
    rw [List.drop_of_length_le (by rw [List.length_take]; omega)]
    simp only [splice, List.take_zero, List.nil_append, List.length_nil, Nat.add_zero,
      List.drop_zero]

/-- Bytes laid over the cells from the write position on are appended. -/
theorem overlaid (h : Represents ring queue) {bytes : List UInt8} (hpos : 0 < bytes.length)
    {queue' : ByteQueue capacity} (hcontent : queue'.content = queue.content ++ bytes) :
    Represents
      { ring with
        buffer := overlay ring.buffer ring.writePos bytes
        writePos := (ring.writePos + bytes.length) % capacity
        isFull := if 0 < bytes.length ∧ (ring.writePos + bytes.length) % capacity = ring.readPos
          then true else ring.isFull } queue' := by
  have hlen := h.length_buffer
  have hlength : queue'.content.length = queue.content.length + bytes.length := by
    rw [hcontent, List.length_append]
  have hfits := queue'.fits
  have hread : ring.readPos < capacity := by
    have := h.readPos_lt
    omega
  have hwrite : ring.writePos < capacity := by
    rw [h.writePos_eq]
    exact Nat.mod_lt _ (by omega)
  have hwritePos : (ring.writePos + bytes.length) % capacity
      = (ring.readPos + queue'.content.length) % capacity := by
    rw [h.writePos_eq, Nat.mod_add_mod, hlength, Nat.add_assoc]
  exact
    { capacity_eq := h.capacity_eq
      capacity_lt := h.capacity_lt
      length_buffer := by
        rw [length_overlay (by omega) (by omega)]
        exact hlen
      readPos_lt := Or.inl hread
      writePos_eq := hwritePos
      isFull_iff := by
        -- bytes fit in, so the ring was not full
        have hempty : ring.isFull = false := by
          rw [Bool.eq_false_iff]
          intro hfull
          have := (h.isFull_iff.mp hfull).1
          omega
        -- the positions meet again only if the ring is full
        have hround := h.mod_eq_readPos_iff (show 0 < queue'.content.length by omega) hfits
        rw [hempty, hwritePos]
        dsimp only
        split
        next hsame => exact iff_of_true rfl ⟨hround.mp hsame.2, by omega⟩
        next hno =>
          exact iff_of_false Bool.false_ne_true fun hfull => hno ⟨hpos, hround.mpr hfull.1⟩
      stored := by
        have hwindow := @window_overlay _ ring.buffer bytes ring.readPos queue.content.length
          (by omega) (by omega)
        rw [hlen, ← h.writePos_eq, h.stored, ← hlength] at hwindow
        exact hwindow.trans hcontent.symm }

/-- Writing appends. -/
theorem write_refines (h : Represents ring queue) (data : List UInt8) :
    ∃ ring', ring.write build data = some ((queue.write data).1, ring') ∧
      Represents ring' (queue.write data).2 := by
  have hlt := h.capacity_lt
  unfold RingBuffer.write
  rw [h.availableWrite_eq, Option.bind_eq_bind, Option.bind_some]
  dsimp only
  rcases Nat.eq_zero_or_pos (min data.length queue.free) with hzero | hpos
  · refine ⟨ring, (if_pos hzero).trans (congrArg (fun n => some (n, ring)) hzero.symm), ?_⟩
    have hsame : (queue.write data).2 = queue := by
      simp only [ByteQueue.write, hzero, List.take_zero, List.append_nil]
    rwa [hsame]
  have hfree : min data.length queue.free ≤ capacity - queue.content.length := Nat.min_le_right ..
  have hdata : min data.length queue.free ≤ data.length := Nat.min_le_left ..
  have hwrite : ring.writePos < capacity := by
    rw [h.writePos_eq]
    exact Nat.mod_lt _ (by omega)
  have hlen := h.length_buffer
  obtain ⟨first, buffer, hfirst, hbuffer, hcopies⟩ := @copies_eq_overlay ring.buffer data
    ring.writePos (min data.length queue.free) (by omega) hdata (by omega)
  rw [hlen] at hfirst hbuffer hcopies
  simp only [Option.bind_eq_bind] at hcopies ⊢
  rw [if_neg (by omega), h.capacity_eq, Build.subUsize_of_le (by omega) (by omega),
    Option.bind_some, Build.subUsize_of_le (by omega) (by omega), Option.bind_some,
    Build.addUsize_of_lt (by omega), Option.bind_some,
    hfirst, Option.bind_some, hbuffer, Option.bind_some, hcopies, Option.bind_some,
    Build.addUsize_of_lt (by omega), Option.bind_some, modUsize_of_pos (by omega), Option.bind_some]
  refine ⟨_, rfl, ?_⟩
  have htake : (data.take (min data.length queue.free)).length = min data.length queue.free :=
    List.length_take_of_le hdata
  have hwritten := @overlaid _ _ _ h (data.take (min data.length queue.free)) (by omega)
    (queue.write data).2 rfl
  rwa [htake, h.capacity_eq] at hwritten

/-- The two copies of `read` write a window to the beginning of the slice. -/
theorem copies_eq_window {buffer buf : List UInt8} {start k : Nat} (hstart : start < buffer.length)
    (hk : k ≤ buf.length) (hfits : k ≤ buffer.length) :
    ∃ first buf',
      slice buffer start (start + min (buffer.length - start) k) = some first ∧
      copyFromSlice buf 0 (min (buffer.length - start) k) first = some buf' ∧
      (if 0 < k - min (buffer.length - start) k then do
          let second ← slice buffer 0 (k - min (buffer.length - start) k)
          copyFromSlice buf' (min (buffer.length - start) k) k second
        else some buf') = some (window buffer start k ++ buf.drop k) := by
  have hpart : (buffer.take (start + min (buffer.length - start) k)).drop start
      = (buffer.drop start).take k := by
    rw [List.drop_take, Nat.add_sub_cancel_left, Nat.min_comm, ← List.take_take]
    exact congrArg _ (List.take_of_length_le (by rw [List.length_drop]))
  have hfirst : ((buffer.drop start).take k).length = min (buffer.length - start) k := by
    rw [List.length_take, List.length_drop, Nat.min_comm]
  refine ⟨(buffer.drop start).take k,
    splice buf 0 ((buffer.drop start).take k), ?_, copyFromSlice_eq (by omega) (by omega), ?_⟩
  · rw [slice_of_le (by omega) (by omega), hpart]
  have hlen : (splice buf 0 ((buffer.drop start).take k)).length = buf.length :=
    length_splice (by omega)
  have hall : splice buf 0 (window buffer start k) = window buffer start k ++ buf.drop k := by
    rw [splice, length_window hfits, List.take_zero, List.nil_append, Nat.zero_add]
  rw [← hall, window_eq (by omega) hfits]
  split
  next hsecond =>
    have hrest : k - min (buffer.length - start) k = k - (buffer.length - start) := by omega
    have hsecondlen : (buffer.take (k - (buffer.length - start))).length
        = k - (buffer.length - start) := by
      rw [List.length_take]
      omega
    rw [hrest, slice_of_le (Nat.zero_le _) (by omega), List.drop_zero, Option.bind_eq_bind,
      Option.bind_some, copyFromSlice_eq (by omega) (by omega), ← splice_append (Nat.zero_le _),
      Nat.zero_add, hfirst]
  next hnone =>
    rw [show k - (buffer.length - start) = 0 by omega, List.take_zero, List.append_nil]

/-- Reading takes from the front. -/
theorem read_refines (h : Represents ring queue) (buf : List UInt8) :
    ∃ ring', ring.read build buf = some ((queue.read buf).1, (queue.read buf).2.1, ring') ∧
      Represents ring' (queue.read buf).2.2 := by
  have hlt := h.capacity_lt
  have hfits := queue.fits
  unfold RingBuffer.read
  rw [h.availableRead_eq, Option.bind_eq_bind, Option.bind_some]
  dsimp only
  -- nothing to read leaves the ring as it is
  rcases Nat.eq_zero_or_pos (min buf.length queue.content.length) with hzero | hpos
  · have hsame : queue.read buf = (0, buf, queue) := by
      simp only [ByteQueue.read, hzero, List.take_zero, List.drop_zero, List.nil_append]
    rw [hsame]
    exact ⟨ring, if_pos hzero, h⟩
  have hbuf : min buf.length queue.content.length ≤ buf.length := Nat.min_le_left ..
  have hcontent : min buf.length queue.content.length ≤ queue.content.length := Nat.min_le_right ..
  have hread : ring.readPos < capacity := by
    have := h.readPos_lt
    omega
  have hlen := h.length_buffer
  obtain ⟨first, buf', hfirst, hbuf', hcopies⟩ := @copies_eq_window ring.buffer buf
    ring.readPos (min buf.length queue.content.length) (by omega) hbuf (by omega)
  rw [hlen] at hfirst hbuf' hcopies
  -- the two copies together are the head of the content
  rw [← window_take hcontent, h.stored] at hcopies
  simp only [Option.bind_eq_bind] at hcopies ⊢
  rw [if_neg (by omega), h.capacity_eq, Build.subUsize_of_le (by omega) (by omega),
    Option.bind_some, Build.subUsize_of_le (by omega) (by omega), Option.bind_some,
    Build.addUsize_of_lt (by omega), Option.bind_some,
    hfirst, Option.bind_some, hbuf', Option.bind_some, hcopies, Option.bind_some,
    Build.addUsize_of_lt (by omega), Option.bind_some, modUsize_of_pos (by omega), Option.bind_some]
  refine ⟨_, rfl, ?_⟩
  have hlength : (queue.read buf).2.2.content.length
      = queue.content.length - min buf.length queue.content.length := by
    rw [ByteQueue.read, List.length_drop]
  exact
    { capacity_eq := rfl
      capacity_lt := hlt
      length_buffer := hlen
      readPos_lt := Or.inl (Nat.mod_lt _ (by omega))
      writePos_eq := by
        rw [h.writePos_eq, hlength, Nat.mod_add_mod, Nat.add_assoc, Nat.add_sub_cancel' hcontent]
      isFull_iff := iff_of_false Bool.false_ne_true (by omega)
      stored := by
        have hwindow := @window_drop _ ring.buffer ring.readPos _ _ hcontent (by omega)
        rw [hlen, h.stored] at hwindow
        rw [hlength]
        exact hwindow.symm }

/-- What is stored is one range, or one up to the end and one from the beginning. -/
theorem content_eq (h : Represents ring queue) (hpos : 0 < queue.content.length) :
    queue.content =
      if ring.readPos < ring.writePos then (ring.buffer.take ring.writePos).drop ring.readPos
      else ring.buffer.drop ring.readPos ++ ring.buffer.take ring.writePos := by
  have hfits := queue.fits
  have hlen := h.length_buffer
  have hread : ring.readPos < capacity := by
    have := h.readPos_lt
    omega
  have hparts : queue.content = (ring.buffer.drop ring.readPos).take queue.content.length ++
      ring.buffer.take (queue.content.length - (capacity - ring.readPos)) := by
    have hwindow := @window_eq _ ring.buffer ring.readPos queue.content.length (by omega) (by omega)
    rwa [h.stored, hlen] at hwindow
  have hround : capacity ≤ ring.readPos + queue.content.length →
      ring.writePos = ring.readPos + queue.content.length - capacity := by
    intro hround
    rcases Nat.eq_or_lt_of_le hfits with hfull | hroom
    · rw [h.writePos_eq_readPos hfull, hfull, Nat.add_sub_cancel]
    · rw [h.writePos_eq_cellAfter hroom, cellAfter, if_neg (Nat.not_lt.mpr hround)]
  rcases Nat.lt_or_ge (ring.readPos + queue.content.length) capacity with hbefore | hafter
  · have hwrite : ring.writePos = ring.readPos + queue.content.length := by
      rw [h.writePos_eq, Nat.mod_eq_of_lt hbefore]
    rw [if_pos (by omega), hwrite, List.drop_take, Nat.add_sub_cancel_left]
    refine hparts.trans ?_
    rw [show queue.content.length - (capacity - ring.readPos) = 0 by omega, List.take_zero,
      List.append_nil]
  · have hwrite := hround hafter
    rw [if_neg (by omega), hwrite]
    refine hparts.trans ?_
    rw [List.take_of_length_le (by rw [List.length_drop]; omega),
      show queue.content.length - (capacity - ring.readPos)
        = ring.readPos + queue.content.length - capacity by omega]

/-- What is read without copying is everything. -/
theorem readZeroCopy_refines (h : Represents ring queue) :
    ∃ first second, ring.readZeroCopy build = some (first, second) ∧
      first.asSlice ++ (second.map ZeroCopyBuffer.asSlice).getD [] = queue.content := by
  have hlen := h.length_buffer
  unfold RingBuffer.readZeroCopy
  rw [h.availableRead_eq, Option.bind_eq_bind, Option.bind_some]
  rcases Nat.eq_zero_or_pos queue.content.length with hzero | hpos
  · rw [if_pos hzero]
    refine ⟨_, _, rfl, ?_⟩
    rw [ZeroCopyBuffer.asSlice_fromBytes, List.eq_nil_of_length_eq_zero hzero]
    rfl
  have hread : ring.readPos < capacity := by
    have := h.readPos_lt
    have := queue.fits
    omega
  have hwrite : ring.writePos < capacity := by
    rw [h.writePos_eq]
    exact Nat.mod_lt _ (by omega)
  simp only [Option.bind_eq_bind]
  rw [if_neg (by omega), h.content_eq hpos, h.capacity_eq]
  split
  next hstraight =>
    rw [slice_of_le (by omega) (by omega), Option.bind_some]
    refine ⟨_, _, rfl, ?_⟩
    rw [ZeroCopyBuffer.asSlice_fromBytes, Option.map_none, Option.getD_none, List.append_nil]
  next hround =>
    rw [slice_of_le (by omega) (by omega), Option.bind_some, ← hlen, List.take_length]
    split
    next hsecond =>
      rw [slice_of_le (Nat.zero_le _) (by omega), Option.bind_some]
      refine ⟨_, _, rfl, ?_⟩
      rw [Option.map_some, Option.getD_some, ZeroCopyBuffer.asSlice_fromBytes,
        ZeroCopyBuffer.asSlice_fromBytes, List.drop_zero]
    next hnone =>
      refine ⟨_, _, rfl, ?_⟩
      rw [ZeroCopyBuffer.asSlice_fromBytes, Nat.eq_zero_of_not_pos hnone, List.take_zero]
      rfl

/-- Each call answers as the queue does. -/
theorem call_refines (h : Represents ring queue) (call : RingCall) :
    ∃ ring', ring.call build call = some (ring', (queue.call call).2) ∧
      Represents ring' (queue.call call).1 := by
  cases call with
  | write data =>
    obtain ⟨ring', hwrite, hafter⟩ := h.write_refines data
    refine ⟨ring', ?_, hafter⟩
    rw [RingBuffer.call, hwrite]
    rfl
  | read buf =>
    obtain ⟨ring', hread, hafter⟩ := h.read_refines buf
    refine ⟨ring', ?_, hafter⟩
    rw [RingBuffer.call, hread]
    rfl
  | readZeroCopy =>
    obtain ⟨first, second, hread, hcontent⟩ := h.readZeroCopy_refines
    refine ⟨ring, ?_, h⟩
    rw [RingBuffer.call, hread, ByteQueue.call, ← hcontent]
    rfl

/-- Each sequence of calls answers as the queue does. -/
theorem run_eq (calls : List RingCall) : ∀ {ring : RingBuffer} {queue : ByteQueue capacity},
    Represents ring queue → ∃ ring', ring.run build calls = some (ring', (queue.run calls).2) ∧
      Represents ring' (queue.run calls).1 := by
  induction calls with
  | nil => exact fun h => ⟨_, rfl, h⟩
  | cons call calls ih =>
    intro ring queue h
    obtain ⟨ring', hcall, hafter⟩ := h.call_refines call
    obtain ⟨ring'', hrun, hfinal⟩ := ih hafter
    refine ⟨ring'', ?_, hfinal⟩
    rw [RingBuffer.run, hcall, Option.bind_eq_bind, Option.bind_some]
    dsimp only
    rw [hrun]
    rfl

end Represents

theorem represents_new {ring : RingBuffer} (h : RingBuffer.new capacity = some ring) :
    Represents ring (ByteQueue.empty capacity) := by
  unfold RingBuffer.new at h
  split at h
  next hlt =>
    cases h
    exact
      { capacity_eq := rfl
        capacity_lt := hlt
        length_buffer := List.length_replicate
        readPos_lt := (Nat.eq_zero_or_pos capacity).symm.imp id fun hzero => ⟨hzero, rfl⟩
        writePos_eq := (Nat.zero_mod capacity).symm
        isFull_iff := iff_of_false Bool.false_ne_true fun h => Nat.ne_of_lt h.2 h.1
        stored := rfl }
  next => cases h

/-- In every build a new buffer answers every sequence of calls as an empty queue of its
capacity. -/
theorem run_refines (build : Build) (capacity : Nat) (ring : RingBuffer)
    (h : RingBuffer.new capacity = some ring) (calls : List RingCall) :
    ∃ ring', ring.run build calls = some (ring', ((ByteQueue.empty capacity).run calls).2) := by
  obtain ⟨ring', hrun, -⟩ := (represents_new h).run_eq calls
  exact ⟨ring', hrun⟩

/-- The second write goes round the end of three bytes and fills them. -/
theorem run_refines_sample :
    ∃ ring', RingBuffer.run ⟨false⟩ ⟨[0, 0, 0], 3, 0, 0, false⟩
        [.write [1, 2], .read [9], .write [3, 4, 5], .readZeroCopy, .read [9, 9, 9, 9]]
      = some (ring', [.written 2, .filled 1 [1], .written 2, .content [2, 3, 4],
        .filled 3 [2, 3, 4, 9]]) :=
  run_refines ⟨false⟩ 3 ⟨[0, 0, 0], 3, 0, 0, false⟩ rfl
    [.write [1, 2], .read [9], .write [3, 4, 5], .readZeroCopy, .read [9, 9, 9, 9]]

end InterBit.Optimization
