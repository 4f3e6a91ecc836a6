import InterBit.Lib.Permits

/-!
# Reading files

The reads of `AsyncIOManager` in `optimization/async_io.rs`. `read_file` takes a permit of
`io_semaphore`, reads into a buffer of `read_buffer_pool` until the file ends or a read fails, and
gives permit and buffer back. `read_files_concurrent` has at most ten paths in flight; for each it
takes a permit, and then calls `read_file`, which takes another. The semaphore serves those who
wait in their order.

Each `await` is a step, and an action names whose step comes next. What the file system answers
comes with the action. A read is a call and the index of a path of it. Latencies are left out.

Each read has what the file system tells it, whatever the others read and whichever buffer it gets
(`answers_of_run`). If there are more permits than the batches can hold with one permit for each
path in flight, every run comes to an end where every call has put together what its paths have
answered (`completes_of_run`). With no more permits than batches there is a run that gets stuck
before a file is opened (`stuck_of_calls`).
-/

namespace InterBit.Optimization

open InterBit.Lib

/-! ## The pool of buffers -/

/-- `struct ObjectPool`, of `optimization/memory_pool.rs`; `factory` is what it makes. -/
structure ObjectPool (T : Type) where
  pool : List T
  factory : T
  reset : T → T
  maxSize : Nat

namespace ObjectPool

variable {T : Type}

/-- `ObjectPool::new`. -/
def new (factory : T) (reset : T → T) (maxSize : Nat) : ObjectPool T :=
  ⟨[], factory, reset, maxSize⟩

/-- `ObjectPool::acquire`. -/
def acquire (p : ObjectPool T) : T × ObjectPool T :=
  match p.pool with
  | [] => (p.factory, p)
  | obj :: pool => (obj, { p with pool })

/-- `PooledObject::drop`. -/
def drop (p : ObjectPool T) (obj : T) : ObjectPool T :=
  if p.pool.length < p.maxSize then { p with pool := p.pool ++ [p.reset obj] } else p

/-- Whoever acquires an object acquires a clean one. -/
structure Kept (Clean : T → Prop) (p : ObjectPool T) : Prop where
  pool : ∀ obj ∈ p.pool, Clean obj
  factory : Clean p.factory
  reset : ∀ obj, Clean (p.reset obj)
  size : p.pool.length ≤ p.maxSize

variable {Clean : T → Prop} {p : ObjectPool T}

theorem Kept.acquire (h : p.Kept Clean) : Clean p.acquire.1 ∧ p.acquire.2.Kept Clean := by
  rw [ObjectPool.acquire]
  split
  next => exact ⟨h.factory, h⟩
  next obj pool hpool =>
    have hsize := h.size
    rw [hpool] at hsize
    refine ⟨h.pool obj (by rw [hpool]; exact List.mem_cons_self), fun other hmem => ?_, h.factory,
      h.reset, Nat.le_of_succ_le hsize⟩
    exact h.pool other (by rw [hpool]; exact List.mem_cons_of_mem obj hmem)

theorem Kept.drop (h : p.Kept Clean) (obj : T) : (p.drop obj).Kept Clean := by
  rw [ObjectPool.drop]
  split
  next hroom =>
    refine ⟨fun other hmem => ?_, h.factory, h.reset, ?_⟩
    · rcases List.mem_append.mp hmem with hmem | hmem
      · exact h.pool other hmem
      · rw [List.mem_singleton.mp hmem]
        exact h.reset obj
    · rw [List.length_append]
      exact hroom
  next => exact h

end ObjectPool

/-! ## The manager -/

/-- A call that reads. -/
inductive ReadCall where
  | readFile (path : String)
  | readFilesConcurrent (paths : List String)

namespace ReadCall

def paths : ReadCall → List String
  | .readFile path => [path]
  | .readFilesConcurrent paths => paths

/-- How many permits are taken for a path. -/
def permits : ReadCall → Nat
  | .readFile _ => 1
  | .readFilesConcurrent _ => 2

/-- How many paths are in flight, at most. -/
def buffered : ReadCall → Nat
  | .readFile _ => 1
  | .readFilesConcurrent _ => 10

end ReadCall

namespace AsyncIOManager

/-- The reads that some calls make. -/
abbrev Read (calls : List ReadCall) := (c : Fin calls.length) × Fin calls[c].paths.length

/-- `io_semaphore`, as the reads of the calls share it. -/
def ioSemaphore (maxConcurrentIo : Nat) (calls : List ReadCall) :
    PermitPool (Read calls) (Fin calls.length) where
  permits := maxConcurrentIo
  group := Sigma.fst
  need c := calls[c].permits
  window c := calls[c].buffered
  need_pos c := by
    cases calls[c] with
    | readFile | readFilesConcurrent => exact Nat.succ_pos _
  window_pos c := by
    cases calls[c] with
    | readFile | readFilesConcurrent => exact Nat.succ_pos _

/-- `Bytes`. -/
abbrev Bytes := List UInt8

/-- The semaphore, the pool, and for each read the buffer it has and what it has answered. -/
structure State (E : Type) (calls : List ReadCall) where
  ioSemaphore : PermitState (Read calls)
  readBufferPool : ObjectPool Bytes
  buffer : Read calls → Option Bytes
  answer : Read calls → Option (Except E Bytes)

/-- What a read does next. -/
inductive Action (E : Type) (calls : List ReadCall) where
  /-- The future is made. -/
  | start (r : Read calls)
  /-- At `acquire().await`. -/
  | acquire (r : Read calls)
  /-- `File::open` succeeds. -/
  | opened (r : Read calls)
  /-- `File::open` fails. -/
  | openFailed (r : Read calls) (e : E)
  /-- `read_buf` gives these bytes; none is the end of the file. -/
  | readBuf (r : Read calls) (bytes : Bytes)
  /-- `read_buf` fails. -/
  | readFailed (r : Read calls) (e : E)
  /-- A permit is dropped. -/
  | release (r : Read calls)

variable {E : Type} {calls : List ReadCall} (maxConcurrentIo : Nat)

/-- `AsyncIOManager::new`. -/
def new : State E calls where
  ioSemaphore := (ioSemaphore maxConcurrentIo calls).begin
  readBufferPool := .new [] (fun _ => []) 100
  buffer _ := none
  answer _ := none

/-- A step of the semaphore. -/
def semaphoreStep (s : State E calls) (a : PermitAction (Read calls)) :
    Option (State E calls × Unit) := do
  let (ioSemaphore, _) ← (ioSemaphore maxConcurrentIo calls).step s.ioSemaphore a
  some ({ s with ioSemaphore }, ())

/-- `read_file` returns; what it has of its buffer goes back. -/
def finish (s : State E calls) (r : Read calls) (rest : Option Bytes) (answer : Except E Bytes) :
    Option (State E calls × Unit) :=
  semaphoreStep maxConcurrentIo
    { s with
      readBufferPool := match rest with
        | some rest => s.readBufferPool.drop rest
        | none => s.readBufferPool
      buffer := Function.update s.buffer r none
      answer := Function.update s.answer r (some answer) }
    (.finish r)

/-- The read has its permits. -/
def AtWork (s : State E calls) (r : Read calls) : Prop :=
  s.ioSemaphore.phase r = .running calls[r.1].permits

instance (s : State E calls) (r : Read calls) : Decidable (AtWork s r) :=
  inferInstanceAs (Decidable (_ = _))

/-- One step. -/
def step (s : State E calls) : Action E calls → Option (State E calls × Unit)
  | .start r => semaphoreStep maxConcurrentIo s (.start r)
  | .acquire r => semaphoreStep maxConcurrentIo s (.ask r)
  | .opened r =>
    match s.buffer r with
    | none =>
      if AtWork s r then
        let (buffer, readBufferPool) := s.readBufferPool.acquire
        some ({ s with readBufferPool, buffer := Function.update s.buffer r (some buffer) }, ())
      else none
    | some _ => none
  | .openFailed r e =>
    match s.buffer r with
    | none => finish maxConcurrentIo s r none (.error e)
    | some _ => none
  | .readBuf r bytes =>
    match s.buffer r with
    | some buffer =>
      -- `split` leaves an empty buffer
      if bytes = [] then finish maxConcurrentIo s r (some []) (.ok buffer)
      else some ({ s with buffer := Function.update s.buffer r (some (buffer ++ bytes)) }, ())
    | none => none
  | .readFailed r e =>
    match s.buffer r with
    | some buffer => finish maxConcurrentIo s r (some buffer) (.error e)
    | none => none
  | .release r => semaphoreStep maxConcurrentIo s (.give r)

/-- Whose step it is. -/
def Action.read : Action E calls → Read calls
  | .start r | .acquire r | .opened r | .openFailed r _ | .readBuf r _ | .readFailed r _
  | .release r => r

/-- What a call has put together so far; `read_files_concurrent` takes what ends first first. -/
def collected (s : State E calls) (c : Fin calls.length) : List (Except E Bytes) :=
  (s.ioSemaphore.finished.filter (·.1 = c)).filterMap s.answer

open Finset

variable {maxConcurrentIo}

/-! ## A read by itself -/

/-- A read that has its own buffer, and shares nothing. -/
inductive Alone (E : Type) where
  | waiting
  | reading (bytes : Bytes)
  | answered (answer : Except E Bytes)

namespace Alone

/-- What the read makes of what it is told. -/
def next : Alone E → Action E calls → Alone E
  | .waiting, .opened _ => .reading []
  | .waiting, .openFailed _ e => .answered (.error e)
  | .reading bytes, .readBuf _ more =>
    if more = [] then .answered (.ok bytes) else .reading (bytes ++ more)
  | .reading _, .readFailed _ e => .answered (.error e)
  | alone, _ => alone

/-- What it has answered. -/
def answer : Alone E → Option (Except E Bytes)
  | .answered answer => some answer
  | _ => none

end Alone

/-- The read by itself, told what it is told among the others. -/
def alone (r : Read calls) (as : List (Action E calls)) : Alone E :=
  (as.filter (·.read = r)).foldl Alone.next .waiting

theorem alone_concat_self {r : Read calls} {a : Action E calls} (h : a.read = r)
    (as : List (Action E calls)) : alone r (as ++ [a]) = (alone r as).next a := by
  rw [alone, List.filter_append, List.foldl_append, List.filter_cons_of_pos (by simpa using h)]
  rfl

theorem alone_concat_of_ne {r : Read calls} {a : Action E calls} (h : a.read ≠ r)
    (as : List (Action E calls)) : alone r (as ++ [a]) = alone r as := by
  rw [alone, List.filter_append,
    List.filter_cons_of_neg (by simpa using h), List.filter_nil, List.append_nil,
    alone]

/-! ## The invariant -/

/-- Where a read is in the code, by its phase at the semaphore, its buffer and its answer. -/
inductive Stage (need : Nat) :
    PermitPhase → Option Bytes → Option (Except E Bytes) → Alone E → Prop
  | waiting {phase : PermitPhase} : phase.isOver = false → Stage need phase none none .waiting
  | reading {bytes : Bytes} : Stage need (.running need) (some bytes) none (.reading bytes)
  | answered {phase : PermitPhase} {answer : Except E Bytes} : phase.isOver = true →
      Stage need phase none (some answer) (.answered answer)

/-- What holds after some actions. -/
structure Reading (maxConcurrentIo : Nat) (past : List (Action E calls)) (s : State E calls) :
    Prop where
  sound : (ioSemaphore maxConcurrentIo calls).Sound s.ioSemaphore 0
  kept : s.readBufferPool.Kept (· = [])
  stage : ∀ r, Stage calls[r.1].permits (s.ioSemaphore.phase r) (s.buffer r) (s.answer r)
    (alone r past)

variable {past as : List (Action E calls)} {s s' : State E calls} {a : Action E calls} {o : Unit}

theorem reading_new : Reading maxConcurrentIo [] (new maxConcurrentIo : State E calls) where
  sound := PermitPool.sound_begin
  kept := ⟨fun _ h => absurd h List.not_mem_nil, rfl, fun _ => rfl, Nat.zero_le _⟩
  stage _ := .waiting rfl

/-! ## Steps -/

/-- What a step does. -/
inductive Moves (maxConcurrentIo : Nat) (s : State E calls) : Action E calls → State E calls → Prop
  | semaphore {a : Action E calls} {b : PermitAction (Read calls)}
      {ioSemaphore : PermitState (Read calls)} {o : Unit} :
      (∀ alone : Alone E, alone.next a = alone) → (∀ r, b ≠ .finish r) →
      (AsyncIOManager.ioSemaphore maxConcurrentIo calls).step s.ioSemaphore b
        = some (ioSemaphore, o) → Moves maxConcurrentIo s a { s with ioSemaphore }
  | opened {r : Read calls} : s.buffer r = none → AtWork s r →
      Moves maxConcurrentIo s (.opened r)
        { s with
          readBufferPool := s.readBufferPool.acquire.2
          buffer := Function.update s.buffer r (some s.readBufferPool.acquire.1) }
  | readBuf {r : Read calls} {buffer bytes : Bytes} : s.buffer r = some buffer → bytes ≠ [] →
      Moves maxConcurrentIo s (.readBuf r bytes)
        { s with buffer := Function.update s.buffer r (some (buffer ++ bytes)) }
  | answered {r : Read calls} {a : Action E calls} {readBufferPool : ObjectPool Bytes}
      {answer : Except E Bytes} {ioSemaphore : PermitState (Read calls)} {o : Unit} :
      a.read = r →
      (s.readBufferPool.Kept (· = []) → readBufferPool.Kept (· = [])) →
      (∀ alone, Stage calls[r.1].permits (.running calls[r.1].permits) (s.buffer r) none alone →
        alone.next a = .answered answer) →
      (AsyncIOManager.ioSemaphore maxConcurrentIo calls).step s.ioSemaphore (.finish r)
        = some (ioSemaphore, o) →
      Moves maxConcurrentIo s a
        { s with
          ioSemaphore, readBufferPool
          buffer := Function.update s.buffer r none
          answer := Function.update s.answer r (some answer) }

theorem semaphoreStep_eq_some {b : PermitAction (Read calls)}
    (h : semaphoreStep maxConcurrentIo s b = some (s', o)) :
    ∃ p, (ioSemaphore maxConcurrentIo calls).step s.ioSemaphore b = some (p, ()) ∧
      s' = { s with ioSemaphore := p } := by
  rw [semaphoreStep] at h
  obtain ⟨⟨p, o'⟩, hstep, hsome⟩ := Option.bind_eq_some_iff.mp h
  cases hsome
  exact ⟨p, hstep, rfl⟩

theorem moves_of_step (h : step maxConcurrentIo s a = some (s', o)) :
    Moves maxConcurrentIo s a s' := by
  cases a with
  | start r =>
    obtain ⟨p, hstep, rfl⟩ := semaphoreStep_eq_some h
    exact .semaphore (fun alone => by cases alone <;> rfl) (by rintro r ⟨⟩) hstep
  | acquire r =>
    obtain ⟨p, hstep, rfl⟩ := semaphoreStep_eq_some h
    exact .semaphore (fun alone => by cases alone <;> rfl) (by rintro r ⟨⟩) hstep
  | release r =>
    obtain ⟨p, hstep, rfl⟩ := semaphoreStep_eq_some h
    exact .semaphore (fun alone => by cases alone <;> rfl) (by rintro r ⟨⟩) hstep
  | opened r =>
    rw [step] at h
    split at h
    next hbuffer =>
      split at h
      next hwork =>
        cases h
        exact .opened hbuffer hwork
      next => cases h
    next => cases h
  | openFailed r e =>
    rw [step] at h
    split at h
    next hbuffer =>
      obtain ⟨p, hstep, rfl⟩ := semaphoreStep_eq_some h
      -- the open failed before a buffer was acquired
      refine .answered rfl id (fun alone hstage => ?_) hstep
      rw [hbuffer] at hstage
      cases hstage
      rfl
    next => cases h
  | readBuf r bytes =>
    rw [step] at h
    split at h
    next buffer hbuffer =>
      split at h
      next hend =>
        obtain ⟨p, hstep, rfl⟩ := semaphoreStep_eq_some h
        refine .answered rfl (fun hkept => hkept.drop []) (fun alone hstage => ?_) hstep
        rw [hbuffer] at hstage
        cases hstage
        -- an empty piece is the end of the file
        exact if_pos hend
      next hmore =>
        cases h
        exact .readBuf hbuffer hmore
    next => cases h
  | readFailed r e =>
    rw [step] at h
    split at h
    next buffer hbuffer =>
      obtain ⟨p, hstep, rfl⟩ := semaphoreStep_eq_some h
      refine .answered rfl (fun hkept => hkept.drop buffer) (fun alone hstage => ?_) hstep
      rw [hbuffer] at hstage
      cases hstage
      rfl
    next => cases h

/-- A read that answers has its permits, and hands them back from then on. -/
theorem finish_eq_some {r : Read calls} {p : PermitState (Read calls)}
    (h : (ioSemaphore maxConcurrentIo calls).step s.ioSemaphore (.finish r) = some (p, o)) :
    AtWork s r ∧ p = PermitPool.move s.ioSemaphore r (.leaving calls[r.1].permits) := by
  rw [PermitPool.step] at h
  split at h
  next hwork =>
    cases h
    exact ⟨hwork, rfl⟩
  next => cases h

theorem Stage.isOver {need : Nat} {phase phase' : PermitPhase} {buffer : Option Bytes}
    {answer : Option (Except E Bytes)} {alone : Alone E} (h : Stage need phase buffer answer alone)
    (hover : phase'.isOver = phase.isOver)
    (hstay : phase = .running need → phase' = .running need) :
    Stage need phase' buffer answer alone := by
  cases h with
  | waiting hno => exact .waiting (hover.trans hno)
  | reading =>
    rw [hstay rfl]
    exact .reading
  | answered hyes => exact .answered (hover.trans hyes)

/-- A read that is not over has no answer. -/
theorem Stage.answer_eq_none {need : Nat} {phase : PermitPhase} {buffer : Option Bytes}
    {answer : Option (Except E Bytes)} {alone : Alone E} (h : Stage need phase buffer answer alone)
    (hover : phase.isOver = false) : answer = none := by
  cases h with
  | waiting | reading => rfl
  | answered hyes =>
    rw [hover] at hyes
    cases hyes

theorem Stage.opened {need : Nat} {answer : Option (Except E Bytes)} {alone : Alone E}
    (h : Stage need (.running need) none answer alone) (r : Read calls) :
    Stage need (.running need) (some []) answer (alone.next (.opened r)) := by
  cases h with
  | waiting => exact .reading
  | answered hover => cases hover

theorem Stage.readBuf {need : Nat} {phase : PermitPhase} {buffer bytes : Bytes}
    {answer : Option (Except E Bytes)} {alone : Alone E}
    (h : Stage need phase (some buffer) answer alone) (hmore : bytes ≠ []) (r : Read calls) :
    Stage need phase (some (buffer ++ bytes)) answer (alone.next (.readBuf r bytes)) := by
  cases h
  rw [Alone.next, if_neg hmore]
  exact .reading

theorem Stage.answer_eq {need : Nat} {phase : PermitPhase} {buffer : Option Bytes}
    {answer : Option (Except E Bytes)} {alone : Alone E}
    (h : Stage need phase buffer answer alone) : answer = alone.answer := by
  cases h with
  | waiting | reading | answered => rfl

/-- A step keeps what holds. -/
theorem Reading.step (h : Reading maxConcurrentIo past s)
    (hstep : step maxConcurrentIo s a = some (s', o)) :
    Reading maxConcurrentIo (past ++ [a]) s' := by
  cases moves_of_step hstep with
  | semaphore hnext hfinish hsem =>
    refine ⟨h.sound.step hsem, h.kept, fun r => ?_⟩
    -- what happens at the semaphore is no part of a read's own history
    have hsame : alone r (past ++ [a]) = alone r past := by
      by_cases hr : a.read = r
      · rw [alone_concat_self hr, hnext]
      · rw [alone_concat_of_ne hr]
    obtain ⟨hover, hstay⟩ := PermitPool.stays_of_step hfinish hsem r
    rw [hsame]
    exact (h.stage r).isOver hover hstay
  | @opened r hbuffer hwork =>
    obtain ⟨hclean, hkept⟩ := h.kept.acquire
    refine ⟨h.sound, hkept, fun r' => ?_⟩
    dsimp only
    by_cases hr : r = r'
    · subst hr
      have hstage := h.stage r
      rw [hbuffer, hwork] at hstage
      rw [alone_concat_self (r := r) (a := .opened r) rfl, Function.update_self, hwork, hclean]
      exact hstage.opened r
    · rw [alone_concat_of_ne (a := .opened r) hr, Function.update_of_ne (Ne.symm hr)]
      exact h.stage r'
  | @readBuf r buffer bytes hbuffer hmore =>
    refine ⟨h.sound, h.kept, fun r' => ?_⟩
    dsimp only
    by_cases hr : r = r'
    · subst hr
      have hstage := h.stage r
      rw [hbuffer] at hstage
      rw [alone_concat_self (r := r) (a := .readBuf r bytes) rfl, Function.update_self]
      exact hstage.readBuf hmore r
    · rw [alone_concat_of_ne (a := .readBuf r bytes) hr, Function.update_of_ne (Ne.symm hr)]
      exact h.stage r'
  | @answered r _ pool answer p _ hread hkept hanswer hsem =>
    refine ⟨h.sound.step hsem, hkept h.kept, fun r' => ?_⟩
    obtain ⟨hwork, rfl⟩ := finish_eq_some hsem
    dsimp only
    by_cases hr : r = r'
    · subst hr
      have hstage := h.stage r
      rw [hwork] at hstage
      -- a read is answered once, since it works until then
      rw [hstage.answer_eq_none rfl] at hstage
      rw [alone_concat_self hread, Function.update_self, Function.update_self,
        PermitPool.phase_move_self, hanswer _ hstage]
      exact .answered rfl
    · have hne : a.read ≠ r' := fun hr' => hr (hread.symm.trans hr')
      rw [alone_concat_of_ne hne, Function.update_of_ne (Ne.symm hr),
        Function.update_of_ne (Ne.symm hr), PermitPool.phase_move_of_ne _ (Ne.symm hr)]
      exact h.stage r'

theorem Reading.run {ok : State E calls → Action E calls → Prop}
    (h : Reading maxConcurrentIo past s) (hrun : Run (AsyncIOManager.step maxConcurrentIo) ok s as s') :
    Reading maxConcurrentIo (past ++ as) s' := by
  induction hrun generalizing past with
  | nil =>
    rw [List.append_nil]
    exact h
  | cons _ hstep _ ih =>
    rw [List.append_cons]
    exact ih (h.step hstep)

/-- In every run, each read answers what it would answer by itself. -/
theorem answers_of_run {ok : State E calls → Action E calls → Prop}
    (hrun : Run (step maxConcurrentIo) ok (new maxConcurrentIo) as s) (r : Read calls) :
    s.answer r = (alone r as).answer := by
  have hstage := (reading_new.run hrun).stage r
  rw [List.nil_append] at hstage
  exact hstage.answer_eq

/-- A read that fails hands its buffer on, and the next one does not see what was read. -/
theorem answers_of_run_sample :
    ∃ r r' : Read [.readFile "a", .readFile "b"], ∃ as, ∃ s : State String _,
      replay (step 1) (new 1) as = some s ∧ s.answer r' = (alone r' as).answer ∧
        s.answer r = some (.error "disk") ∧ s.answer r' = some (.ok [8]) := by
  refine ⟨⟨0, 0, Nat.one_pos⟩, ⟨1, 0, Nat.one_pos⟩, ?_⟩
  generalize hr : (⟨0, 0, Nat.one_pos⟩ : Read [.readFile "a", .readFile "b"]) = r
  generalize hr' : (⟨1, 0, Nat.one_pos⟩ : Read [.readFile "a", .readFile "b"]) = r'
  refine ⟨[.start r, .acquire r, .opened r, .readBuf r [7], .readFailed r "disk", .release r,
    .start r', .acquire r', .opened r', .readBuf r' [8], .readBuf r' []], ?_⟩
  subst hr hr'
  exact ⟨_, rfl, @answers_of_run _ _ 1 _ _ _ (run_of_replay rfl) _, rfl, rfl⟩

/-! ## Every run ends -/

/-- The file goes on. -/
def Action.isMore : Action E calls → Bool
  | .readBuf _ bytes => !bytes.isEmpty
  | _ => false

/-- How many steps there may be, at most, but for those at which a file goes on. -/
def remaining (maxConcurrentIo : Nat) (s : State E calls) : Nat :=
  (ioSemaphore maxConcurrentIo calls).budget s.ioSemaphore
    + #{r | (s.buffer r).isNone = true ∧ (s.answer r).isNone = true}

/-- Every step is paid for, but for those at which a file goes on. -/
theorem Reading.remaining_step (h : Reading maxConcurrentIo past s)
    (hstep : AsyncIOManager.step maxConcurrentIo s a = some (s', o)) :
    remaining maxConcurrentIo s' + (if a.isMore then 0 else 1) ≤ remaining maxConcurrentIo s := by
  have hone : (if a.isMore then 0 else 1) ≤ 1 := by
    split
    next => exact Nat.zero_le 1
    next => exact le_rfl
  cases moves_of_step hstep with
  | semaphore _ _ hsem =>
    have hspent := PermitPool.budget_step h.sound hsem
    rw [remaining, remaining]
    dsimp only
    omega
  | @opened r hbuffer hwork =>
    have hstage := h.stage r
    rw [hwork] at hstage
    have hanswer := hstage.answer_eq_none rfl
    -- one read fewer is without a buffer
    have hless : #{r' |
          (Function.update s.buffer r (some s.readBufferPool.acquire.1) r').isNone = true ∧
            (s.answer r').isNone = true}
        < #{r' | (s.buffer r').isNone = true ∧ (s.answer r').isNone = true} := by
      refine card_lt_card ((ssubset_iff_of_subset fun r' hr' => ?_).mpr ⟨r, ?_, fun hmem => ?_⟩)
      · obtain ⟨-, hnone, hno⟩ := mem_filter.mp hr'
        have hne : r' ≠ r := by
          rintro rfl
          rw [Function.update_self] at hnone
          cases hnone
        rw [Function.update_of_ne hne] at hnone
        exact mem_filter.mpr ⟨mem_univ r', hnone, hno⟩
      · exact mem_filter.mpr ⟨mem_univ r, by rw [hbuffer]; rfl, by rw [hanswer]; rfl⟩
      · have hnone := (mem_filter.mp hmem).2.1
        rw [Function.update_self] at hnone
        cases hnone
    rw [remaining, remaining]
    dsimp only
    omega
  | @readBuf r buffer bytes hbuffer hmore =>
    have hless : #{r' | (Function.update s.buffer r (some (buffer ++ bytes)) r').isNone = true
          ∧ (s.answer r').isNone = true}
        ≤ #{r' | (s.buffer r').isNone = true ∧ (s.answer r').isNone = true} := by
      refine card_le_card fun r' hr' => ?_
      obtain ⟨-, hnone, hno⟩ := mem_filter.mp hr'
      have hne : r' ≠ r := by
        rintro rfl
        rw [Function.update_self] at hnone
        cases hnone
      rw [Function.update_of_ne hne] at hnone
      exact mem_filter.mpr ⟨mem_univ r', hnone, hno⟩
    -- a further piece uses nothing up
    have hmore' : (Action.readBuf r bytes : Action E calls).isMore = true := by
      rw [Action.isMore, List.isEmpty_eq_false_iff.mpr hmore]
      rfl
    rw [remaining, remaining, hmore', if_pos rfl]
    dsimp only
    omega
  | @answered r _ _ answer _ _ _ _ _ hsem =>
    have hspent := PermitPool.budget_step h.sound hsem
    -- the read has no buffer any more, but it has its answer
    have hless : #{r' | (Function.update s.buffer r none r').isNone = true
          ∧ (Function.update s.answer r (some answer) r').isNone = true}
        ≤ #{r' | (s.buffer r').isNone = true ∧ (s.answer r').isNone = true} := by
      refine card_le_card fun r' hr' => ?_
      obtain ⟨-, hnone, hno⟩ := mem_filter.mp hr'
      have hne : r' ≠ r := by
        rintro rfl
        rw [Function.update_self] at hno
        cases hno
      rw [Function.update_of_ne hne] at hnone hno
      exact mem_filter.mpr ⟨mem_univ r', hnone, hno⟩
    rw [remaining, remaining]
    dsimp only
    omega

/-- Every step but a further piece uses up some of what remains. -/
theorem Reading.countP_le_remaining {ok : State E calls → Action E calls → Prop}
    (h : Reading maxConcurrentIo past s)
    (hrun : Run (AsyncIOManager.step maxConcurrentIo) ok s as s') :
    as.countP (fun a => !a.isMore) ≤ remaining maxConcurrentIo s := by
  induction hrun generalizing past with
  | nil => exact Nat.zero_le _
  | @cons s s' t a _ as _ hstep _ ih =>
    have hspent := h.remaining_step hstep
    have hcount := ih (h.step hstep)
    rw [List.countP_cons]
    cases hmore : a.isMore with
    | true =>
      rw [hmore] at hspent
      simp only [Bool.not_true, Bool.false_eq_true, if_false, if_true] at hspent ⊢
      omega
    | false =>
      rw [hmore] at hspent
      simp only [Bool.not_false, Bool.false_eq_true, if_false, if_true] at hspent ⊢
      omega

theorem remaining_new :
    remaining maxConcurrentIo (new maxConcurrentIo : State E calls)
      = ∑ r : Read calls, (3 * calls[r.1].permits + 4) := by
  have hall : #{r : Read calls | ((new maxConcurrentIo : State E calls).buffer r).isNone = true ∧
      ((new maxConcurrentIo : State E calls).answer r).isNone = true} = ∑ _r : Read calls, 1 := by
    rw [card_eq_sum_ones, filter_true_of_mem (fun _ _ => ⟨rfl, rfl⟩)]
  rw [remaining, hall]
  exact sum_add_distrib.symm

/-- A manager that is stuck has a semaphore that is. -/
theorem stuck_of_end (hend : ∀ a, AsyncIOManager.step maxConcurrentIo s a = none) :
    (ioSemaphore maxConcurrentIo calls).Stuck s.ioSemaphore := by
  have hsem : ∀ b, semaphoreStep maxConcurrentIo s b = none →
      (ioSemaphore maxConcurrentIo calls).step s.ioSemaphore b = none := by
    intro b hnone
    cases hstep : (ioSemaphore maxConcurrentIo calls).step s.ioSemaphore b with
    | none => rfl
    | some p =>
      rw [semaphoreStep, hstep] at hnone
      cases hnone
  intro b
  cases b with
  | start r => exact hsem _ (hend (.start r))
  | ask r => exact hsem _ (hend (.acquire r))
  | give r => exact hsem _ (hend (.release r))
  | finish r =>
    -- who has its permits opens the file, or reads on
    rw [PermitPool.step]
    refine if_neg fun hwork => ?_
    cases hbuffer : s.buffer r with
    | none =>
      have hopened := hend (.opened r)
      rw [AsyncIOManager.step, hbuffer] at hopened
      dsimp only at hopened
      rw [if_pos (show AtWork s r from hwork)] at hopened
      cases hopened
    | some buffer =>
      have hread := hend (.readBuf r [0])
      rw [AsyncIOManager.step, hbuffer] at hread
      cases hread

/-- How many permits a call can hold while it waits for more. -/
def hoard : ReadCall → Nat
  | .readFile _ => 0
  | .readFilesConcurrent paths => min 10 paths.length

theorem hoard_ioSemaphore :
    (ioSemaphore maxConcurrentIo calls).hoard = (calls.map hoard).sum := by
  have hsize : ∀ c, (ioSemaphore maxConcurrentIo calls).size c = calls[c].paths.length := by
    intro c
    have himage : ({r : Read calls | r.1 = c} : Finset (Read calls))
        = univ.map (Function.Embedding.sigmaMk c) := by
      ext r
      rw [mem_filter, mem_map]
      constructor
      · rintro ⟨-, rfl⟩
        exact ⟨r.2, mem_univ _, rfl⟩
      · rintro ⟨k, -, rfl⟩
        exact ⟨mem_univ _, rfl⟩
    change #{r : Read calls | r.1 = c} = _
    rw [himage, card_map, card_univ, Fintype.card_fin]
  rw [PermitPool.hoard, ← Fin.sum_univ_fun_getElem]
  refine sum_congr rfl fun c _ => ?_
  rw [hsize]
  change min calls[c].buffered calls[c].paths.length * (calls[c].permits - 1) = hoard calls[c]
  cases calls[c] with
  | readFile path => rfl
  | readFilesConcurrent paths => exact Nat.mul_one _

/-- When all reads are done, each call has collected what its paths have answered. -/
theorem Reading.collected_perm (h : Reading maxConcurrentIo past s)
    (hdone : ∀ r, s.ioSemaphore.phase r = .done) {answers : Read calls → Except E Bytes}
    (hanswers : ∀ r, s.answer r = some (answers r)) (c : Fin calls.length) :
    (collected s c).Perm (List.ofFn fun k => answers ⟨c, k⟩) := by
  have hperm : (s.ioSemaphore.finished.filter (·.1 = c)).Perm
      ((List.finRange calls[c].paths.length).map (Sigma.mk c)) := by
    refine (List.perm_ext_iff_of_nodup (h.sound.finished.filter _)
      ((List.nodup_finRange _).map sigma_mk_injective)).mpr fun r => ?_
    rw [List.mem_filter, List.mem_map, h.sound.mem_finished, decide_eq_true_eq]
    constructor
    · rintro ⟨-, rfl⟩
      exact ⟨r.2, List.mem_finRange _, rfl⟩
    · rintro ⟨k, -, rfl⟩
      exact ⟨hdone _, rfl⟩
  rw [List.ofFn_eq_map]
  refine (hperm.filterMap s.answer).trans (List.Perm.of_eq ?_)
  rw [List.filterMap_map, ← List.filterMap_eq_map]
  exact List.filterMap_congr fun k _ => hanswers ⟨c, k⟩

/-- With more permits than the batches can hold with one for each path in flight, every run comes to
an end, where every call has collected the answers of all its paths: what each of them answers by
itself. -/
theorem completes_of_run (hpermits : (calls.map hoard).sum < maxConcurrentIo)
    (hrun : Run (step maxConcurrentIo) (fun _ _ => True) (new maxConcurrentIo : State E calls)
      as s) :
    as.countP (fun a => !a.isMore) ≤ ∑ r : Read calls, (3 * calls[r.1].permits + 4) ∧
      ((∀ a, step maxConcurrentIo s a = none) →
        ∃ answers : Read calls → Except E Bytes, (∀ r, alone r as = .answered (answers r)) ∧
          ∀ c, (collected s c).Perm (List.ofFn fun k => answers ⟨c, k⟩)) := by
  have h := reading_new.run hrun
  rw [List.nil_append] at h
  refine ⟨remaining_new (E := E) ▸ reading_new.countP_le_remaining hrun, fun hend => ?_⟩
  have hdone : ∀ r, s.ioSemaphore.phase r = .done :=
    PermitPool.done_of_stuck (by rwa [hoard_ioSemaphore]) h.sound (stuck_of_end hend)
  have hanswered : ∀ r, ∃ answer, s.answer r = some answer ∧ alone r as = .answered answer := by
    intro r
    have hstage := h.stage r
    rw [hdone] at hstage
    generalize s.answer r = answer at hstage ⊢
    generalize s.buffer r = buffer at hstage
    generalize alone r as = alone at hstage ⊢
    cases hstage with
    | waiting hno => cases hno
    | answered => exact ⟨_, rfl, rfl⟩
  choose answers hsome halone using hanswered
  exact ⟨answers, halone, h.collected_perm hdone hsome⟩

/-- A batch of two paths and a single read. -/
def sampleReads : List ReadCall := [.readFilesConcurrent ["a", "b"], .readFile "c"]

def readA : Read sampleReads := ⟨⟨0, by decide⟩, ⟨0, by decide⟩⟩
def readB : Read sampleReads := ⟨⟨0, by decide⟩, ⟨1, by decide⟩⟩
def readC : Read sampleReads := ⟨⟨1, by decide⟩, ⟨0, by decide⟩⟩

/-- With three permits the second path of the batch has to wait for its second one, and the single
read waits behind it; they go on when the first path gives its permits back. -/
def contention : List (Action String sampleReads) :=
  [.start readA, .acquire readA, .start readB, .acquire readB, .acquire readA, .acquire readB,
    .start readC, .acquire readC, .opened readA, .readBuf readA [7], .readBuf readA [],
    .release readA, .release readA, .openFailed readB "missing", .opened readC,
    .readBuf readC [8], .readBuf readC [9], .readBuf readC [], .release readC, .release readB,
    .release readB]

theorem completes_of_run_sample :
    ∃ s : State String sampleReads, replay (step 3) (new 3) contention = some s ∧
      ((∀ a, step 3 s a = none) →
        ∃ answers : Read _ → Except String Bytes,
          (∀ r, alone r contention = .answered (answers r)) ∧
            ∀ c, (collected s c).Perm (List.ofFn fun k => answers ⟨c, k⟩)) ∧
      collected s readA.1 = [.ok [7], .error "missing"] ∧ collected s readC.1 = [.ok [8, 9]] :=
  ⟨_, rfl, (completes_of_run (by decide) (run_of_replay rfl)).2, rfl, rfl⟩

/-! ## A run that gets stuck -/

/-- As long as nobody comes to work, the manager goes through whatever the semaphore does. -/
theorem exists_run_of_semaphore {p p' : PermitState (Read calls)}
    {bs : List (PermitAction (Read calls))}
    (hrun : Run (ioSemaphore maxConcurrentIo calls).step (fun _ b => ∀ r, b ≠ .finish r) p bs p')
    (hp : s.ioSemaphore = p) :
    ∃ as, Run (step maxConcurrentIo) (fun _ _ => True) s as { s with ioSemaphore := p' } := by
  induction hrun generalizing s with
  | nil =>
    subst hp
    exact ⟨[], .nil⟩
  | @cons p p' t b _ _ hfinish hstep _ ih =>
    subst hp
    obtain ⟨as, hrun⟩ := ih (s := { s with ioSemaphore := p' }) rfl
    have hsem : semaphoreStep maxConcurrentIo s b = some ({ s with ioSemaphore := p' }, ()) := by
      rw [semaphoreStep, hstep]
      rfl
    cases b with
    | start r => exact ⟨.start r :: as, .cons trivial hsem hrun⟩
    | ask r => exact ⟨.acquire r :: as, .cons trivial hsem hrun⟩
    | give r => exact ⟨.release r :: as, .cons trivial hsem hrun⟩
    | finish r => exact absurd rfl (hfinish r)

/-- The call reads some paths at a time. -/
def isBatch : ReadCall → Bool
  | .readFile _ => false
  | .readFilesConcurrent paths => !paths.isEmpty

/-- The first path of each batch. -/
def firsts (calls : List ReadCall) : Finset (Read calls) := {r | isBatch calls[r.1] ∧ r.2.val = 0}

/-- A batch has one first path at most. -/
theorem card_firsts_le (c : Fin calls.length) : #{r ∈ firsts calls | r.1 = c} ≤ 1 := by
  refine card_le_one.mpr fun r hr r' hr' => ?_
  obtain ⟨hfirst, rfl⟩ := mem_filter.mp hr
  obtain ⟨hfirst', hcall⟩ := mem_filter.mp hr'
  have hzero := (mem_filter.mp hfirst).2.2
  have hzero' := (mem_filter.mp hfirst').2.2
  obtain ⟨c, k⟩ := r
  obtain ⟨c', k'⟩ := r'
  subst hcall
  exact congrArg (Sigma.mk c') (Fin.ext (hzero.trans hzero'.symm))

/-- Every batch has a first path. -/
theorem card_batches_le : #{c : Fin calls.length | isBatch calls[c]} ≤ #(firsts calls) := by
  refine (card_le_card fun c hc => ?_).trans (card_image_le (s := firsts calls) (f := Sigma.fst))
  have hbatch := (mem_filter.mp hc).2
  have hpos : 0 < calls[c].paths.length := by
    generalize calls[c] = call at hbatch
    cases call with
    | readFile path => cases hbatch
    | readFilesConcurrent paths =>
      refine List.length_pos_iff.mpr fun hnil => ?_
      change paths = [] at hnil
      subst hnil
      cases hbatch
  exact mem_image.mpr ⟨⟨c, ⟨0, hpos⟩⟩, mem_filter.mpr ⟨mem_univ _, hbatch, rfl⟩, rfl⟩

/-- With no more permits than batches, there is a run that gets stuck before any file is opened. All
permits are then held by reads that have one of two, and wait for the other. -/
theorem stuck_of_calls (hpermits : maxConcurrentIo ≤ #{c : Fin calls.length | isBatch calls[c]}) :
    ∃ as s,
      Run (step maxConcurrentIo) (fun _ _ => True) (new maxConcurrentIo : State E calls) as s ∧
      (∀ a, step maxConcurrentIo s a = none) ∧ (∀ r, s.answer r = none ∧ s.buffer r = none) ∧
      s.ioSemaphore.free = 0 ∧ ∀ r, 0 < (s.ioSemaphore.phase r).held →
        s.ioSemaphore.phase r = .waiting 1 ∧ calls[r.1].permits = 2 := by
  -- one read of each batch can hold a permit and lack the second
  have hhoard : maxConcurrentIo
      ≤ ∑ r ∈ firsts calls, ((ioSemaphore maxConcurrentIo calls).need r.1 - 1) := by
    refine (hpermits.trans card_batches_le).trans ?_
    rw [card_eq_sum_ones]
    refine sum_le_sum fun r hr => ?_
    have hbatch := (mem_filter.mp hr).2.1
    change 1 ≤ calls[r.1].permits - 1
    cases hcall : calls[r.1] with
    | readFile path =>
      rw [hcall] at hbatch
      cases hbatch
    | readFilesConcurrent paths => exact le_rfl
  obtain ⟨bs, p, hsem, hstuck, hfree, hwaiting⟩ := PermitPool.exists_stuck (ioSemaphore maxConcurrentIo calls)
    (firsts calls) (fun c => (card_firsts_le c).trans (PermitPool.window_pos _ c)) hhoard
  obtain ⟨as, hrun⟩ := exists_run_of_semaphore (E := E) (s := new maxConcurrentIo) hsem rfl
  have hnone : ∀ b, semaphoreStep maxConcurrentIo
      { (new maxConcurrentIo : State E calls) with ioSemaphore := p } b = none := by
    intro b
    rw [semaphoreStep, hstuck b]
    rfl
  refine ⟨as, _, hrun, fun a => ?_, fun _ => ⟨rfl, rfl⟩, hfree, fun r hheld => ?_⟩
  · cases a with
    | start r => exact hnone (.start r)
    | acquire r => exact hnone (.ask r)
    | release r => exact hnone (.give r)
    | opened r =>
      -- who could open its file could finish, too
      refine if_neg fun hwork => ?_
      have hfinish := hstuck (.finish r)
      rw [PermitPool.step] at hfinish
      split at hfinish
      next => cases hfinish
      next hno => exact hno hwork
    | openFailed r e =>
      change finish maxConcurrentIo _ r none (.error e) = none
      rw [finish, semaphoreStep, hstuck (.finish r)]
      rfl
    | readBuf r bytes => rfl
    | readFailed r e => rfl
  · rcases hwaiting r with hphase | ⟨held, hneed, hphase⟩
    · dsimp only at hheld
      rw [hphase] at hheld
      exact absurd hheld (Nat.lt_irrefl 0)
    · change held < calls[r.1].permits at hneed
      dsimp only at hheld ⊢
      rw [hphase] at hheld ⊢
      change 0 < held at hheld
      -- only the reads of a batch take more than one permit
      cases hcall : calls[r.1] with
      | readFile path =>
        rw [hcall] at hneed
        exact absurd hneed (Nat.not_lt.mpr hheld)
      | readFilesConcurrent paths =>
        rw [hcall] at hneed
        exact ⟨congrArg _ (Nat.le_antisymm (Nat.le_of_lt_succ hneed) hheld), rfl⟩

/-- Two batches, with two permits. -/
theorem stuck_of_calls_sample :
    ∃ as, ∃ s : State String [.readFilesConcurrent ["a", "b"], .readFilesConcurrent ["c"]],
      Run (step 2) (fun _ _ => True) (new 2) as s ∧ (∀ a, step 2 s a = none) ∧
        (∀ r, s.answer r = none ∧ s.buffer r = none) ∧ s.ioSemaphore.free = 0 ∧
          ∀ r, 0 < (s.ioSemaphore.phase r).held → s.ioSemaphore.phase r = .waiting 1 ∧
            ([ReadCall.readFilesConcurrent ["a", "b"], .readFilesConcurrent ["c"]][r.1]).permits
              = 2 :=
  stuck_of_calls (by decide)

end AsyncIOManager

end InterBit.Optimization
