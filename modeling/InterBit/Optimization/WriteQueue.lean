import Mathlib.Data.List.Induction
import InterBit.Lib.Run

/-!
# Writing files

`write_file` of `AsyncIOManager` in `optimization/async_io.rs` puts a request into the queue, and
one worker takes the requests from it: it opens and truncates the file, writes it bit by bit, and
answers. Each access to the queue, to the file system and to a channel is a step; what the file
system answers comes with the action. Nobody else writes these files.

The requests are answered in their order. What a file holds is what the last request for it that the
worker has opened the file for has written so far, and never a mixture of two (`writes_of_run`).
-/

namespace InterBit.Optimization

open InterBit.Lib

/-- `struct WriteRequest`, without its channel. -/
structure WriteRequest where
  path : String
  data : List UInt8
  deriving DecidableEq

namespace WriteQueue

/-- Where `process_write` is. -/
inductive Stage (E : Type) where
  | opening
  /-- So many bytes are written. -/
  | writing (written : Nat)
  | responding (result : Except E Unit)

/-- The queue, the request the worker is at, the files, and what has come out of the channels. A
channel is the number of its request; `sent` are the requests so far. -/
structure State (E : Type) where
  sent : List WriteRequest
  writeQueue : List (WriteRequest × Nat)
  worker : Option ((WriteRequest × Nat) × Stage E)
  files : String → Option (List UInt8)
  response : Nat → Option (Except E Unit)

/-- What happens next. -/
inductive Action (E : Type) where
  /-- `write_file` sends its request. -/
  | writeFile (path : String) (data : List UInt8)
  | recv
  | opened
  | openFailed (e : E)
  /-- `write_all` comes to write some more bytes. -/
  | wrote (n : Nat)
  /-- `write_all` or `sync_all` fails. -/
  | writeFailed (e : E)
  | synced
  | send

variable {E : Type}

/-- `AsyncIOManager::new`, over some files. -/
def new (files : String → Option (List UInt8)) : State E where
  sent := []
  writeQueue := []
  worker := none
  files := files
  response _ := none

/-- One step. -/
def step (s : State E) : Action E → Option (State E × Unit)
  | .writeFile path data =>
    let request := ⟨path, data⟩
    some ({ s with
      sent := s.sent ++ [request]
      writeQueue := s.writeQueue ++ [(request, s.sent.length)] }, ())
  | .recv =>
    match s.worker, s.writeQueue with
    | none, request :: writeQueue =>
      some ({ s with writeQueue, worker := some (request, .opening) }, ())
    | _, _ => none
  | .opened =>
    match s.worker with
    | some (request, .opening) =>
      some ({ s with
        worker := some (request, .writing 0)
        files := Function.update s.files request.1.path (some []) }, ())
    | _ => none
  | .openFailed e =>
    match s.worker with
    | some (request, .opening) =>
      some ({ s with worker := some (request, .responding (.error e)) }, ())
    | _ => none
  | .wrote n =>
    match s.worker with
    | some (request, .writing written) =>
      if written + n ≤ request.1.data.length then
        some ({ s with
          worker := some (request, .writing (written + n))
          files := Function.update s.files request.1.path
            ((s.files request.1.path).map (· ++ (request.1.data.drop written).take n)) }, ())
      else none
    | _ => none
  | .writeFailed e =>
    match s.worker with
    | some (request, .writing _) =>
      some ({ s with worker := some (request, .responding (.error e)) }, ())
    | _ => none
  | .synced =>
    match s.worker with
    | some (request, .writing written) =>
      if written = request.1.data.length then
        some ({ s with worker := some (request, .responding (.ok ())) }, ())
      else none
    | _ => none
  | .send =>
    match s.worker with
    | some (request, .responding result) =>
      some ({ s with
        worker := none
        response := Function.update s.response request.2 (some result) }, ())
    | _ => none

/-! ## One request after the other -/

/-- What the files hold after some requests, each with how much of it has been written, if its file
has been opened. -/
def after (files : String → Option (List UInt8)) (requests : List (WriteRequest × Option Nat)) :
    String → Option (List UInt8) :=
  requests.foldl (fun files request => match request.2 with
    | none => files
    | some n => Function.update files request.1.path (some (request.1.data.take n))) files

variable {files : String → Option (List UInt8)}

theorem after_concat (requests : List (WriteRequest × Option Nat)) (request : WriteRequest)
    (n : Nat) : after files (requests ++ [(request, some n)])
      = Function.update (after files requests) request.path (some (request.data.take n)) := by
  rw [after, List.foldl_append]
  rfl

theorem after_concat_none (requests : List (WriteRequest × Option Nat)) (request : WriteRequest) :
    after files (requests ++ [(request, none)]) = after files requests := by
  rw [after, List.foldl_append]
  rfl

/-- A file holds what it held, or the beginning of a request. -/
theorem after_cases (requests : List (WriteRequest × Option Nat)) (path : String) :
    after files requests path = files path ∨ ∃ request n, (request, some n) ∈ requests ∧
      request.path = path ∧ after files requests path = some (request.data.take n) := by
  induction requests using List.reverseRecOn with
  | nil => exact .inl rfl
  | append_singleton requests last ih =>
    obtain ⟨request, reach⟩ := last
    have hbefore : after files requests path = files path ∨ ∃ request' n,
        (request', some n) ∈ requests ++ [(request, reach)] ∧ request'.path = path ∧
          after files requests path = some (request'.data.take n) := by
      rcases ih with hsame | ⟨request', n, hmem, hrest⟩
      · exact .inl hsame
      · exact .inr ⟨request', n, List.mem_append_left _ hmem, hrest⟩
    cases reach with
    | none =>
      rw [after_concat_none]
      exact hbefore
    | some n =>
      rw [after_concat]
      by_cases hpath : path = request.path
      · subst hpath
        rw [Function.update_self]
        exact .inr ⟨request, n, List.mem_append_right _ (List.mem_singleton_self _), rfl, rfl⟩
      · rw [Function.update_of_ne hpath]
        exact hbefore

/-- Requests for other files leave a file alone. -/
theorem after_append_of_ne (requests later : List (WriteRequest × Option Nat)) {path : String}
    (h : ∀ request ∈ later, request.1.path ≠ path) :
    after files (requests ++ later) path = after files requests path := by
  induction later using List.reverseRecOn with
  | nil => rw [List.append_nil]
  | append_singleton later last ih =>
    obtain ⟨request, reach⟩ := last
    have hlater := ih fun request hmem => h request (List.mem_append_left _ hmem)
    have hne : path ≠ request.path :=
      (h _ (List.mem_append_right _ (List.mem_singleton_self _))).symm
    rw [← List.append_assoc]
    cases reach with
    | none => rw [after_concat_none, hlater]
    | some n => rw [after_concat, Function.update_of_ne hne, hlater]

/-! ## The invariant -/

/-- At a stage of its request, the worker has written so much of it. -/
def Stage.Reaches (stage : Stage E) (data : List UInt8) (reach : Option Nat) : Prop :=
  match stage with
  | .opening => reach = none
  | .writing written => reach = some written ∧ written ≤ data.length
  | .responding result => result = .ok () → reach = some data.length

/-- Where the worker is, and how far the requests that it is done with have come. -/
inductive Working (files : String → Option (List UInt8)) (s : State E) (done : List (Option Nat)) :
    Option ((WriteRequest × Nat) × Stage E) → Prop
  | idle : done.length ≤ s.sent.length → s.writeQueue = s.sent.zipIdx.drop done.length →
      s.files = after files (s.sent.zip done) → Working files s done none
  | busy {request : WriteRequest} {stage : Stage E} {reach : Option Nat} :
      s.sent[done.length]? = some request →
      s.writeQueue = s.sent.zipIdx.drop (done.length + 1) → stage.Reaches request.data reach →
      s.files = after files (s.sent.zip done ++ [(request, reach)]) →
      Working files s done (some ((request, done.length), stage))

/-- What holds in every run. -/
structure Sound (files : String → Option (List UInt8)) (s : State E) (done : List (Option Nat)) :
    Prop where
  working : Working files s done s.worker
  answered : ∀ k, (s.response k).isSome = true ↔ k < done.length
  ok : ∀ k request, s.sent[k]? = some request → s.response k = some (.ok ()) →
    done[k]? = some (some request.data.length)

variable {s s' : State E} {done : List (Option Nat)} {o : Unit}

theorem Working.length_le {worker : Option ((WriteRequest × Nat) × Stage E)}
    (h : Working files s done worker) : done.length ≤ s.sent.length := by
  cases h with
  | idle hle => exact hle
  | busy hget => exact Nat.le_of_lt (List.getElem?_eq_some_iff.mp hget).1

theorem sound_new : Sound files (new files : State E) [] where
  working := .idle (Nat.le_refl 0) rfl rfl
  answered _ := iff_of_false Bool.false_ne_true (Nat.not_lt_zero _)
  ok _ _ hget := by cases hget

theorem zip_take {α β : Type} {xs : List α} {ys : List β} (h : ys.length ≤ xs.length) :
    xs.zip ys = (xs.take ys.length).zip ys := by
  have hmin : min xs.length ys.length = ys.length := Nat.min_eq_right h
  rw [List.zip_eq_zip_take_min, hmin, List.take_length]

theorem zip_concat_left {α β : Type} {xs : List α} {ys : List β} (h : ys.length ≤ xs.length)
    (x : α) : (xs ++ [x]).zip ys = xs.zip ys := by
  have hlong : ys.length ≤ (xs ++ [x]).length :=
    Nat.le_trans h (by rw [List.length_append]; exact Nat.le_add_right _ _)
  rw [zip_take h, zip_take hlong, List.take_append_of_le_length h]

theorem zip_concat_right {α β : Type} {xs : List α} {ys : List β} {x : α}
    (h : xs[ys.length]? = some x) (y : β) : xs.zip (ys ++ [y]) = xs.zip ys ++ [(x, y)] := by
  have hlt := (List.getElem?_eq_some_iff.mp h).1
  have hlong : (ys ++ [y]).length ≤ xs.length := by
    rw [List.length_append]
    exact hlt
  rw [zip_take hlong, zip_take (Nat.le_of_lt hlt), List.length_append, List.length_singleton,
    List.take_add_one, h, Option.toList_some, List.zip_append]
  · rfl
  · rw [List.length_take, Nat.min_eq_left (Nat.le_of_lt hlt)]

/-- A request joins the queue. -/
theorem Working.send (h : Working files s done s.worker) (request : WriteRequest) :
    Working files { s with
      sent := s.sent ++ [request]
      writeQueue := s.writeQueue ++ [(request, s.sent.length)] } done s.worker := by
  have hle := h.length_le
  have hzip := zip_concat_left hle request
  have hlength : (s.sent ++ [request]).length = s.sent.length + 1 := List.length_append
  have hdrop : ∀ n ≤ s.sent.length, (s.sent ++ [request]).zipIdx.drop n
      = s.sent.zipIdx.drop n ++ [(request, s.sent.length)] := by
    intro n hn
    rw [List.zipIdx_append, List.drop_append_of_le_length (by rwa [List.length_zipIdx]),
      Nat.zero_add]
    rfl
  generalize s.worker = worker at h ⊢
  cases h with
  | idle _ hqueue hfiles =>
    refine .idle ?_ ?_ ?_
    · exact Nat.le_trans hle (hlength ▸ Nat.le_add_right _ 1)
    · change s.writeQueue ++ _ = (s.sent ++ [request]).zipIdx.drop done.length
      rw [hqueue, hdrop _ hle]
    · change s.files = after files ((s.sent ++ [request]).zip done)
      rw [hzip]
      exact hfiles
  | busy hget hqueue hreach hfiles =>
    have hlt := (List.getElem?_eq_some_iff.mp hget).1
    refine .busy ?_ ?_ hreach ?_
    · exact (List.getElem?_append_left hlt).trans hget
    · change s.writeQueue ++ _ = (s.sent ++ [request]).zipIdx.drop (done.length + 1)
      rw [hqueue, hdrop _ hlt]
    · change s.files = after files ((s.sent ++ [request]).zip done ++ _)
      rw [hzip]
      exact hfiles

/-- The worker goes on with its request. -/
theorem Working.move {request : WriteRequest} {k : Nat} {stage next : Stage E}
    {files' : String → Option (List UInt8)}
    (h : Working files s done (some ((request, k), stage)))
    (hnext : ∀ reach, stage.Reaches request.data reach →
      ∃ reach', next.Reaches request.data reach' ∧
        ∀ before, s.files = after files (before ++ [(request, reach)]) →
          files' = after files (before ++ [(request, reach')])) :
    Working files { s with
      worker := some ((request, k), next)
      files := files' } done (some ((request, k), next)) := by
  cases h with
  | busy hget hqueue hreach hfiles =>
    obtain ⟨reach', hreach', hfiles'⟩ := hnext _ hreach
    exact .busy hget hqueue hreach' (hfiles' _ hfiles)

/-- The first request of the queue is the next one. -/
theorem Working.recv (h : Working files s done none) {request : WriteRequest × Nat}
    {writeQueue : List (WriteRequest × Nat)} (hqueue : s.writeQueue = request :: writeQueue) :
    Working files { s with writeQueue, worker := some (request, .opening) } done
      (some (request, .opening)) := by
  cases h with
  | idle hle hdrop hfiles =>
    rw [hqueue] at hdrop
    have hget : s.sent.zipIdx[done.length]? = some request := by
      rw [← List.head?_drop, ← hdrop]
      rfl
    rw [List.getElem?_zipIdx, Nat.zero_add] at hget
    obtain ⟨request', hnext, rfl⟩ := Option.map_eq_some_iff.mp hget
    refine .busy hnext ?_ rfl ?_
    · change writeQueue = s.sent.zipIdx.drop (done.length + 1)
      rw [← List.tail_drop, ← hdrop]
      rfl
    · rw [after_concat_none]
      exact hfiles

/-- The worker is done with a request. -/
theorem Working.respond {request : WriteRequest × Nat} {result : Except E Unit}
    (h : Working files s done (some (request, .responding result))) :
    ∃ reach, request.2 = done.length ∧
      (result = .ok () → reach = some request.1.data.length) ∧
      s.sent[done.length]? = some request.1 ∧
      Working files { s with
        worker := none
        response := Function.update s.response request.2 (some result) }
        (done ++ [reach]) none := by
  cases h with
  | @busy request _ reach hget hqueue hreach hfiles =>
    have hlt := (List.getElem?_eq_some_iff.mp hget).1
    have hlength : (done ++ [reach]).length = done.length + 1 := List.length_append
    refine ⟨reach, rfl, hreach, hget, .idle ?_ ?_ ?_⟩
    · rw [hlength]
      exact hlt
    · rw [hlength]
      exact hqueue
    · change s.files = after files (s.sent.zip (done ++ [reach]))
      rw [zip_concat_right hget]
      exact hfiles

/-- A step keeps what holds. -/
theorem Sound.step {a : Action E} (h : Sound files s done)
    (hstep : step s a = some (s', o)) : ∃ done', Sound files s' done' := by
  cases a with
  | writeFile path data =>
    cases hstep
    refine ⟨done, h.working.send ⟨path, data⟩, h.answered, fun k request hget hok => ?_⟩
    -- an answered request was sent before this one
    have hlt : k < s.sent.length :=
      Nat.lt_of_lt_of_le ((h.answered k).mp (by rw [hok]; rfl)) h.working.length_le
    rw [List.getElem?_append_left hlt] at hget
    exact h.ok k request hget hok
  | recv =>
    rw [WriteQueue.step] at hstep
    split at hstep
    next request writeQueue hworker hqueue =>
      cases hstep
      have hworking := h.working
      rw [hworker] at hworking
      exact ⟨done, hworking.recv hqueue, h.answered, h.ok⟩
    next => cases hstep
  | opened =>
    rw [WriteQueue.step] at hstep
    split at hstep
    next request hworker =>
      cases hstep
      have hworking := h.working
      rw [hworker] at hworking
      refine ⟨done, hworking.move fun reach hreach => ⟨some 0, ⟨rfl, Nat.zero_le _⟩, ?_⟩,
        h.answered, h.ok⟩
      -- opening truncates the file: of the new request nothing is in it yet
      rintro before hfiles
      subst hreach
      rw [after_concat, ← after_concat_none, ← hfiles]
      rfl
    next => cases hstep
  | openFailed e =>
    rw [WriteQueue.step] at hstep
    split at hstep
    next request hworker =>
      cases hstep
      have hworking := h.working
      rw [hworker] at hworking
      exact ⟨done, hworking.move fun reach _ => ⟨reach, (fun h => by cases h), fun _ => id⟩,
        h.answered, h.ok⟩
    next => cases hstep
  | wrote n =>
    rw [WriteQueue.step] at hstep
    split at hstep
    next request written hworker =>
      split at hstep
      next hfits =>
        cases hstep
        have hworking := h.working
        rw [hworker] at hworking
        refine ⟨done, hworking.move fun reach hreach => ⟨some (written + n), ⟨rfl, hfits⟩, ?_⟩,
          h.answered, h.ok⟩
        rintro before hfiles
        obtain ⟨rfl, -⟩ := hreach
        -- two pieces in a row are one longer piece
        rw [hfiles, after_concat, after_concat, Function.update_self, Function.update_idem,
          Option.map_some, ← List.take_add]
      next => cases hstep
    next => cases hstep
  | writeFailed e =>
    rw [WriteQueue.step] at hstep
    split at hstep
    next request written hworker =>
      cases hstep
      have hworking := h.working
      rw [hworker] at hworking
      exact ⟨done, hworking.move fun reach _ => ⟨reach, (fun h => by cases h), fun _ => id⟩,
        h.answered, h.ok⟩
    next => cases hstep
  | synced =>
    rw [WriteQueue.step] at hstep
    split at hstep
    next request written hworker =>
      split at hstep
      next hall =>
        cases hstep
        have hworking := h.working
        rw [hworker] at hworking
        refine ⟨done, hworking.move fun reach hreach => ⟨reach, fun _ => ?_, fun _ => id⟩,
          h.answered, h.ok⟩
        -- the write has come to the end of the data
        rw [hreach.1, hall]
      next => cases hstep
    next => cases hstep
  | send =>
    rw [WriteQueue.step] at hstep
    split at hstep
    next request result hworker =>
      cases hstep
      have hworking := h.working
      rw [hworker] at hworking
      obtain ⟨reach, hk, hreach, hget, hworking⟩ := hworking.respond
      -- only this request is answered, with the reach that its write had
      refine ⟨done ++ [reach], hworking, fun k => ?_, fun k request' hget' hok => ?_⟩
      · change (Function.update s.response request.2 (some result) k).isSome = true ↔ _
        rw [List.length_append, List.length_singleton, Nat.lt_succ_iff_lt_or_eq, ← hk]
        by_cases hsame : k = request.2
        · subst hsame
          rw [Function.update_self]
          exact iff_of_true rfl (.inr rfl)
        · rw [Function.update_of_ne hsame, h.answered, hk, or_iff_left (hk ▸ hsame)]
      · change Function.update s.response request.2 (some result) k = some (.ok ()) at hok
        by_cases hsame : k = request.2
        · subst hsame
          rw [Function.update_self] at hok
          rw [hk] at hget'
          obtain rfl := Option.some.inj (hget.symm.trans hget')
          rw [hk, List.getElem?_append_right (Nat.le_refl _), Nat.sub_self,
            hreach (Option.some.inj hok)]
          rfl
        · rw [Function.update_of_ne hsame] at hok
          have hlt := (h.answered k).mp (by rw [hok]; rfl)
          rw [List.getElem?_append_left hlt]
          exact h.ok k request' hget' hok
    next => cases hstep

theorem Sound.run {ok : State E → Action E → Prop} {as : List (Action E)}
    (h : Sound files s done) (hrun : Run WriteQueue.step ok s as s') :
    ∃ done', Sound files s' done' := by
  refine hrun.invariant (I := fun s => ∃ done, Sound files s done) ?_ ⟨done, h⟩
  rintro s a s' o - - hstep ⟨done, h⟩
  exact h.step hstep

/-! ## What the files hold -/

/-- All requests that the worker has begun, each with how far it has come. -/
theorem Working.begun {worker : Option ((WriteRequest × Nat) × Stage E)}
    (h : Working files s done worker) :
    ∃ rest : Option (Option Nat), s.files = after files (s.sent.zip (done ++ rest.toList)) ∧
      (done ++ rest.toList).length ≤ s.sent.length := by
  cases h with
  | idle hle _ hfiles =>
    refine ⟨none, ?_, ?_⟩
    · rw [Option.toList_none, List.append_nil]
      exact hfiles
    · rw [Option.toList_none, List.append_nil]
      exact hle
  | @busy _ _ reach hget _ _ hfiles =>
    refine ⟨some reach, ?_, ?_⟩
    · rw [Option.toList_some, zip_concat_right hget]
      exact hfiles
    · rw [Option.toList_some, List.length_append]
      exact (List.getElem?_eq_some_iff.mp hget).1

/-- In every run the requests are answered in the order in which they were sent. A file whose write
was answered with success holds what was written, until the worker comes to another request for it;
and a file never holds anything but what it held, or the beginning of one request. -/
theorem writes_of_run {ok : State E → Action E → Prop} {as : List (Action E)}
    (hrun : Run step ok (new files) as s) :
    ∃ n ≤ s.sent.length, (∀ k, (s.response k).isSome = true ↔ k < n) ∧
      (∀ k request, s.sent[k]? = some request → s.response k = some (.ok ()) →
        (∀ j later, k < j → j ≤ n → s.sent[j]? = some later → later.path ≠ request.path) →
        s.files request.path = some request.data) ∧
      ∀ path, s.files path = files path ∨ ∃ k ≤ n, ∃ request m, s.sent[k]? = some request ∧
        request.path = path ∧ s.files path = some (request.data.take m) := by
  obtain ⟨done, h⟩ := sound_new.run hrun
  obtain ⟨rest, hfiles, hlength⟩ := h.working.begun
  -- The worker has begun at most one request beyond those that are answered.
  have hbegun : (done ++ rest.toList).length ≤ done.length + 1 := by
    rw [List.length_append]
    cases rest with
    | none => exact Nat.le_add_right _ _
    | some => exact Nat.le_refl _
  refine ⟨done.length, h.working.length_le, h.answered, fun k request hget hok hlast => ?_,
    fun path => ?_⟩
  · have hlt := (h.answered k).mp (by rw [hok]; rfl)
    generalize hall : s.sent.zip (done ++ rest.toList) = all at hfiles
    have hk : all[k]? = some (request, some request.data.length) := by
      rw [← hall, List.getElem?_zip_eq_some, List.getElem?_append_left hlt]
      exact ⟨hget, h.ok k request hget hok⟩
    -- No later request is for this file, as far as the worker has come.
    have hlater : ∀ later ∈ all.drop (k + 1), later.1.path ≠ request.path := by
      intro later hmem
      obtain ⟨j, hj⟩ := List.getElem?_of_mem hmem
      rw [List.getElem?_drop, ← hall] at hj
      obtain ⟨hsent, hreach⟩ := List.getElem?_zip_eq_some.mp hj
      have hle := (List.getElem?_eq_some_iff.mp hreach).1
      exact hlast _ _ (by omega) (by omega) hsent
    rw [hfiles, ← List.take_append_drop (k + 1) all, after_append_of_ne _ _ hlater,
      List.take_add_one, hk, Option.toList_some, after_concat, Function.update_self,
      List.take_length]
  · rw [hfiles]
    refine (after_cases _ path).imp id ?_
    rintro ⟨request, m, hmem, hpath, hholds⟩
    obtain ⟨k, hk⟩ := List.getElem?_of_mem hmem
    obtain ⟨hget, hreach⟩ := List.getElem?_zip_eq_some.mp hk
    have hlt := (List.getElem?_eq_some_iff.mp hreach).1
    exact ⟨k, Nat.le_of_lt_succ (Nat.lt_of_lt_of_le hlt hbegun), request, m, hget, hpath, hholds⟩

/-- The second write stops after its first byte. -/
theorem writes_of_run_sample :
    ∃ as, ∃ s : State String, Run step (fun _ _ => True) (new fun _ => none) as s ∧
      (∃ n ≤ s.sent.length, ∀ k, (s.response k).isSome = true ↔ k < n) ∧
      s.files "a" = some [3] ∧ s.response 1 = some (.error "disk") := by
  have hrun : ∃ s : State String, Run step (fun _ _ => True) (new fun _ => none)
      [.writeFile "a" [1, 2], .writeFile "a" [3, 4], .recv, .opened, .wrote 2, .synced, .send,
        .recv, .opened, .wrote 1, .writeFailed "disk", .send] s ∧
      s.files "a" = some [3] ∧ s.response 1 = some (.error "disk") :=
    ⟨_, run_of_replay rfl, by simp, rfl⟩
  obtain ⟨s, hrun, hrest⟩ := hrun
  obtain ⟨n, hn, hanswered, -⟩ := writes_of_run hrun
  exact ⟨_, s, hrun, ⟨n, hn, hanswered⟩, hrest⟩

end WriteQueue

end InterBit.Optimization
