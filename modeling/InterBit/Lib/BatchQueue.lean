import Mathlib.Data.Multiset.Bind

/-!
# Queues that are served in batches

Items are submitted, wait in a queue, and are taken from its front in batches. A batch waits until
it is passed to a processor, which gives one result for each item in order, and the results are
sent back one by one, in any order among the batches. `Ledger` has all of that, with what has
happened so far, and `Ledger.Step` is one step of anyone.

`Ledger.Sound` holds after every step (`Sound.step`). It says that the batches are the queue cut
into pieces, and that batches and answers are moved and neither made nor lost. What follows is
where an item is (`Sound.places`), and that an answer is one to the item it is sent to
(`Sound.mem_answers`).
-/

namespace InterBit.Lib

open Relation

/-- An item with the number of its submission. -/
structure Entry (T : Type) where
  id : Nat
  item : T
  deriving DecidableEq

/-- A batch that was taken, with the largest size then allowed. -/
structure Taken (T : Type) where
  batch : List (Entry T)
  limit : Nat

/-- A call of the processor. -/
structure Call (T R : Type) where
  batch : List (Entry T)
  results : List R

variable {T R : Type}

/-- A sum over a list in which one element is replaced. -/
theorem sum_map_set {α M : Type} [AddCommMonoid M] (f : α → M) {xs : List α} {k : Nat} {x : α}
    (h : xs[k]? = some x) (y : α) :
    ∃ others, (xs.map f).sum = f x + others ∧ ((xs.set k y).map f).sum = f y + others := by
  obtain ⟨hk, rfl⟩ := List.getElem?_eq_some_iff.mp h
  refine ⟨((xs.eraseIdx k).map f).sum, ?_, ?_⟩
  · rw [← List.sum_cons, ← List.map_cons]
    exact ((List.getElem_cons_eraseIdx_perm hk).symm.map f).sum_eq
  · rw [← List.sum_cons, ← List.map_cons]
    exact ((List.set_perm_cons_eraseIdx hk y).map f).sum_eq

theorem sum_map_set_of_eq {α M : Type} [AddCommMonoid M] (f : α → M) {xs : List α} {k : Nat}
    {x y : α} (h : xs[k]? = some x) (heq : f y = f x) :
    ((xs.set k y).map f).sum = (xs.map f).sum := by
  obtain ⟨others, hold, hnew⟩ := sum_map_set f h y
  rw [hold, hnew, heq]

/-- The items submitted, with their numbers. -/
def entries (submissions : List T) : List (Entry T) := submissions.mapIdx Entry.mk

/-- What a call answers to which submissions. -/
def Call.answers (call : Call T R) : List (Nat × R) := (call.batch.map Entry.id).zip call.results

/-- What there is, and what has happened. -/
@[ext]
structure Ledger (T R : Type) where
  submissions : List T
  queue : List (Entry T)
  taken : List (Taken T)
  waiting : Multiset (List (Entry T))
  discarded : Multiset (List (Entry T))
  calls : List (Call T R)
  unsent : Multiset (Nat × R)
  answers : Multiset (Nat × R)

namespace Ledger

variable (discards : Prop) (processes : List T → List R → Prop)

/-- A step; `discards` says whether a batch may be discarded, and `processes` what the processor may
give for a batch. -/
inductive Step : Ledger T R → Ledger T R → Prop
  | submit (l : Ledger T R) (item : T) :
      Step l { l with
        submissions := l.submissions ++ [item]
        queue := l.queue ++ [⟨l.submissions.length, item⟩] }
  | take (l : Ledger T R) {size limit : Nat} (h : size ≤ limit) :
      Step l { l with
        queue := l.queue.drop size
        taken := l.taken ++ [⟨l.queue.take size, limit⟩]
        waiting := l.queue.take size ::ₘ l.waiting }
  | discard (l : Ledger T R) {batch : List (Entry T)} {rest : Multiset (List (Entry T))}
      (h : l.waiting = batch ::ₘ rest) (hdiscards : discards) :
      Step l { l with waiting := rest, discarded := batch ::ₘ l.discarded }
  | call (l : Ledger T R) {call : Call T R} {rest : Multiset (List (Entry T))}
      (h : l.waiting = call.batch ::ₘ rest)
      (hresults : processes (call.batch.map Entry.item) call.results) :
      Step l { l with
        waiting := rest
        calls := l.calls ++ [call]
        unsent := call.answers + l.unsent }
  | send (l : Ledger T R) {answer : Nat × R} {rest : Multiset (Nat × R)}
      (h : l.unsent = answer ::ₘ rest) :
      Step l { l with unsent := rest, answers := answer ::ₘ l.answers }

/-- The batches are the queue cut into pieces, each batch that was taken waits, is discarded or was
passed on, and each answer is sent or to be sent. -/
structure Sound (l : Ledger T R) : Prop where
  order : l.taken.flatMap Taken.batch ++ l.queue = entries l.submissions
  limits : ∀ taken ∈ l.taken, taken.batch.length ≤ taken.limit
  batches : l.waiting + l.discarded + ↑(l.calls.map Call.batch) = ↑(l.taken.map Taken.batch)
  discarded : l.discarded ≠ 0 → discards
  processed : ∀ call ∈ l.calls, processes (call.batch.map Entry.item) call.results
  answered : l.unsent + l.answers = ↑(l.calls.flatMap Call.answers)

variable {discards} {processes} {l l' : Ledger T R}

theorem coe_map_concat {α β : Type} (f : α → β) (xs : List α) (x : α) :
    (↑((xs ++ [x]).map f) : Multiset β) = f x ::ₘ ↑(xs.map f) := by
  rw [List.map_append, List.map_singleton, ← Multiset.coe_add, Multiset.coe_singleton, add_comm,
    Multiset.singleton_add]

/-- One step keeps the ledger sound. -/
theorem Sound.step (h : Sound discards processes l) (hstep : Step discards processes l l') :
    Sound discards processes l' := by
  cases hstep with
  | submit item =>
    refine ⟨?_, h.limits, h.batches, h.discarded, h.processed, h.answered⟩
    rw [← List.append_assoc, h.order, entries, entries, List.mapIdx_concat]
  | take hsize =>
    refine ⟨?_, ?_, ?_, h.discarded, h.processed, h.answered⟩
    -- What is taken and what is left are the queue again.
    · rw [List.flatMap_append, List.append_assoc, List.flatMap_singleton, List.take_append_drop]
      exact h.order
    · intro taken htaken
      rcases List.mem_append.mp htaken with hold | hnew
      · exact h.limits taken hold
      · obtain rfl := List.mem_singleton.mp hnew
        exact (List.length_take_le ..).trans hsize
    · rw [coe_map_concat, ← h.batches, Multiset.cons_add, Multiset.cons_add]
  | discard hwaiting hdiscards =>
    refine ⟨h.order, h.limits, ?_, fun _ => hdiscards, h.processed, h.answered⟩
    -- The batch changes places, from those that wait to those that are discarded.
    rw [← h.batches, hwaiting, Multiset.cons_add, Multiset.add_cons]
  | call hwaiting hresults =>
    refine ⟨h.order, h.limits, ?_, h.discarded, ?_, ?_⟩
    · rw [coe_map_concat, ← h.batches, hwaiting, Multiset.cons_add, Multiset.cons_add,
        Multiset.add_cons]
    · intro call hcall
      rcases List.mem_append.mp hcall with hold | hnew
      · exact h.processed call hold
      · exact List.mem_singleton.mp hnew ▸ hresults
    · rw [List.flatMap_append, List.flatMap_singleton, ← Multiset.coe_add, ← h.answered, add_assoc,
        add_comm]
  | send hunsent =>
    refine ⟨h.order, h.limits, h.batches, h.discarded, h.processed, ?_⟩
    rw [← h.answered, hunsent, Multiset.cons_add, Multiset.add_cons]

theorem Sound.steps (h : Sound discards processes l)
    (hsteps : ReflTransGen (Step discards processes) l l') : Sound discards processes l' := by
  induction hsteps with
  | refl => exact h
  | tail _ hstep ih => exact ih.step hstep

/-- Before anything is submitted. -/
def empty : Ledger T R := ⟨[], [], [], 0, 0, [], 0, 0⟩

theorem sound_empty : Sound discards processes (empty : Ledger T R) where
  order := rfl
  limits := nofun
  batches := rfl
  discarded h := absurd rfl h
  processed := nofun
  answered := rfl

/-! ## What a sound ledger says -/

theorem mem_entries {submissions : List T} {entry : Entry T} :
    entry ∈ entries submissions ↔ submissions[entry.id]? = some entry.item := by
  rw [entries, List.mem_mapIdx, List.getElem?_eq_some_iff]
  constructor
  · rintro ⟨i, hi, rfl⟩
    exact ⟨hi, rfl⟩
  · rintro ⟨hi, hitem⟩
    exact ⟨entry.id, hi, by rw [hitem]⟩

theorem map_id_entries (submissions : List T) :
    (entries submissions).map Entry.id = List.range submissions.length := by
  refine List.ext_getElem (by simp [entries]) fun i _ _ => ?_
  rw [List.getElem_map, List.getElem_range]
  simp only [entries, List.getElem_mapIdx]

/-- The items of some batches. -/
def itemsOf (batches : Multiset (List (Entry T))) : Multiset (Entry T) :=
  batches.bind fun batch => ↑batch

theorem itemsOf_add (batches batches' : Multiset (List (Entry T))) :
    itemsOf (batches + batches') = itemsOf batches + itemsOf batches' := Multiset.add_bind ..

theorem itemsOf_coe_map {α : Type} (batchOf : α → List (Entry T)) (xs : List α) :
    itemsOf (↑(xs.map batchOf) : Multiset (List (Entry T))) = ↑(xs.flatMap batchOf) := by
  rw [itemsOf, Multiset.coe_bind, List.flatMap_map]

/-- Each item is in the queue, or in one batch that waits, was discarded or was passed on. -/
theorem Sound.places (h : Sound discards processes l) :
    ↑l.queue + itemsOf (l.waiting + l.discarded) + ↑(l.calls.flatMap Call.batch)
      = (↑(entries l.submissions) : Multiset (Entry T)) := by
  have hitems := congrArg itemsOf h.batches
  rw [itemsOf_add, itemsOf_coe_map, itemsOf_coe_map] at hitems
  rw [add_assoc, hitems, ← h.order, ← Multiset.coe_add, add_comm]

/-- An answer to a submission is the result for its item in the call that had it. -/
theorem Sound.mem_answers (h : Sound discards processes l) {id : Nat} {result : R}
    (hmem : (id, result) ∈ l.unsent + l.answers) :
    ∃ call ∈ l.calls, ∃ (k : Nat) (entry : Entry T), call.batch[k]? = some entry ∧ entry.id = id ∧
      call.results[k]? = some result ∧ l.submissions[id]? = some entry.item := by
  rw [h.answered, Multiset.mem_coe, List.mem_flatMap] at hmem
  obtain ⟨call, hcall, hanswer⟩ := hmem
  obtain ⟨k, hk⟩ := List.mem_iff_getElem?.mp hanswer
  rw [Call.answers, List.getElem?_zip_eq_some, List.getElem?_map, Option.map_eq_some_iff] at hk
  obtain ⟨⟨entry, hentry, rfl⟩, hresult⟩ := hk
  have hplace : entry ∈ (↑(entries l.submissions) : Multiset (Entry T)) := by
    rw [← h.places]
    refine Multiset.mem_add.mpr (.inr ?_)
    exact List.mem_flatMap.mpr ⟨call, hcall, List.mem_of_getElem? hentry⟩
  exact ⟨call, hcall, k, entry, hentry, rfl, hresult, mem_entries.mp hplace⟩

section Length

variable (hlength : ∀ items results, processes items results → results.length = items.length)
include hlength

/-- The submissions with an answer, sent or to be sent, are those whose items were passed on. -/
theorem Sound.answered_ids (h : Sound discards processes l) :
    (l.unsent + l.answers).map Prod.fst = ↑((l.calls.flatMap Call.batch).map Entry.id) := by
  rw [h.answered, Multiset.map_coe, List.map_flatMap, List.map_flatMap]
  congr 1
  refine List.flatMap_congr fun call hcall => ?_
  have hresults := hlength _ _ (h.processed call hcall)
  rw [List.length_map] at hresults
  exact List.map_fst_zip (by rw [List.length_map, hresults])

/-- No submission is answered twice. -/
theorem Sound.nodup_answers (h : Sound discards processes l) :
    ((l.unsent + l.answers).map Prod.fst).Nodup := by
  have hids : (l.unsent + l.answers).map Prod.fst ≤ ↑(List.range l.submissions.length) := by
    rw [h.answered_ids hlength, ← map_id_entries, ← Multiset.map_coe, ← Multiset.map_coe,
      ← h.places]
    exact Multiset.map_le_map (Multiset.le_add_left ..)
  exact Multiset.nodup_of_le hids (Multiset.coe_nodup.mpr List.nodup_range)

end Length

end Ledger

end InterBit.Lib
