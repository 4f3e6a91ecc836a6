import InterBit.Lib.Run
import Mathlib.Algebra.BigOperators.Fin
import Mathlib.Algebra.Order.BigOperators.Group.Finset

/-!
# Permits that tasks take one by one

Tasks share some permits. Each takes a number of them, one after another, works when it has them
all, and gives them back one by one. If there is none left it waits; a permit that is given back
goes to whoever has waited longest. The tasks come in groups, and only so many of a group are in
flight at a time.

If every task in flight waits for its last permit, all permits may be taken, and nobody goes on.
With more permits than the tasks in flight can hold without having all they need, every schedule
comes to an end where all tasks are done (`done_of_stuck`). With no more than the tasks of some
windowful can hold so, there is a schedule that comes to an end where none is (`exists_stuck`).

The state has the phase of each task, the free permits, the queue and the list of those that have
finished. `Sound` says where each permit is: it is free, or held in some phase, or just being
handed on. That last place is why `Sound` takes a number, which is 1 in the middle of a step that
gives a permit back and 0 otherwise.

A `budget` for each phase goes down with every step (`budget_step`), so every run ends, whatever
the schedule. What is left is to say how a run can be stuck: in that case all permits are in the
hands of tasks that wait for one more (`Stuck.permits_le`), and they cannot be more than the groups
can hoard. The other direction builds the bad run: only the hoarders move, each stops one permit
short (`Hoarding`), and when they cannot go on there is nothing left to take (`Hoarded.free`).
-/

namespace InterBit.Lib

open Finset

/-- The permits, and the groups of tasks that share them. -/
structure PermitPool (ι κ : Type) where
  permits : Nat
  group : ι → κ
  /-- How many permits a task takes. -/
  need : κ → Nat
  /-- How many tasks are in flight at a time. -/
  window : κ → Nat
  need_pos : ∀ c, 0 < need c
  window_pos : ∀ c, 0 < window c

/-- Where a task is, with the permits that it holds. -/
inductive PermitPhase where
  | idle
  | running (held : Nat)
  | waiting (held : Nat)
  | leaving (held : Nat)
  | done
  deriving DecidableEq

namespace PermitPhase

/-- How many permits the task holds. -/
def held : PermitPhase → Nat
  | .idle | .done => 0
  | .running held | .waiting held | .leaving held => held

/-- The task has started, and it is not done. -/
def inFlight : PermitPhase → Bool
  | .idle | .done => false
  | _ => true

/-- The task is in the queue. -/
def isWaiting : PermitPhase → Bool
  | .waiting _ => true
  | _ => false

/-- The task has done its work. -/
def isOver : PermitPhase → Bool
  | .leaving _ | .done => true
  | _ => false

/-- The task is handed a permit. -/
def granted : PermitPhase → PermitPhase
  | .waiting held => .running (held + 1)
  | phase => phase

/-- The task does not hold more than it needs. -/
def Fits (need : Nat) : PermitPhase → Prop
  | .idle | .done => True
  | .running held => held ≤ need
  | .waiting held => held < need
  | .leaving held => 0 < held ∧ held ≤ need

/-- How many steps the task may take, at most. -/
def budget (need : Nat) : PermitPhase → Nat
  | .idle => 3 * need + 3
  | .running held => 2 * (need - held) + need + 2
  | .waiting held => 2 * (need - held) + need + 1
  | .leaving held => held + 1
  | .done => 0

end PermitPhase

/-- The permits that are left, who waits, and where the tasks are. -/
structure PermitState (ι : Type) where
  free : Nat
  queue : List ι
  phase : ι → PermitPhase
  /-- The tasks that are done, in the order in which they have become so. -/
  finished : List ι

/-- What a task does. -/
inductive PermitAction (ι : Type) where
  | start (i : ι)
  | ask (i : ι)
  | finish (i : ι)
  | give (i : ι)

namespace PermitPool

variable {ι κ : Type} [Fintype ι] [DecidableEq ι] [DecidableEq κ] (pool : PermitPool ι κ)

/-- Nobody has started. -/
def begin : PermitState ι where
  free := pool.permits
  queue := []
  phase _ := .idle
  finished := []

/-- How many tasks of a group are in flight. -/
def inFlight (s : PermitState ι) (c : κ) : Nat :=
  #{i | pool.group i = c ∧ (s.phase i).inFlight = true}

/-- The task comes to a phase. -/
def move (s : PermitState ι) (i : ι) (phase : PermitPhase) : PermitState ι :=
  { s with phase := Function.update s.phase i phase }

/-- A permit goes to the first in the queue, if there is one. -/
def handBack (s : PermitState ι) : PermitState ι :=
  match s.queue with
  | [] => { s with free := s.free + 1 }
  | j :: queue => move { s with queue } j (s.phase j).granted

/-- One step. -/
def step (s : PermitState ι) : PermitAction ι → Option (PermitState ι × Unit)
  | .start i =>
    if s.phase i = .idle ∧ pool.inFlight s (pool.group i) < pool.window (pool.group i) then
      some (move s i (.running 0), ())
    else none
  | .ask i =>
    match s.phase i with
    | .running held =>
      if held < pool.need (pool.group i) then
        if 0 < s.free then some (move { s with free := s.free - 1 } i (.running (held + 1)), ())
        else some (move { s with queue := s.queue ++ [i] } i (.waiting held), ())
      else none
    | _ => none
  | .finish i =>
    if s.phase i = .running (pool.need (pool.group i)) then
      some (move s i (.leaving (pool.need (pool.group i))), ())
    else none
  | .give i =>
    match s.phase i with
    | .leaving held =>
      some (handBack (if held = 1 then move { s with finished := s.finished ++ [i] } i .done
        else move s i (.leaving (held - 1))), ())
    | _ => none

/-! ## What holds in every run -/

/-- The permits are all somewhere, but for those that are about to be handed back, and the queue
holds those who wait. -/
structure Sound (s : PermitState ι) (back : Nat) : Prop where
  permits : s.free + ∑ i, (s.phase i).held + back = pool.permits
  fits : ∀ i, (s.phase i).Fits (pool.need (pool.group i))
  nodup : s.queue.Nodup
  mem_queue : ∀ i, i ∈ s.queue ↔ (s.phase i).isWaiting = true
  free : s.queue ≠ [] → s.free = 0
  window : ∀ c, pool.inFlight s c ≤ pool.window c
  finished : s.finished.Nodup
  mem_finished : ∀ i, i ∈ s.finished ↔ s.phase i = .done

/-- How many steps there may be, at most. -/
def budget (s : PermitState ι) : Nat := ∑ i, (s.phase i).budget (pool.need (pool.group i))

omit [Fintype ι] in
theorem phase_move_self (s : PermitState ι) (i : ι) (phase : PermitPhase) :
    (move s i phase).phase i = phase :=
  Function.update_self ..

omit [Fintype ι] in
theorem phase_move_of_ne (s : PermitState ι) {i j : ι} (h : j ≠ i) (phase : PermitPhase) :
    (move s i phase).phase j = s.phase j :=
  Function.update_of_ne h ..

/-- A sum after one task has moved. -/
theorem sum_move (f : ι → PermitPhase → Nat) (s : PermitState ι) (i : ι) (phase : PermitPhase) :
    (∑ j, f j ((move s i phase).phase j)) + f i (s.phase i)
      = (∑ j, f j (s.phase j)) + f i phase := by
  have hrest : ∑ j ∈ univ.erase i, f j ((move s i phase).phase j)
      = ∑ j ∈ univ.erase i, f j (s.phase j) := by
    refine sum_congr rfl fun j hj => ?_
    rw [phase_move_of_ne s (ne_of_mem_erase hj)]
  rw [← add_sum_erase univ _ (mem_univ i), ← add_sum_erase univ _ (mem_univ i), hrest,
    phase_move_self]
  omega

/-- A task that was in flight, or is not, makes no window fuller. -/
theorem inFlight_move_le {s : PermitState ι} {i : ι} {phase : PermitPhase}
    (h : phase.inFlight = true → (s.phase i).inFlight = true) (c : κ) :
    pool.inFlight (move s i phase) c ≤ pool.inFlight s c := by
  refine card_le_card fun j hj => ?_
  obtain ⟨-, hgroup, hflight⟩ := mem_filter.mp hj
  refine mem_filter.mpr ⟨mem_univ j, hgroup, ?_⟩
  by_cases hij : j = i
  · subst hij
    rw [phase_move_self] at hflight
    exact h hflight
  · rwa [phase_move_of_ne s hij] at hflight

/-- A task that starts makes its window fuller by one. -/
theorem inFlight_start_le {s : PermitState ι} {i : ι} (phase : PermitPhase) (c : κ) :
    pool.inFlight (move s i phase) c
      ≤ pool.inFlight s c + if pool.group i = c then 1 else 0 := by
  have hsub : ({j | pool.group j = c ∧ ((move s i phase).phase j).inFlight = true} : Finset ι)
      ⊆ ({j | pool.group j = c ∧ (s.phase j).inFlight = true} : Finset ι) ∪
        if pool.group i = c then {i} else ∅ := by
    intro j hj
    obtain ⟨-, hgroup, hflight⟩ := mem_filter.mp hj
    by_cases hij : j = i
    · subst hij
      rw [if_pos hgroup]
      exact mem_union_right _ (mem_singleton_self j)
    · rw [phase_move_of_ne s hij] at hflight
      exact mem_union_left _ (mem_filter.mpr ⟨mem_univ j, hgroup, hflight⟩)
  refine (card_le_card hsub).trans ((card_union_le _ _).trans (Nat.add_le_add_left ?_ _))
  split
  next => rfl
  next => rfl

section Moves

variable {pool} {s : PermitState ι} {i : ι} {phase : PermitPhase}

omit [Fintype ι] [DecidableEq κ] in
/-- Every task has at most the permits that it needs. -/
theorem fits_move (h : ∀ i, (s.phase i).Fits (pool.need (pool.group i)))
    (hfits : phase.Fits (pool.need (pool.group i))) (j : ι) :
    ((move s i phase).phase j).Fits (pool.need (pool.group j)) := by
  by_cases hij : j = i
  · subst hij
    rwa [phase_move_self]
  · rw [phase_move_of_ne s hij]
    exact h j

/-- A move between two phases that do not wait, or both do, leaves the queue as it is. -/
theorem mem_queue_move (h : pool.Sound s 0) (hwaiting : phase.isWaiting = (s.phase i).isWaiting)
    (j : ι) : j ∈ s.queue ↔ ((move s i phase).phase j).isWaiting = true := by
  by_cases hij : j = i
  · subst hij
    rw [phase_move_self, hwaiting]
    exact h.mem_queue j
  · rw [phase_move_of_ne s hij]
    exact h.mem_queue j

/-- A move that does not come to the end leaves the list of those that have finished. -/
theorem mem_finished_move {back : Nat} (h : pool.Sound s back) (hphase : phase ≠ .done)
    (hold : s.phase i ≠ .done) (j : ι) : j ∈ s.finished ↔ (move s i phase).phase j = .done := by
  by_cases hij : j = i
  · subst hij
    rw [phase_move_self, h.mem_finished]
    exact iff_of_false hold hphase
  · rw [phase_move_of_ne s hij]
    exact h.mem_finished j

/-- A task enters the window of its group. -/
theorem Sound.start (h : pool.Sound s 0) (hidle : s.phase i = .idle)
    (hroom : pool.inFlight s (pool.group i) < pool.window (pool.group i)) :
    pool.Sound (move s i (.running 0)) 0 where
  permits := by
    have hsum := sum_move (fun _ => PermitPhase.held) s i (.running 0)
    have hpermits := h.permits
    rw [hidle] at hsum
    simp only [PermitPhase.held] at hsum hpermits ⊢
    exact (congrArg (s.free + ·) hsum).trans hpermits
  fits := fits_move h.fits (Nat.zero_le _)
  nodup := h.nodup
  mem_queue := mem_queue_move h (by rw [hidle]; rfl)
  free := h.free
  window c := by
    refine (pool.inFlight_start_le _ c).trans ?_
    split
    next hc =>
      subst hc
      exact hroom
    next => exact h.window c
  finished := h.finished
  mem_finished := mem_finished_move h (by decide) (by rw [hidle]; decide)

/-- A task that has all its permits begins to give them back. -/
theorem Sound.finish (h : pool.Sound s 0)
    (hrunning : s.phase i = .running (pool.need (pool.group i))) :
    pool.Sound (move s i (.leaving (pool.need (pool.group i)))) 0 where
  permits := by
    have hsum := sum_move (fun _ => PermitPhase.held) s i (.leaving (pool.need (pool.group i)))
    rw [hrunning] at hsum
    exact (congrArg (s.free + ·) (Nat.add_right_cancel hsum)).trans h.permits
  fits := fits_move h.fits ⟨pool.need_pos _, le_rfl⟩
  nodup := h.nodup
  mem_queue := mem_queue_move h (by rw [hrunning]; rfl)
  free := h.free
  window c := (pool.inFlight_move_le (by rw [hrunning]; exact fun _ => rfl) c).trans (h.window c)
  finished := h.finished
  mem_finished := mem_finished_move h (by rintro ⟨⟩) (by rw [hrunning]; rintro ⟨⟩)

/-- A permit goes from those that are free to the task. -/
theorem Sound.take {held : Nat} (h : pool.Sound s 0) (hrunning : s.phase i = .running held)
    (hneed : held < pool.need (pool.group i)) (hfree : 0 < s.free) :
    pool.Sound (move { s with free := s.free - 1 } i (.running (held + 1))) 0 where
  permits := by
    have hsum := sum_move (fun _ => PermitPhase.held) s i (.running (held + 1))
    have hpermits := h.permits
    rw [hrunning] at hsum
    change s.free - 1 + ∑ j, ((move s i (.running (held + 1))).phase j).held + 0 = _
    simp only [PermitPhase.held] at hsum hpermits ⊢
    omega
  fits := fits_move h.fits hneed
  nodup := h.nodup
  mem_queue := mem_queue_move h (by rw [hrunning]; rfl)
  free hne := absurd (h.free hne) hfree.ne'
  window c := (pool.inFlight_move_le (by rw [hrunning]; exact fun _ => rfl) c).trans (h.window c)
  finished := h.finished
  mem_finished := mem_finished_move h (by rintro ⟨⟩) (by rw [hrunning]; rintro ⟨⟩)

/-- With no permit free the task queues up. -/
theorem Sound.wait {held : Nat} (h : pool.Sound s 0) (hrunning : s.phase i = .running held)
    (hneed : held < pool.need (pool.group i)) (hfree : s.free = 0) :
    pool.Sound (move { s with queue := s.queue ++ [i] } i (.waiting held)) 0 where
  permits := by
    have hsum := sum_move (fun _ => PermitPhase.held) s i (.waiting held)
    rw [hrunning] at hsum
    exact (congrArg (s.free + ·) (Nat.add_right_cancel hsum)).trans h.permits
  fits := fits_move h.fits hneed
  nodup := by
    refine List.nodup_append.mpr ⟨h.nodup, List.pairwise_singleton _ i, ?_⟩
    rintro j hj _ hij rfl
    obtain rfl := List.mem_singleton.mp hij
    have hwaiting := (h.mem_queue j).mp hj
    rw [hrunning] at hwaiting
    cases hwaiting
  mem_queue j := by
    change j ∈ s.queue ++ [i] ↔ ((move s i (.waiting held)).phase j).isWaiting = true
    rw [List.mem_append, List.mem_singleton]
    by_cases hij : j = i
    · subst hij
      rw [phase_move_self]
      exact iff_of_true (.inr rfl) rfl
    · rw [phase_move_of_ne s hij, or_iff_left hij]
      exact h.mem_queue j
  free _ := hfree
  window c := (pool.inFlight_move_le (by rw [hrunning]; exact fun _ => rfl) c).trans (h.window c)
  finished := h.finished
  mem_finished := mem_finished_move h (by rintro ⟨⟩) (by rw [hrunning]; rintro ⟨⟩)

/-- The last permit of a task is about to be handed on. -/
theorem Sound.giveLast (h : pool.Sound s 0) (hleaving : s.phase i = .leaving 1) :
    pool.Sound (move { s with finished := s.finished ++ [i] } i .done) 1 where
  permits := by
    have hsum := sum_move (fun _ => PermitPhase.held) s i .done
    have hpermits := h.permits
    rw [hleaving] at hsum
    change s.free + ∑ j, ((move s i .done).phase j).held + 1 = _
    simp only [PermitPhase.held] at hsum hpermits ⊢
    omega
  fits := fits_move h.fits trivial
  nodup := h.nodup
  mem_queue := mem_queue_move h (by rw [hleaving]; rfl)
  free := h.free
  window c := (pool.inFlight_move_le (by rintro ⟨⟩) c).trans (h.window c)
  finished := by
    refine List.nodup_append.mpr ⟨h.finished, List.pairwise_singleton _ i, ?_⟩
    rintro j hj _ hij rfl
    obtain rfl := List.mem_singleton.mp hij
    have hdone := (h.mem_finished j).mp hj
    rw [hleaving] at hdone
    cases hdone
  mem_finished j := by
    change j ∈ s.finished ++ [i] ↔ (move s i .done).phase j = .done
    rw [List.mem_append, List.mem_singleton]
    by_cases hij : j = i
    · subst hij
      rw [phase_move_self]
      exact iff_of_true (.inr rfl) rfl
    · rw [phase_move_of_ne s hij, or_iff_left hij]
      exact h.mem_finished j

/-- A permit of a task is about to be handed on. -/
theorem Sound.give {held : Nat} (h : pool.Sound s 0) (hleaving : s.phase i = .leaving (held + 2)) :
    pool.Sound (move s i (.leaving (held + 1))) 1 where
  permits := by
    have hsum := sum_move (fun _ => PermitPhase.held) s i (.leaving (held + 1))
    have hpermits := h.permits
    rw [hleaving] at hsum
    change s.free + ∑ j, ((move s i (.leaving (held + 1))).phase j).held + 1 = _
    simp only [PermitPhase.held] at hsum hpermits ⊢
    omega
  fits := by
    have hfits := h.fits i
    rw [hleaving] at hfits
    exact fits_move h.fits ⟨Nat.succ_pos held, Nat.le_of_succ_le hfits.2⟩
  nodup := h.nodup
  mem_queue := mem_queue_move h (by rw [hleaving]; rfl)
  free := h.free
  window c := (pool.inFlight_move_le (by rw [hleaving]; exact fun _ => rfl) c).trans (h.window c)
  finished := h.finished
  mem_finished := mem_finished_move h (by rintro ⟨⟩) (by rw [hleaving]; rintro ⟨⟩)

omit [Fintype ι] in
/-- With nobody waiting a permit becomes free. -/
theorem handBack_nil (h : s.queue = []) : handBack s = { s with free := s.free + 1 } := by
  rw [handBack, h]

omit [Fintype ι] in
/-- The first in the queue is given the permit. -/
theorem handBack_cons {queue : List ι} (h : s.queue = i :: queue) :
    handBack s = move { s with queue } i (s.phase i).granted := by
  rw [handBack, h]

/-- The queue without its head are those that wait when the head no longer does. -/
theorem mem_queue_granted {held : Nat} {queue : List ι} {back : Nat} (h : pool.Sound s back)
    (hqueue : s.queue = i :: queue) (j : ι) :
    j ∈ queue ↔ ((move s i (.running held)).phase j).isWaiting = true := by
  have hnodup := h.nodup
  have hmem := h.mem_queue j
  rw [hqueue] at hnodup hmem
  by_cases hij : j = i
  · subst hij
    rw [phase_move_self]
    exact iff_of_false (List.nodup_cons.mp hnodup).1 Bool.false_ne_true
  · rw [phase_move_of_ne s hij, ← hmem, List.mem_cons]
    exact (or_iff_right hij).symm

omit [DecidableEq ι] in
/-- The first in the queue is waiting. -/
theorem Sound.waiting_of_queue {back : Nat} {queue : List ι} (h : pool.Sound s back)
    (hqueue : s.queue = i :: queue) : ∃ held, s.phase i = .waiting held := by
  have hwaiting := (h.mem_queue i).mp (by rw [hqueue]; exact List.mem_cons_self)
  cases hphase : s.phase i with
  | waiting held => exact ⟨held, rfl⟩
  | idle | running | leaving | done =>
    rw [hphase] at hwaiting
    cases hwaiting

/-- The permit goes on. -/
theorem Sound.handBack (h : pool.Sound s 1) : pool.Sound (handBack s) 0 := by
  have hpermits := h.permits
  cases hqueue : s.queue with
  | nil =>
    rw [handBack_nil hqueue]
    refine ⟨?_, h.fits, h.nodup, h.mem_queue, fun hne => absurd hqueue hne, h.window, h.finished,
      h.mem_finished⟩
    change s.free + 1 + ∑ i, (s.phase i).held + 0 = _
    omega
  | cons j queue =>
    obtain ⟨held, hphase⟩ := h.waiting_of_queue hqueue
    have hfits := h.fits j
    -- the permit goes to the first in the queue, so the sum stays
    have hsum := sum_move (fun _ => PermitPhase.held) s j (.running (held + 1))
    have hnodup := h.nodup
    have hmem : ∀ k, k ∈ queue ↔ ((move s j (.running (held + 1))).phase k).isWaiting = true :=
      mem_queue_granted h hqueue
    rw [hphase] at hfits hsum
    rw [hqueue] at hnodup
    rw [handBack_cons hqueue, hphase]
    exact {
      permits := by
        change s.free + ∑ k, ((move s j (.running (held + 1))).phase k).held + 0 = _
        simp only [PermitPhase.held] at hsum hpermits ⊢
        omega
      fits := fits_move h.fits hfits
      nodup := (List.nodup_cons.mp hnodup).2
      mem_queue := hmem
      free := fun _ => h.free (by rw [hqueue]; exact List.cons_ne_nil j queue)
      window := fun c =>
        (pool.inFlight_move_le (by rw [hphase]; exact fun _ => rfl) c).trans (h.window c)
      finished := h.finished
      mem_finished := mem_finished_move h (by rintro ⟨⟩) (by rw [hphase]; rintro ⟨⟩) }

end Moves

/-! ## Steps -/

/-- What a step does. -/
inductive Moves (s : PermitState ι) : PermitState ι → Prop
  | start {i : ι} : s.phase i = .idle →
      pool.inFlight s (pool.group i) < pool.window (pool.group i) → Moves s (move s i (.running 0))
  | take {i : ι} {held : Nat} : s.phase i = .running held → held < pool.need (pool.group i) →
      0 < s.free → Moves s (move { s with free := s.free - 1 } i (.running (held + 1)))
  | wait {i : ι} {held : Nat} : s.phase i = .running held → held < pool.need (pool.group i) →
      s.free = 0 → Moves s (move { s with queue := s.queue ++ [i] } i (.waiting held))
  | finish {i : ι} : s.phase i = .running (pool.need (pool.group i)) →
      Moves s (move s i (.leaving (pool.need (pool.group i))))
  | give {i : ι} {held : Nat} : s.phase i = .leaving (held + 2) →
      Moves s (handBack (move s i (.leaving (held + 1))))
  | giveLast {i : ι} : s.phase i = .leaving 1 →
      Moves s (handBack (move { s with finished := s.finished ++ [i] } i .done))

variable {pool} {s s' : PermitState ι} {a : PermitAction ι} {o : Unit}

/-- A step is one of the moves. -/
theorem moves_of_step (h : pool.Sound s 0) (hstep : pool.step s a = some (s', o)) :
    pool.Moves s s' := by
  cases a with
  | start i =>
    rw [step] at hstep
    split at hstep
    next hok =>
      cases hstep
      exact .start hok.1 hok.2
    next => cases hstep
  | ask i =>
    rw [step] at hstep
    cases hphase : s.phase i with
    | running held =>
      rw [hphase] at hstep
      dsimp only at hstep
      split at hstep
      next hneed =>
        split at hstep
        next hfree =>
          cases hstep
          exact .take hphase hneed hfree
        next hfree =>
          cases hstep
          exact .wait hphase hneed (Nat.eq_zero_of_not_pos hfree)
      next => cases hstep
    -- nobody asks but a task that runs
    | idle | waiting | leaving | done =>
      rw [hphase] at hstep
      cases hstep
  | finish i =>
    rw [step] at hstep
    split at hstep
    next hphase =>
      cases hstep
      exact .finish hphase
    next => cases hstep
  | give i =>
    rw [step] at hstep
    have hfits := h.fits i
    cases hphase : s.phase i with
    | leaving held =>
      rw [hphase] at hstep hfits
      -- the last permit that is given back ends the task
      rcases held with _ | _ | held
      · exact absurd hfits.1 (Nat.lt_irrefl 0)
      · cases hstep
        exact .giveLast hphase
      · cases hstep
        exact .give hphase
    | idle | running | waiting | done =>
      rw [hphase] at hstep
      cases hstep

/-- A step keeps the permits where they are counted. -/
theorem Sound.step (h : pool.Sound s 0) (hstep : pool.step s a = some (s', o)) :
    pool.Sound s' 0 := by
  cases moves_of_step h hstep with
  | start hidle hroom => exact h.start hidle hroom
  | take hrunning hneed hfree => exact h.take hrunning hneed hfree
  | wait hrunning hneed hfree => exact h.wait hrunning hneed hfree
  | finish hrunning => exact h.finish hrunning
  | give hleaving => exact (h.give hleaving).handBack
  | giveLast hleaving => exact (h.giveLast hleaving).handBack

/-- Nobody's work gets done, and who is at work stays there. -/
def Stays (pool : PermitPool ι κ) (s s' : PermitState ι) : Prop :=
  ∀ i, (s'.phase i).isOver = (s.phase i).isOver ∧
    (s.phase i = .running (pool.need (pool.group i)) →
      s'.phase i = .running (pool.need (pool.group i)))

omit [Fintype ι] [DecidableEq κ] in
/-- A move that neither ends a task nor takes it out of its work leaves all others where they are.
-/
theorem Stays.move {phase : PermitPhase} {i : ι} (hover : phase.isOver = (s.phase i).isOver)
    (hne : s.phase i ≠ .running (pool.need (pool.group i))) :
    pool.Stays s (move s i phase) := by
  intro j
  by_cases hij : j = i
  · subst hij
    rw [phase_move_self]
    exact ⟨hover, fun hrunning => absurd hrunning hne⟩
  · rw [phase_move_of_ne s hij]
    exact ⟨rfl, fun hrunning => hrunning⟩

omit [Fintype ι] [DecidableEq κ] in
/-- A permit that is handed on changes the phase of one that waits only. -/
theorem Stays.handBack (h : pool.Stays s s') : pool.Stays s (handBack s') := by
  intro i
  obtain ⟨hover, hstay⟩ := h i
  cases hqueue : s'.queue with
  | nil =>
    rw [handBack_nil hqueue]
    exact ⟨hover, hstay⟩
  | cons j queue =>
    rw [handBack_cons hqueue]
    by_cases hij : i = j
    · subst hij
      rw [phase_move_self]
      refine ⟨Eq.trans ?_ hover, fun hrunning => ?_⟩
      · cases s'.phase i with
        | idle | running | waiting | leaving | done => rfl
      · rw [hstay hrunning]
        rfl
    · rw [phase_move_of_ne _ hij]
      exact ⟨hover, hstay⟩

/-- Only with `finish` is a task's work done; who is at work stays there until then. -/
theorem stays_of_step (ha : ∀ i, a ≠ .finish i) (hstep : pool.step s a = some (s', o)) :
    pool.Stays s s' := by
  cases a with
  | start i =>
    rw [step] at hstep
    split at hstep
    next hok =>
      cases hstep
      exact .move (by rw [hok.1]; rfl) (by rw [hok.1]; rintro ⟨⟩)
    next => cases hstep
  | ask i =>
    rw [step] at hstep
    cases hphase : s.phase i with
    | running held =>
      rw [hphase] at hstep
      dsimp only at hstep
      split at hstep
      next hneed =>
        -- who asks lacks a permit, so it is not at work
        have hne : s.phase i ≠ .running (pool.need (pool.group i)) := by
          rw [hphase]
          exact fun hrunning => hneed.ne (PermitPhase.running.inj hrunning)
        split at hstep
        next =>
          cases hstep
          exact Stays.move (s := { s with free := s.free - 1 }) (by rw [hphase]; rfl) hne
        next =>
          cases hstep
          exact Stays.move (s := { s with queue := s.queue ++ [i] }) (by rw [hphase]; rfl) hne
      next => cases hstep
    | idle | waiting | leaving | done =>
      rw [hphase] at hstep
      cases hstep
  | finish i => exact absurd rfl (ha i)
  | give i =>
    rw [step] at hstep
    cases hphase : s.phase i with
    | leaving held =>
      rw [hphase] at hstep
      cases hstep
      refine Stays.handBack ?_
      have hne : s.phase i ≠ .running (pool.need (pool.group i)) := by
        rw [hphase]
        rintro ⟨⟩
      split
      next =>
        exact Stays.move (s := { s with finished := s.finished ++ [i] }) (by rw [hphase]; rfl) hne
      next => exact .move (by rw [hphase]; rfl) hne
    | idle | running | waiting | done =>
      rw [hphase] at hstep
      cases hstep

omit [DecidableEq ι] in
/-- At the beginning all permits are free, and nobody has started. -/
theorem sound_begin : pool.Sound pool.begin 0 where
  permits := by
    change pool.permits + ∑ _ : ι, 0 + 0 = pool.permits
    rw [sum_const_zero, Nat.add_zero, Nat.add_zero]
  fits _ := trivial
  nodup := List.nodup_nil
  mem_queue _ := iff_of_false List.not_mem_nil Bool.false_ne_true
  free h := absurd rfl h
  window c := by
    have hnone : pool.inFlight pool.begin c = 0 := by
      refine card_eq_zero.mpr (filter_eq_empty_iff.mpr fun i _ h => ?_)
      exact Bool.false_ne_true h.2
    rw [hnone]
    exact Nat.zero_le _
  finished := List.nodup_nil
  mem_finished _ := iff_of_false List.not_mem_nil (by rintro ⟨⟩)

variable {ok : PermitState ι → PermitAction ι → Prop} {as : List (PermitAction ι)}

/-- The invariant holds after every run. -/
theorem Sound.run (h : pool.Sound s 0) (hrun : Run pool.step ok s as s') : pool.Sound s' 0 :=
  hrun.invariant (I := fun s => pool.Sound s 0)
    (fun _ _ _ _ _ _ hstep hsound => hsound.step hstep) h

/-! ## Every run ends -/

omit [DecidableEq κ] in
/-- A task that moves spends the difference. -/
theorem budget_move (s : PermitState ι) (i : ι) (phase : PermitPhase) :
    pool.budget (move s i phase) + (s.phase i).budget (pool.need (pool.group i))
      = pool.budget s + phase.budget (pool.need (pool.group i)) :=
  sum_move (fun j phase => phase.budget (pool.need (pool.group j))) s i phase

/-- Handing a permit on costs nothing. -/
theorem budget_handBack {s : PermitState ι} {back : Nat} (h : pool.Sound s back) :
    pool.budget (handBack s) ≤ pool.budget s := by
  cases hqueue : s.queue with
  | nil =>
    rw [handBack_nil hqueue]
    exact le_rfl
  | cons j queue =>
    obtain ⟨held, hphase⟩ := h.waiting_of_queue hqueue
    have hfits := h.fits j
    have hmove : pool.budget (move { s with queue } j (.running (held + 1)))
        + (s.phase j).budget (pool.need (pool.group j))
        = pool.budget s + (PermitPhase.running (held + 1)).budget (pool.need (pool.group j)) :=
      budget_move s j _
    rw [hphase] at hfits hmove
    rw [handBack_cons hqueue, hphase]
    simp only [PermitPhase.budget, PermitPhase.Fits] at hmove hfits
    change pool.budget (move { s with queue } j (.running (held + 1))) ≤ _
    omega

/-- Every step is paid for. -/
theorem budget_step (h : pool.Sound s 0) (hstep : pool.step s a = some (s', o)) :
    pool.budget s' < pool.budget s := by
  cases moves_of_step h hstep with
  | @start i hidle _ =>
    -- each phase that comes later has a smaller budget
    have hmove := pool.budget_move s i (.running 0)
    rw [hidle] at hmove
    simp only [PermitPhase.budget] at hmove
    omega
  | @take i held hrunning hneed _ =>
    have hmove : pool.budget (move { s with free := s.free - 1 } i (.running (held + 1)))
        + (s.phase i).budget (pool.need (pool.group i))
        = pool.budget s + (PermitPhase.running (held + 1)).budget (pool.need (pool.group i)) :=
      budget_move s i _
    rw [hrunning] at hmove
    simp only [PermitPhase.budget] at hmove
    omega
  | @wait i held hrunning _ _ =>
    have hmove : pool.budget (move { s with queue := s.queue ++ [i] } i (.waiting held))
        + (s.phase i).budget (pool.need (pool.group i))
        = pool.budget s + (PermitPhase.waiting held).budget (pool.need (pool.group i)) :=
      budget_move s i _
    rw [hrunning] at hmove
    simp only [PermitPhase.budget] at hmove
    omega
  | @finish i hrunning =>
    have hmove := pool.budget_move s i (.leaving (pool.need (pool.group i)))
    rw [hrunning] at hmove
    simp only [PermitPhase.budget] at hmove
    omega
  | @give i held hleaving =>
    have hmove := pool.budget_move s i (.leaving (held + 1))
    -- to hand a permit on does not cost the one that gets it anything
    have hback := budget_handBack (h.give hleaving)
    rw [hleaving] at hmove
    simp only [PermitPhase.budget] at hmove
    omega
  | @giveLast i hleaving =>
    have hmove : pool.budget (move { s with finished := s.finished ++ [i] } i .done)
        + (s.phase i).budget (pool.need (pool.group i))
        = pool.budget s + PermitPhase.done.budget (pool.need (pool.group i)) :=
      budget_move s i _
    have hback := budget_handBack (h.giveLast hleaving)
    rw [hleaving] at hmove
    simp only [PermitPhase.budget] at hmove
    omega

/-- Every run can go on, as far as it is allowed to, until it cannot. -/
theorem exists_maximal (ok : PermitState ι → PermitAction ι → Prop) (n : Nat)
    (s : PermitState ι) (h : pool.Sound s 0) (hn : pool.budget s < n) :
    ∃ as s', Run pool.step ok s as s' ∧ ∀ a, ok s' a → pool.step s' a = none := by
  induction n generalizing s with
  | zero => exact absurd hn (Nat.not_lt_zero _)
  | succ n ih =>
    by_cases hstuck : ∀ a, ok s a → pool.step s a = none
    · exact ⟨[], s, .nil, hstuck⟩
    · simp only [not_forall] at hstuck
      obtain ⟨a, hok, hsome⟩ := hstuck
      obtain ⟨⟨t, o⟩, hstep⟩ := Option.ne_none_iff_exists'.mp hsome
      have hspent := budget_step h hstep
      obtain ⟨as, s', hrun, hend⟩ := ih t (h.step hstep) (by omega)
      exact ⟨a :: as, s', .cons hok hstep hrun, hend⟩

/-! ## When a run is stuck -/

/-- How many tasks there are in a group. -/
def size (pool : PermitPool ι κ) (c : κ) : Nat := #{i | pool.group i = c}

/-- How many permits the tasks in flight can hold without having all they need. -/
def hoard (pool : PermitPool ι κ) [Fintype κ] : Nat :=
  ∑ c, min (pool.window c) (pool.size c) * (pool.need c - 1)

omit [DecidableEq ι] in
/-- No more tasks of a group are in flight than there are. -/
theorem inFlight_le_size (s : PermitState ι) (c : κ) : pool.inFlight s c ≤ pool.size c := by
  refine card_le_card fun i hi => ?_
  obtain ⟨hmem, hgroup, -⟩ := mem_filter.mp hi
  exact mem_filter.mpr ⟨hmem, hgroup⟩

/-- Nobody can go on. -/
def Stuck (pool : PermitPool ι κ) (s : PermitState ι) : Prop := ∀ a, pool.step s a = none

/-- If nobody can go on, everybody waits, or has not started, or is done. -/
theorem Stuck.phase (hstuck : pool.Stuck s) (h : pool.Sound s 0) (i : ι) :
    s.phase i = .idle ∨ (∃ held, s.phase i = .waiting held) ∨ s.phase i = .done := by
  have hfits := h.fits i
  cases hphase : s.phase i with
  | idle => exact .inl rfl
  | waiting held => exact .inr (.inl ⟨held, rfl⟩)
  | done => exact .inr (.inr rfl)
  | running held =>
    rw [hphase] at hfits
    rcases Nat.lt_or_eq_of_le hfits with hneed | hneed
    · have hask := hstuck (.ask i)
      rw [step, hphase] at hask
      dsimp only at hask
      rw [if_pos hneed] at hask
      split at hask
      next => cases hask
      next => cases hask
    · have hfinish := hstuck (.finish i)
      rw [step, if_pos (by rw [hphase, hneed])] at hfinish
      cases hfinish
  | leaving held =>
    have hgive := hstuck (.give i)
    rw [step, hphase] at hgive
    cases hgive

/-- In a group, those in flight hold less than they need. -/
theorem sum_held_le (h : pool.Sound s 0) (hstuck : pool.Stuck s) (c : κ) :
    ∑ i with pool.group i = c, (s.phase i).held ≤ pool.inFlight s c * (pool.need c - 1) := by
  have hzero : ∑ i with pool.group i = c, (s.phase i).held
      = ∑ i with pool.group i = c ∧ (s.phase i).inFlight = true, (s.phase i).held := by
    refine (sum_subset (fun i hi => ?_) fun i hi hno => ?_).symm
    · obtain ⟨hmem, hgroup, -⟩ := mem_filter.mp hi
      exact mem_filter.mpr ⟨hmem, hgroup⟩
    · rcases hstuck.phase h i with hphase | ⟨held, hphase⟩ | hphase
      · rw [hphase]
        rfl
      · refine absurd (mem_filter.mpr ⟨mem_univ i, (mem_filter.mp hi).2, ?_⟩) hno
        rw [hphase]
        rfl
      · rw [hphase]
        rfl
  rw [hzero]
  refine (sum_le_card_nsmul _ _ (pool.need c - 1) fun i hi => ?_).trans_eq (smul_eq_mul ..)
  obtain ⟨-, rfl, hflight⟩ := mem_filter.mp hi
  have hfits := h.fits i
  rcases hstuck.phase h i with hphase | ⟨held, hphase⟩ | hphase
  · rw [hphase] at hflight
    cases hflight
  · rw [hphase] at hfits ⊢
    exact Nat.le_sub_one_of_lt hfits
  · rw [hphase] at hflight
    cases hflight

/-- A run that is stuck before its end has all permits in the hands of those who wait. -/
theorem Stuck.permits_le [Fintype κ] (hstuck : pool.Stuck s) (h : pool.Sound s 0) {i : ι}
    (hi : s.phase i ≠ .done) : pool.permits ≤ pool.hoard := by
  -- somebody waits: who has not started finds the window full
  have hwaiting : ∃ j held, s.phase j = .waiting held := by
    rcases hstuck.phase h i with hphase | ⟨held, hphase⟩ | hphase
    · have hstart := hstuck (.start i)
      rw [step] at hstart
      split at hstart
      next => cases hstart
      next hfull =>
        have hpos : 0 < pool.inFlight s (pool.group i) := by
          refine (pool.window_pos (pool.group i)).trans_le (Nat.le_of_not_lt fun hroom => ?_)
          exact hfull ⟨hphase, hroom⟩
        obtain ⟨j, hj⟩ := card_pos.mp hpos
        obtain ⟨-, -, hflight⟩ := mem_filter.mp hj
        rcases hstuck.phase h j with hphase | ⟨held, hphase⟩ | hphase
        · rw [hphase] at hflight
          cases hflight
        · exact ⟨j, held, hphase⟩
        · rw [hphase] at hflight
          cases hflight
    · exact ⟨i, held, hphase⟩
    · exact absurd hphase hi
  obtain ⟨j, held, hphase⟩ := hwaiting
  have hfree : s.free = 0 := by
    refine h.free (List.ne_nil_of_mem ((h.mem_queue j).mpr ?_))
    rw [hphase]
    rfl
  have hpermits := h.permits
  rw [hfree, Nat.zero_add, Nat.add_zero, ← sum_fiberwise univ pool.group] at hpermits
  rw [← hpermits]
  refine sum_le_sum fun c _ => (sum_held_le h hstuck c).trans ?_
  exact Nat.mul_le_mul_right _ (Nat.le_min.mpr ⟨h.window c, inFlight_le_size s c⟩)

/-- With more permits than can be hoarded, nobody is left behind. -/
theorem done_of_stuck [Fintype κ] (hpermits : pool.hoard < pool.permits) (h : pool.Sound s 0)
    (hstuck : pool.Stuck s) (i : ι) : s.phase i = .done := by
  by_contra hi
  exact absurd (hstuck.permits_le h hi) hpermits.not_ge

/-! ## A run that gets stuck -/

/-- The schedule by which some tasks take all permits but their last: as long as there is a permit,
only they start, and they do not ask for the last one. Nobody comes to work. -/
def Hoarding (pool : PermitPool ι κ) (hoarders : Finset ι) (s : PermitState ι) :
    PermitAction ι → Prop
  | .start i => i ∈ hoarders ∨ s.free = 0
  | .ask i => (i ∈ hoarders ∧ (s.phase i).held + 1 < pool.need (pool.group i)) ∨ s.free = 0
  | .finish _ | .give _ => False

/-- Nobody has all it needs, and only the hoarders have started while there is a permit. -/
structure Hoarded (pool : PermitPool ι κ) (hoarders : Finset ι) (s : PermitState ι) : Prop where
  phase : ∀ i, s.phase i = .idle ∨
    ∃ held < pool.need (pool.group i), s.phase i = .running held ∨ s.phase i = .waiting held
  idle : 0 < s.free → ∀ i ∉ hoarders, s.phase i = .idle

variable {hoarders : Finset ι}

omit [Fintype ι] [DecidableEq κ] in
/-- A task that still lacks permits has not got to work. -/
theorem hoarded_move {phase : PermitPhase} (h : pool.Hoarded hoarders s) (i : ι) {held : Nat}
    (hheld : held < pool.need (pool.group i))
    (hphase : phase = .running held ∨ phase = .waiting held) (j : ι) :
    (move s i phase).phase j = .idle ∨ ∃ held < pool.need (pool.group j),
      (move s i phase).phase j = .running held ∨ (move s i phase).phase j = .waiting held := by
  by_cases hij : j = i
  · subst hij
    rw [phase_move_self]
    exact .inr ⟨held, hheld, hphase⟩
  · rw [phase_move_of_ne s hij]
    exact h.phase j

/-- As long as only the hoarders move, and none of them finishes, nobody gets to work. -/
theorem Hoarded.step (h : pool.Hoarded hoarders s) (hok : pool.Hoarding hoarders s a)
    (hstep : pool.step s a = some (s', o)) : pool.Hoarded hoarders s' := by
  cases a with
  | start i =>
    rw [PermitPool.step] at hstep
    split at hstep
    next =>
      cases hstep
      refine ⟨hoarded_move h i (pool.need_pos _) (.inl rfl), fun hfree j hj => ?_⟩
      -- as long as permits are free only hoarders start
      have hi : i ∈ hoarders := hok.resolve_right (Nat.ne_of_gt hfree)
      rw [phase_move_of_ne s (ne_of_mem_of_not_mem hi hj).symm]
      exact h.idle hfree j hj
    next => cases hstep
  | ask i =>
    rw [PermitPool.step] at hstep
    cases hphase : s.phase i with
    | running held =>
      rw [hphase] at hstep
      dsimp only at hstep
      split at hstep
      next hneed =>
        split at hstep
        next hfree =>
          cases hstep
          -- and a hoarder stops one permit short
          have hi := hok.resolve_right hfree.ne'
          rw [hphase] at hi
          refine ⟨hoarded_move h i hi.2 (.inl rfl), fun _ j hj => ?_⟩
          change (move s i (.running (held + 1))).phase j = .idle
          rw [phase_move_of_ne s (ne_of_mem_of_not_mem hi.1 hj).symm]
          exact h.idle hfree j hj
        next hfree =>
          cases hstep
          exact ⟨hoarded_move h i hneed (.inr rfl), fun hpos => absurd hpos hfree⟩
      next => cases hstep
    | idle | waiting | leaving | done =>
      rw [hphase] at hstep
      cases hstep
  | finish | give => cases hok

omit [Fintype ι] [DecidableEq ι] [DecidableEq κ] in
/-- At the beginning no task has started. -/
theorem hoarded_begin : pool.Hoarded hoarders pool.begin where
  phase _ := .inl rfl
  idle _ _ _ := rfl

omit [DecidableEq ι] in
/-- As long as there is a permit, a hoarder that has not started finds room. -/
theorem Hoarded.room (h : pool.Hoarded hoarders s) {i : ι}
    (hwindow : #{j ∈ hoarders | pool.group j = pool.group i} ≤ pool.window (pool.group i))
    (hi : i ∈ hoarders) (hidle : s.phase i = .idle) (hfree : 0 < s.free) :
    pool.inFlight s (pool.group i) < pool.window (pool.group i) := by
  refine lt_of_lt_of_le (card_lt_card ?_) hwindow
  refine (ssubset_iff_of_subset fun j hj => ?_).mpr ⟨i, mem_filter.mpr ⟨hi, rfl⟩, fun hmem => ?_⟩
  · obtain ⟨-, hgroup, hflight⟩ := mem_filter.mp hj
    refine mem_filter.mpr ⟨by_contra fun hno => ?_, hgroup⟩
    rw [h.idle hfree j hno] at hflight
    cases hflight
  · have hflight := (mem_filter.mp hmem).2.2
    rw [hidle] at hflight
    cases hflight

/-- When the hoarders cannot go on, there is no permit left. -/
theorem Hoarded.free (h : pool.Hoarded hoarders s) (hs : pool.Sound s 0)
    (hwindow : ∀ c, #{i ∈ hoarders | pool.group i = c} ≤ pool.window c)
    (hpermits : pool.permits ≤ ∑ i ∈ hoarders, (pool.need (pool.group i) - 1))
    (hend : ∀ a, pool.Hoarding hoarders s a → pool.step s a = none) : s.free = 0 := by
  by_contra hne
  have hfree := Nat.pos_of_ne_zero hne
  have hheld : ∀ i ∈ hoarders, pool.need (pool.group i) - 1 ≤ (s.phase i).held := by
    intro i hi
    rcases h.phase i with hphase | ⟨held, hneed, hphase | hphase⟩
    · have hstart := hend (.start i) (.inl hi)
      rw [PermitPool.step, if_pos ⟨hphase, h.room (hwindow _) hi hphase hfree⟩] at hstart
      cases hstart
    · rw [hphase]
      refine Nat.le_of_not_lt fun hlt => ?_
      have hask := hend (.ask i) (.inl ⟨hi, by rw [hphase]; exact Nat.add_lt_of_lt_sub hlt⟩)
      rw [PermitPool.step, hphase] at hask
      dsimp only at hask
      rw [if_pos hneed, if_pos hfree] at hask
      cases hask
    · have hmem : i ∈ s.queue := (hs.mem_queue i).mpr (by rw [hphase]; rfl)
      exact absurd (hs.free (List.ne_nil_of_mem hmem)) hne
  have hsum := sum_le_sum hheld
  have hall := sum_le_univ_sum_of_nonneg (s := hoarders) fun i => Nat.zero_le (s.phase i).held
  have htotal := hs.permits
  omega

/-- With no more permits than some tasks can hoard, there is a run in which nobody comes to work,
and that gets stuck where all permits are with tasks that wait for more. -/
theorem exists_stuck (pool : PermitPool ι κ) (hoarders : Finset ι)
    (hwindow : ∀ c, #{i ∈ hoarders | pool.group i = c} ≤ pool.window c)
    (hpermits : pool.permits ≤ ∑ i ∈ hoarders, (pool.need (pool.group i) - 1)) :
    ∃ as s, Run pool.step (fun _ a => ∀ i, a ≠ .finish i) pool.begin as s ∧ pool.Stuck s ∧
      s.free = 0 ∧ ∀ i, s.phase i = .idle ∨
        ∃ held < pool.need (pool.group i), s.phase i = .waiting held := by
  obtain ⟨as, s, hrun, hend⟩ := exists_maximal (pool.Hoarding hoarders) _ pool.begin
    pool.sound_begin (Nat.lt_succ_self _)
  have hs := Sound.run sound_begin hrun
  have h : pool.Hoarded hoarders s := hrun.invariant (I := fun s => pool.Hoarded hoarders s)
    (fun _ _ _ _ _ hok hstep h => h.step hok hstep) hoarded_begin
  have hfree := h.free hs hwindow hpermits hend
  have hstuck : pool.Stuck s := by
    intro a
    cases a with
    | start i => exact hend (.start i) (.inr hfree)
    | ask i => exact hend (.ask i) (.inr hfree)
    | finish i =>
      -- who has all it needs would have had to ask for the last permit
      rw [step]
      refine if_neg fun hphase => ?_
      rcases h.phase i with hno | ⟨held, hneed, hno | hno⟩
      · rw [hphase] at hno
        cases hno
      · rw [hphase] at hno
        cases hno
        exact absurd hneed (Nat.lt_irrefl _)
      · rw [hphase] at hno
        cases hno
    | give i =>
      rw [step]
      rcases h.phase i with hphase | ⟨held, -, hphase | hphase⟩
      · rw [hphase]
      · rw [hphase]
      · rw [hphase]
  refine ⟨as, s, hrun.mono fun _ _ hok i ha => ?_, hstuck, hfree, fun i => ?_⟩
  · subst ha
    exact hok
  · rcases h.phase i with hphase | ⟨held, hneed, hphase | hphase⟩
    · exact .inl hphase
    · -- who runs could still ask
      rcases hstuck.phase hs i with hno | ⟨_, hno⟩ | hno
      · rw [hphase] at hno
        cases hno
      · rw [hphase] at hno
        cases hno
      · rw [hphase] at hno
        cases hno
    · exact .inr ⟨held, hneed, hphase⟩

end PermitPool

end InterBit.Lib
