import Mathlib.Algebra.Ring.Nat
import Mathlib.Data.List.Nodup
import Mathlib.Logic.Relation
import InterBit.Lib.Program

/-!
# A pool of workers over one queue

A fixed number of workers take tasks from a queue, run each task's program on a
shared memory and send the result; what a worker does between two accesses is one
step with the access before it. Workers keep nothing from task to task, so the
state has no workers but the stage of each task: `waiting` in the queue, `busy` on
some worker, or `done`. A panic takes its worker away. `Pool.Next` is one step of
any worker, and a path of `Next` is one interleaving.

Three rules for what comes out of every interleaving:
- tasks whose footprints are pairwise disjoint give what they give one after the
  other, and the pool comes to its end (`Isolated`);
- tasks that make no write alone make no write together (`Pool.Silent`);
- tasks that keep what the others need do not fail (`Pool.Sustained`).

That workers have no state of their own is what makes the stages of the tasks enough: which worker
runs a task makes no difference to what it reads or writes, only how many run at a time.
`moves_of_next` lists what a step can be, a task that is taken, an access, or the end of a task,
and each rule is proved by cases on it.

That the pool comes to its end is `Inevitable`, which means that every path from here reaches it,
not that some path does. It rests on a measure of what is left to do (`remaining`), that goes down
with every step, and on the fact that without a panic some worker can always go on (`exists_next`).
-/

namespace InterBit.Lib

/-- Every path of `next` comes to a state with `P`, and no path stops before. -/
inductive Inevitable {S : Type} (next : S → S → Prop) (P : S → Prop) : S → Prop
  | now {s : S} : P s → Inevitable next P s
  | later {s : S} : (∃ s', next s s') → (∀ s', next s s' → Inevitable next P s') →
      Inevitable next P s

theorem Inevitable.mono {S : Type} {next : S → S → Prop} {P Q : S → Prop} {s : S}
    (h : Inevitable next P s) (hPQ : ∀ s, P s → Q s) : Inevitable next Q s := by
  induction h with
  | now hp => exact .now (hPQ _ hp)
  | later hex _ ih => exact .later hex ih

/-- What an ended task sends; a panic sends nothing. -/
def Outcome.result {ε α : Type} : Outcome ε α → Option (Except ε α)
  | .ok a => some (.ok a)
  | .err e => some (.error e)
  | .panicked => none

/-- How far a task is. -/
inductive Stage (K V ε α : Type) where
  | waiting
  /-- On a worker, with the program that is left. -/
  | busy (p : Prog K V ε α)
  | done (o : Outcome ε α)

namespace Stage

variable {K V ε α : Type}

/-- The task has a worker, or has taken one with it. -/
def occupies : Stage K V ε α → Bool
  | .busy _ => true
  | .done .panicked => true
  | _ => false

/-- What the task has sent. -/
def result : Stage K V ε α → Option (Except ε α)
  | .done o => o.result
  | _ => none

/-- The task has ended without a panic. -/
def settled (stage : Stage K V ε α) : Bool := stage.result.isSome

/-- The task has panicked. -/
def crashed : Stage K V ε α → Bool
  | .done .panicked => true
  | _ => false

end Stage

/-- The memory, the tasks in the order of the queue, and the results sent so far. -/
structure Pool (τ K V ε α : Type) where
  memory : Memory K V
  tasks : List (τ × Stage K V ε α)
  sent : List (Except ε α)

/-- A step of some worker. -/
inductive PoolAction (χ : Type) where
  /-- Take the next task from the queue; `c` is a choice that its program is free in. -/
  | recv (c : χ)
  /-- Go on with task `i`. -/
  | act (i : Nat)

namespace Pool

variable {τ K V ε α χ : Type}

/-- All tasks in the queue. -/
def start (memory : Memory K V) (tasks : List τ) : Pool τ K V ε α :=
  { memory, tasks := tasks.map fun t => (t, .waiting), sent := [] }

/-- Give the first waiting task to a worker. -/
def takeNext (code : χ → τ → Prog K V ε α) (c : χ) :
    List (τ × Stage K V ε α) → Option (List (τ × Stage K V ε α))
  | [] => none
  | (t, .waiting) :: tasks => some ((t, .busy (code c t)) :: tasks)
  | task :: tasks => (takeNext code c tasks).map (task :: ·)

/-- What ended tasks have sent, in the order of the tasks. -/
def results (tasks : List (τ × Stage K V ε α)) : List (Except ε α) :=
  tasks.filterMap fun x => x.2.result

theorem results_append (l₁ l₂ : List (τ × Stage K V ε α)) :
    results (l₁ ++ l₂) = results l₁ ++ results l₂ := List.filterMap_append

theorem results_cons (t : τ) (stage : Stage K V ε α) (l : List (τ × Stage K V ε α)) :
    results ((t, stage) :: l) = stage.result.toList ++ results l := by
  unfold results
  rw [List.filterMap_cons]
  cases stage.result <;> rfl

theorem results_eq {f : τ → Option (Except ε α)} {tasks : List (τ × Stage K V ε α)}
    (h : ∀ x ∈ tasks, x.2.result = f x.1) : results tasks = (tasks.map Prod.fst).filterMap f := by
  induction tasks with
  | nil => rfl
  | cons x tasks ih =>
    obtain ⟨hx, hrest⟩ := List.forall_mem_cons.mp h
    obtain ⟨t, stage⟩ := x
    rw [results_cons, hx, ih hrest, List.map_cons, List.filterMap_cons]
    cases f t <;> rfl

variable [DecidableEq K] (limit : Nat) (code : χ → τ → Prog K V ε α)

/-- One action; `limit` is the number of workers. -/
def step (s : Pool τ K V ε α) : PoolAction χ → Option (Pool τ K V ε α)
  | .recv c =>
    if s.tasks.countP (·.2.occupies) < limit then
      (takeNext code c s.tasks).map fun tasks => { s with tasks }
    else none
  | .act i =>
    match s.tasks[i]? with
    | some (t, .busy p) =>
      match p.advance s.memory with
      | some (p', memory) => some { s with memory, tasks := s.tasks.set i (t, .busy p') }
      | none =>
        p.ended.map fun o =>
          { s with tasks := s.tasks.set i (t, .done o), sent := s.sent ++ o.result.toList }
    | _ => none

/-- One step of any worker. -/
def Next (s s' : Pool τ K V ε α) : Prop := ∃ a, step limit code s a = some s'

/-- What a step can do. -/
inductive Moves (s : Pool τ K V ε α) : Pool τ K V ε α → Prop
  | recv {l₁ l₂ : List (τ × Stage K V ε α)} {t : τ} {c : χ} :
      s.tasks = l₁ ++ (t, .waiting) :: l₂ →
      Moves s { s with tasks := l₁ ++ (t, .busy (code c t)) :: l₂ }
  | access {l₁ l₂ : List (τ × Stage K V ε α)} {t : τ} {p p' : Prog K V ε α}
      {memory : Memory K V} :
      s.tasks = l₁ ++ (t, .busy p) :: l₂ → p.advance s.memory = some (p', memory) →
      Moves s { s with memory, tasks := l₁ ++ (t, .busy p') :: l₂ }
  | finish {l₁ l₂ : List (τ × Stage K V ε α)} {t : τ} {p : Prog K V ε α} {o : Outcome ε α} :
      s.tasks = l₁ ++ (t, .busy p) :: l₂ → p.ended = some o →
      Moves s { s with tasks := l₁ ++ (t, .done o) :: l₂, sent := s.sent ++ o.result.toList }

variable {limit code} {s s' : Pool τ K V ε α}

omit [DecidableEq K] in
theorem takeNext_eq_some {c : χ} {tasks tasks' : List (τ × Stage K V ε α)}
    (h : takeNext code c tasks = some tasks') :
    ∃ l₁ t l₂, tasks = l₁ ++ (t, .waiting) :: l₂ ∧ tasks' = l₁ ++ (t, .busy (code c t)) :: l₂ := by
  induction tasks generalizing tasks' with
  | nil => cases h
  | cons task tasks ih =>
    have hskip : ∀ h : (takeNext code c tasks).map (task :: ·) = some tasks',
        ∃ l₁ t l₂, task :: tasks = l₁ ++ (t, .waiting) :: l₂ ∧
          tasks' = l₁ ++ (t, .busy (code c t)) :: l₂ := by
      intro h
      obtain ⟨tasks'', htake, rfl⟩ := Option.map_eq_some_iff.mp h
      obtain ⟨l₁, t, l₂, rfl, rfl⟩ := ih htake
      exact ⟨task :: l₁, t, l₂, rfl, rfl⟩
    obtain ⟨t, stage⟩ := task
    cases stage with
    | waiting =>
      cases h
      exact ⟨[], t, tasks, rfl, rfl⟩
    | busy p => exact hskip h
    | done o => exact hskip h

omit [DecidableEq K] in
variable (code) in
/-- The next task can be taken if there is one. -/
theorem exists_takeNext (c : χ) {tasks : List (τ × Stage K V ε α)} {t : τ}
    (h : (t, .waiting) ∈ tasks) : ∃ tasks', takeNext code c tasks = some tasks' := by
  induction tasks with
  | nil => cases h
  | cons task tasks ih =>
    obtain ⟨t', stage⟩ := task
    cases stage with
    | waiting => exact ⟨_, rfl⟩
    | busy p =>
      obtain ⟨tasks', htake⟩ := ih ((List.mem_cons.mp h).resolve_left (fun he => by cases he))
      exact ⟨_, congrArg (Option.map _) htake⟩
    | done o =>
      obtain ⟨tasks', htake⟩ := ih ((List.mem_cons.mp h).resolve_left (fun he => by cases he))
      exact ⟨_, congrArg (Option.map _) htake⟩

/-- A step of the pool is one of the moves. -/
theorem moves_of_next (h : Next limit code s s') : Moves code s s' := by
  obtain ⟨a, h⟩ := h
  cases a with
  | recv c =>
    simp only [step] at h
    split at h
    next =>
      obtain ⟨tasks, htake, rfl⟩ := Option.map_eq_some_iff.mp h
      obtain ⟨l₁, t, l₂, htasks, rfl⟩ := takeNext_eq_some htake
      exact .recv htasks
    next => cases h
  | act i =>
    simp only [step] at h
    split at h
    next t p hget =>
      obtain ⟨hi, hget⟩ := List.getElem?_eq_some_iff.mp hget
      have htasks : s.tasks = s.tasks.take i ++ (t, .busy p) :: s.tasks.drop (i + 1) := by
        rw [← hget, List.getElem_cons_drop, List.take_append_drop]
      split at h
      next p' memory hadvance =>
        cases h
        rw [List.set_eq_take_append_cons_drop, if_pos hi]
        exact .access htasks hadvance
      next =>
        obtain ⟨o, hended, rfl⟩ := Option.map_eq_some_iff.mp h
        rw [List.set_eq_take_append_cons_drop, if_pos hi]
        exact .finish htasks hended
    next => cases h

/-- Nobody is stuck: without a panic, a pool in which a task has not ended can go on. -/
theorem exists_next [Inhabited χ] (hlimit : 0 < limit)
    (hpanic : ∀ x ∈ s.tasks, x.2.crashed = false) (hopen : ∃ x ∈ s.tasks, x.2.settled = false) :
    ∃ s', Next limit code s s' := by
  by_cases hbusy : ∃ t p, (t, Stage.busy p) ∈ s.tasks
  · obtain ⟨t, p, hmem⟩ := hbusy
    obtain ⟨i, hi, hget⟩ := List.mem_iff_getElem.mp hmem
    have hget : s.tasks[i]? = some (t, .busy p) := List.getElem?_eq_some_iff.mpr ⟨hi, hget⟩
    cases p.ended_or_advance s.memory with
    | inl hended =>
      obtain ⟨o, ho⟩ := hended
      have hnone : p.advance s.memory = none := by cases p <;> first | rfl | cases ho
      refine ⟨{ s with tasks := s.tasks.set i (t, .done o), sent := s.sent ++ o.result.toList },
        .act i, ?_⟩
      simp only [step, hget, hnone, ho]
      rfl
    | inr hadvance =>
      obtain ⟨p', memory, hp⟩ := hadvance
      refine ⟨{ s with memory, tasks := s.tasks.set i (t, .busy p') }, .act i, ?_⟩
      simp only [step, hget, hp]
  · -- Every worker is free, and some task is waiting.
    obtain ⟨⟨t, stage⟩, hmem, hsettled⟩ := hopen
    have hwaiting : stage = .waiting := by
      match stage with
      | .waiting => rfl
      | .busy p => exact absurd ⟨t, p, hmem⟩ hbusy
      | .done .panicked => cases hpanic _ hmem
      | .done (.ok a) => cases hsettled
      | .done (.err e) => cases hsettled
    have hfree : s.tasks.countP (·.2.occupies) = 0 := by
      refine List.countP_eq_zero.mpr fun ⟨t', stage'⟩ hmem' => ?_
      match stage' with
      | .waiting => exact Bool.false_ne_true
      | .busy p => exact absurd ⟨t', p, hmem'⟩ hbusy
      | .done .panicked => cases hpanic _ hmem'
      | .done (.ok a) => exact Bool.false_ne_true
      | .done (.err e) => exact Bool.false_ne_true
    obtain ⟨tasks', htake⟩ := exists_takeNext code default (hwaiting ▸ hmem)
    refine ⟨{ s with tasks := tasks' }, .recv default, ?_⟩
    simp only [step, hfree, hlimit, htake]
    rfl

/-- When every task has ended, the workers have nothing to do. -/
theorem not_next_of_settled (h : ∀ x ∈ s.tasks, x.2.settled = true) : ¬ Next limit code s s' := by
  intro hnext
  cases moves_of_next hnext with
  | recv htasks =>
    have hx := h _ (htasks ▸ List.mem_append_right _ (List.mem_cons_self ..))
    cases hx
  | access htasks _ =>
    have hx := h _ (htasks ▸ List.mem_append_right _ (List.mem_cons_self ..))
    cases hx
  | finish htasks _ =>
    have hx := h _ (htasks ▸ List.mem_append_right _ (List.mem_cons_self ..))
    cases hx

/-! ## What holds of every step -/

/-- The tasks stay the same. -/
theorem tasks_fst_next (h : Next limit code s s') :
    s'.tasks.map Prod.fst = s.tasks.map Prod.fst := by
  cases moves_of_next h with
  | recv htasks => rw [htasks, List.map_append, List.map_append]; rfl
  | access htasks _ => rw [htasks, List.map_append, List.map_append]; rfl
  | finish htasks _ => rw [htasks, List.map_append, List.map_append]; rfl

/-- What has been sent is what the ended tasks have given. -/
theorem sent_next (h : Next limit code s s') (hsent : s.sent.Perm (results s.tasks)) :
    s'.sent.Perm (results s'.tasks) := by
  cases moves_of_next h with
  | recv htasks =>
    rw [htasks, results_append, results_cons] at hsent
    rw [results_append, results_cons]
    exact hsent
  | access htasks _ =>
    rw [htasks, results_append, results_cons] at hsent
    rw [results_append, results_cons]
    exact hsent
  | finish htasks hended =>
    rw [htasks, results_append, results_cons] at hsent
    rw [results_append, results_cons]
    refine (hsent.append_right _).trans ?_
    rw [List.append_assoc]
    exact List.Perm.append_left _ List.perm_append_comm

omit [DecidableEq K] in
theorem tasks_fst_start (memory : Memory K V) (tasks : List τ) :
    (start memory tasks : Pool τ K V ε α).tasks.map Prod.fst = tasks := by
  rw [start, List.map_map]
  exact List.map_id _

omit [DecidableEq K] in
theorem sent_start (memory : Memory K V) (tasks : List τ) :
    (start memory tasks : Pool τ K V ε α).sent.Perm
      (results (start memory tasks : Pool τ K V ε α).tasks) := by
  refine .of_eq (Eq.symm (List.filterMap_eq_nil_iff.mpr fun x hx => ?_))
  obtain ⟨t, -, rfl⟩ := List.mem_map.mp hx
  rfl

/-! ## Assertions of tasks that do not disturb each other -/

variable (code) in
/-- An assertion of each task about its stage and the memory, which the task's own
steps keep and which survives the accesses of a task related to it. -/
structure Rely (rel : τ → τ → Prop) (A : τ → Stage K V ε α → Memory K V → Prop) : Prop where
  symm : ∀ s t, rel s t → rel t s
  recv : ∀ c t m, A t .waiting m → A t (.busy (code c t)) m
  access : ∀ t p p' m m', A t (.busy p) m → p.advance m = some (p', m') →
    A t (.busy p') m' ∧ ∀ s stage, rel t s → A s stage m → A s stage m'
  finish : ∀ t p o m, A t (.busy p) m → p.ended = some o → A t (.done o) m

/-- If the tasks are pairwise related, their assertions hold after every step. -/
theorem Rely.next {rel : τ → τ → Prop} {A : τ → Stage K V ε α → Memory K V → Prop}
    (h : Rely code rel A) (hrel : (s.tasks.map Prod.fst).Pairwise rel)
    (hA : ∀ x ∈ s.tasks, A x.1 x.2 s.memory) (hnext : Next limit code s s') :
    ∀ x ∈ s'.tasks, A x.1 x.2 s'.memory := by
  cases moves_of_next hnext with
  | recv htasks =>
    rw [htasks, List.forall_mem_append, List.forall_mem_cons] at hA
    rw [List.forall_mem_append, List.forall_mem_cons]
    exact ⟨hA.1, h.recv _ _ _ hA.2.1, hA.2.2⟩
  | finish htasks hended =>
    rw [htasks, List.forall_mem_append, List.forall_mem_cons] at hA
    rw [List.forall_mem_append, List.forall_mem_cons]
    exact ⟨hA.1, h.finish _ _ _ _ hA.2.1 hended, hA.2.2⟩
  | access htasks hadvance =>
    rw [htasks, List.forall_mem_append, List.forall_mem_cons] at hA
    rw [htasks, List.map_append, List.map_cons, List.pairwise_append, List.pairwise_cons] at hrel
    rw [List.forall_mem_append, List.forall_mem_cons]
    obtain ⟨hown, hother⟩ := h.access _ _ _ _ _ hA.2.1 hadvance
    obtain ⟨-, ⟨hafter, -⟩, hbefore⟩ := hrel
    refine ⟨fun x hx => hother _ _ (h.symm _ _ ?_) (hA.1 x hx), hown,
      fun x hx => hother _ _ ?_ (hA.2.2 x hx)⟩
    · exact hbefore x.1 (List.mem_map_of_mem hx) _ (List.mem_cons_self ..)
    · exact hafter x.1 (List.mem_map_of_mem hx)

/-! ## Tasks with disjoint footprints -/

end Pool

/-- The tasks one after the other: their outcomes, and the memory. -/
def serially {τ K V ε α : Type} (alone : τ → Memory K V → Outcome ε α × Memory K V) :
    List τ → Memory K V → List (Outcome ε α) × Memory K V
  | [], m => ([], m)
  | t :: tasks, m =>
    let first := alone t m
    let rest := serially alone tasks first.2
    (first.1 :: rest.1, rest.2)

/-- Two tasks in turn. -/
theorem serially_pair {τ K V ε α : Type} {alone : τ → Memory K V → Outcome ε α × Memory K V}
    {s t : τ} {m m₁ m₂ : Memory K V} {o₁ o₂ : Outcome ε α} (h₁ : alone s m = (o₁, m₁))
    (h₂ : alone t m₁ = (o₂, m₂)) : serially alone [s, t] m = ([o₁, o₂], m₂) := by
  simp only [serially, h₁, h₂]

theorem serially_append {τ K V ε α : Type} (alone : τ → Memory K V → Outcome ε α × Memory K V)
    (l₁ l₂ : List τ) : ∀ m : Memory K V, serially alone (l₁ ++ l₂) m
      = ((serially alone l₁ m).1 ++ (serially alone l₂ (serially alone l₁ m).2).1,
        (serially alone l₂ (serially alone l₁ m).2).2) := by
  induction l₁ with
  | nil => exact fun m => rfl
  | cons t l₁ ih =>
    intro m
    rw [List.cons_append, serially, ih]
    rfl

/-- If no task panics and every two tasks can change places, the order does not
matter. -/
theorem serially_perm {τ K V ε α : Type} {alone : τ → Memory K V → Outcome ε α × Memory K V}
    {rel : τ → τ → Prop} (hsymm : ∀ s t, rel s t → rel t s)
    (hswap : ∀ s t m, rel s t → .panicked ∉ (serially alone [s, t] m).1 →
      (serially alone [t, s] m).1.Perm (serially alone [s, t] m).1 ∧
        (serially alone [t, s] m).2 = (serially alone [s, t] m).2)
    {l l' : List τ} (hperm : l.Perm l') : ∀ m : Memory K V, l.Pairwise rel →
      .panicked ∉ (serially alone l m).1 →
      (serially alone l' m).1.Perm (serially alone l m).1 ∧
        (serially alone l' m).2 = (serially alone l m).2 := by
  induction hperm with
  | nil => exact fun m _ _ => ⟨.refl _, rfl⟩
  | cons t _ ih =>
    intro m hrel hpanic
    obtain ⟨houtcomes, hmemory⟩ := ih (alone t m).2 (List.pairwise_cons.mp hrel).2
      fun h => hpanic (List.mem_cons_of_mem _ h)
    exact ⟨houtcomes.cons _, hmemory⟩
  | swap s t l =>
    intro m hrel hpanic
    obtain ⟨hts, -⟩ := List.pairwise_cons.mp hrel
    rw [show t :: s :: l = [t, s] ++ l from rfl, serially_append] at hpanic
    obtain ⟨houtcomes, hmemory⟩ := hswap t s m (hts s (List.mem_cons_self ..))
      fun h => hpanic (List.mem_append_left _ h)
    rw [show t :: s :: l = [t, s] ++ l from rfl, show s :: t :: l = [s, t] ++ l from rfl,
      serially_append, serially_append, hmemory]
    exact ⟨houtcomes.append_right _, rfl⟩
  | trans h₁ _ ih₁ ih₂ =>
    intro m hrel hpanic
    obtain ⟨houtcomes₁, hmemory₁⟩ := ih₁ m hrel hpanic
    obtain ⟨houtcomes₂, hmemory₂⟩ := ih₂ m (h₁.pairwise hrel fun {_ _} => hsymm _ _)
      fun h => hpanic (houtcomes₁.mem_iff.mp h)
    exact ⟨houtcomes₂.trans houtcomes₁, hmemory₂.trans hmemory₁⟩

/-- Tasks may be renamed before or after. -/
theorem serially_map {σ τ K V ε α : Type} (alone : τ → Memory K V → Outcome ε α × Memory K V)
    (f : σ → τ) (l : List σ) : ∀ m : Memory K V,
      serially (fun x => alone (f x)) l m = serially alone (l.map f) m := by
  induction l with
  | nil => exact fun m => rfl
  | cons x l ih =>
    intro m
    rw [List.map_cons, serially, serially, ih]

/-- Each task reads and writes in its footprint only, and its program gives the same
whatever its choice. -/
structure Footprints {τ K V ε α χ : Type} [DecidableEq K] (code : χ → τ → Prog K V ε α)
    (alone : τ → Memory K V → Outcome ε α × Memory K V) (F : τ → K → Prop) : Prop where
  run : ∀ c t m, (code c t).run m = alone t m
  confined : ∀ c t m, (code c t).Confined (F t) (F t) m

/-- Two tasks have no cell in common. -/
def Apart {τ K : Type} (F : τ → K → Prop) (s t : τ) : Prop := ∀ k, F s k → ¬ F t k

theorem Apart.symm {τ K : Type} {F : τ → K → Prop} {s t : τ} (h : Apart F s t) : Apart F t s :=
  fun k ht hs => h k hs ht

namespace Footprints

variable {τ K V ε α χ : Type} [DecidableEq K] {code : χ → τ → Prog K V ε α}
  {alone : τ → Memory K V → Outcome ε α × Memory K V} {F : τ → K → Prop}

/-- A task sees nothing outside its footprint. -/
theorem alone_congr [Inhabited χ] (h : Footprints code alone F) {t : τ} {m m' : Memory K V}
    (hagree : AgreeOn (F t) m m') :
    (alone t m').1 = (alone t m).1 ∧ AgreeOn (F t) (alone t m).2 (alone t m').2 := by
  rw [← h.run default t m, ← h.run default t m']
  have hcongr := (h.confined default t m).run_congr hagree
  exact ⟨hcongr.1, hcongr.2.1⟩

/-- A task leaves everything outside its footprint alone. -/
theorem alone_frame [Inhabited χ] (h : Footprints code alone F) {t : τ} (m : Memory K V) {k : K}
    (hk : ¬ F t k) : (alone t m).2 k = m k := by
  rw [← h.run default t m]
  exact (h.confined default t m).run_frame hk

/-- One after the other, tasks that are apart give what each gives from the start,
and each cell is as the task that has it in its footprint leaves it. -/
theorem serially_eq [Inhabited χ] (h : Footprints code alone F) (m₀ : Memory K V)
    (tasks : List τ) : ∀ m : Memory K V, tasks.Pairwise (Apart F) →
      (∀ t ∈ tasks, AgreeOn (F t) m₀ m) →
      (serially alone tasks m).1 = tasks.map (fun t => (alone t m₀).1) ∧
      (∀ t ∈ tasks, AgreeOn (F t) (alone t m₀).2 (serially alone tasks m).2) ∧
      ∀ k, (∀ t ∈ tasks, ¬ F t k) → (serially alone tasks m).2 k = m k := by
  induction tasks with
  | nil => exact fun m _ _ => ⟨rfl, List.forall_mem_nil _, fun _ _ => rfl⟩
  | cons t tasks ih =>
    intro m hapart hagree
    obtain ⟨hfirst, hrest⟩ := List.pairwise_cons.mp hapart
    obtain ⟨ht, hts⟩ := List.forall_mem_cons.mp hagree
    have hafter : ∀ s ∈ tasks, AgreeOn (F s) m₀ (alone t m).2 := fun s hs k hk =>
      (hts s hs k hk).trans (h.alone_frame m ((hfirst s hs).symm k hk)).symm
    obtain ⟨houtcome, hmemory⟩ := h.alone_congr ht
    obtain ⟨houtcomes, hmemories, hframe⟩ := ih (alone t m).2 hrest hafter
    refine ⟨?_, ?_, fun k hk => ?_⟩
    · rw [List.map_cons, ← houtcomes, ← houtcome]
      rfl
    · refine List.forall_mem_cons.mpr ⟨fun k hk => ?_, hmemories⟩
      have hlater := hframe k fun s hs => hfirst s hs k hk
      exact (hmemory k hk).trans hlater.symm
    · obtain ⟨hkt, hks⟩ := List.forall_mem_cons.mp hk
      exact (hframe k hks).trans (h.alone_frame m hkt)

/-- Tasks that are apart can change places. -/
theorem serially_swap [Inhabited χ] (h : Footprints code alone F) {s t : τ} (hst : Apart F s t)
    (m : Memory K V) :
    (serially alone [t, s] m).1.Perm (serially alone [s, t] m).1 ∧
      (serially alone [t, s] m).2 = (serially alone [s, t] m).2 := by
  -- Each sees the same in its footprint before and after the other.
  have hs : AgreeOn (F s) m (alone t m).2 := fun k hk => (h.alone_frame m (hst k hk)).symm
  have ht : AgreeOn (F t) m (alone s m).2 := fun k hk => (h.alone_frame m (hst.symm k hk)).symm
  obtain ⟨hsOutcome, hsMemory⟩ := h.alone_congr hs
  obtain ⟨htOutcome, htMemory⟩ := h.alone_congr ht
  refine ⟨?_, funext fun k => ?_⟩
  · show [(alone t m).1, (alone s (alone t m).2).1].Perm [(alone s m).1, (alone t (alone s m).2).1]
    rw [hsOutcome, htOutcome]
    exact .swap _ _ _
  · show (alone s (alone t m).2).2 k = (alone t (alone s m).2).2 k
    by_cases hks : F s k
    · rw [← hsMemory k hks, h.alone_frame _ (hst k hks)]
    · rw [h.alone_frame _ hks]
      by_cases hkt : F t k
      · exact htMemory k hkt
      · rw [h.alone_frame _ hkt, h.alone_frame _ hkt, h.alone_frame _ hks]

variable (alone F) in
/-- What is left of a task gives, from the present memory, what the whole task gives
from the memory `m₀` at the start. -/
def OnTrack (m₀ : Memory K V) (t : τ) : Stage K V ε α → Memory K V → Prop
  | .waiting, m => AgreeOn (F t) m₀ m
  | .busy p, m => p.Confined (F t) (F t) m ∧ (p.run m).1 = (alone t m₀).1 ∧
      AgreeOn (F t) (alone t m₀).2 (p.run m).2
  | .done o, m => o = (alone t m₀).1 ∧ AgreeOn (F t) (alone t m₀).2 m

/-- Tasks that are apart leave each other on track. -/
theorem rely [Inhabited χ] (h : Footprints code alone F) (m₀ : Memory K V) :
    Pool.Rely code (Apart F) (OnTrack alone F m₀) where
  symm _ _ := Apart.symm
  recv c t m hagree := by
    obtain ⟨houtcome, hmemory⟩ := h.alone_congr hagree
    rw [← h.run c t m] at houtcome hmemory
    exact ⟨h.confined c t m, houtcome, hmemory⟩
  access t p p' m m' hp hadvance := by
    obtain ⟨hconfined, houtcome, hmemory⟩ := hp
    obtain ⟨hconfined', hframe⟩ := hconfined.advance hadvance
    refine ⟨⟨hconfined', ?_, ?_⟩, fun s stage hapart hs => ?_⟩
    · rw [Prog.run_advance hadvance]
      exact houtcome
    · rw [Prog.run_advance hadvance]
      exact hmemory
    · -- The access is outside the footprint of `s`.
      have hsame : AgreeOn (F s) m m' := fun k hk => (hframe k (hapart.symm k hk)).symm
      cases stage with
      | waiting => exact AgreeOn.trans hs hsame
      | busy q =>
        obtain ⟨hq, hqo, hqm⟩ := hs
        obtain ⟨hrun, hrunm, hq'⟩ := hq.run_congr hsame
        exact ⟨hq', hrun.trans hqo, hqm.trans hrunm⟩
      | done o => exact ⟨hs.1, hs.2.trans hsame⟩
  finish t p o m hp hended := by
    obtain ⟨-, houtcome, hmemory⟩ := hp
    rw [Prog.run_of_ended hended] at houtcome hmemory
    exact ⟨houtcome, hmemory⟩

variable (alone F) in
/-- A pool that runs `tasks` from the memory `m₀`. -/
structure Running (tasks : List τ) (m₀ : Memory K V) (s : Pool τ K V ε α) : Prop where
  names : s.tasks.map Prod.fst = tasks
  onTrack : ∀ x ∈ s.tasks, OnTrack alone F m₀ x.1 x.2 s.memory
  frame : ∀ k, (∀ t ∈ tasks, ¬ F t k) → s.memory k = m₀ k
  sent : s.sent.Perm (Pool.results s.tasks)

theorem running_start (tasks : List τ) (m₀ : Memory K V) :
    Running alone F tasks m₀ (Pool.start m₀ tasks) where
  names := Pool.tasks_fst_start m₀ tasks
  onTrack x hx := by
    obtain ⟨t, -, rfl⟩ := List.mem_map.mp hx
    exact fun _ _ => rfl
  frame _ _ := rfl
  sent := Pool.sent_start m₀ tasks

variable {limit : Nat} {tasks : List τ} {m₀ : Memory K V} {s s' : Pool τ K V ε α}

theorem Running.next [Inhabited χ] (h : Footprints code alone F) (hapart : tasks.Pairwise (Apart F))
    (hs : Running alone F tasks m₀ s) (hnext : Pool.Next limit code s s') :
    Running alone F tasks m₀ s' where
  names := (Pool.tasks_fst_next hnext).trans hs.names
  onTrack := (h.rely m₀).next (hs.names ▸ hapart) hs.onTrack hnext
  sent := Pool.sent_next hnext hs.sent
  frame k hk := by
    rw [← hs.frame k hk]
    cases Pool.moves_of_next hnext with
    | recv _ => rfl
    | finish _ _ => rfl
    | access htasks hadvance =>
      rename_i l₁ l₂ t p p' memory
      have hmem : (t, Stage.busy p) ∈ s.tasks := htasks ▸ List.mem_append_right _ (.head _)
      have ht : t ∈ tasks := hs.names ▸ List.mem_map_of_mem hmem
      exact ((hs.onTrack _ hmem).1.advance hadvance).2 k (hk t ht)

/-- No task crashes that does not panic alone. -/
theorem Running.not_crashed (hs : Running alone F tasks m₀ s)
    (hpanic : ∀ t ∈ tasks, (alone t m₀).1 ≠ .panicked) : ∀ x ∈ s.tasks, x.2.crashed = false := by
  intro ⟨t, stage⟩ hx
  have htrack := hs.onTrack _ hx
  match stage with
  | .waiting => rfl
  | .busy p => rfl
  | .done (.ok a) => rfl
  | .done (.err e) => rfl
  | .done .panicked =>
    have ht : t ∈ tasks := hs.names ▸ List.mem_map_of_mem hx
    exact absurd htrack.1.symm (hpanic t ht)

/-- When every task has ended, the memory and the results are those of the tasks one
after the other. -/
theorem Running.settled [Inhabited χ] (h : Footprints code alone F)
    (hapart : tasks.Pairwise (Apart F)) (hs : Running alone F tasks m₀ s)
    (hsettled : ∀ x ∈ s.tasks, x.2.settled = true) :
    s.memory = (serially alone tasks m₀).2 ∧
      s.sent.Perm ((serially alone tasks m₀).1.filterMap Outcome.result) := by
  obtain ⟨houtcomes, hmemories, hframe⟩ := h.serially_eq m₀ tasks m₀ hapart fun _ _ _ _ => rfl
  have hdone : ∀ x ∈ s.tasks, x.2 = .done (alone x.1 m₀).1 ∧
      AgreeOn (F x.1) (alone x.1 m₀).2 s.memory := by
    intro ⟨t, stage⟩ hx
    have htrack := hs.onTrack _ hx
    match stage with
    | .waiting => cases hsettled _ hx
    | .busy p => cases hsettled _ hx
    | .done o => exact ⟨congrArg Stage.done htrack.1, htrack.2⟩
  constructor
  · funext k
    by_cases hk : ∀ t ∈ tasks, ¬ F t k
    · rw [hs.frame k hk, hframe k hk]
    · -- Some task has the cell in its footprint.
      obtain ⟨t, ht, hFk⟩ : ∃ t ∈ tasks, F t k := by
        by_contra hno
        exact hk fun t ht hF => hno ⟨t, ht, hF⟩
      rw [← hmemories t ht k hFk]
      rw [← hs.names] at ht
      obtain ⟨x, hx, rfl⟩ := List.mem_map.mp ht
      exact ((hdone x hx).2 k hFk).symm
  · have hresults : Pool.results s.tasks
        = (s.tasks.map Prod.fst).filterMap fun t => (alone t m₀).1.result :=
      Pool.results_eq fun x hx => congrArg Stage.result (hdone x hx).1
    refine hs.sent.trans (.of_eq ?_)
    rw [hresults, hs.names, houtcomes, List.filterMap_map]
    rfl

/-- The accesses and other steps that a task still has, if its program makes at most
`n` accesses. -/
def weight (n : Nat) (m : Memory K V) : Stage K V ε α → Nat
  | .waiting => n + 2
  | .busy p => p.accesses m + 1
  | .done _ => 0

/-- The steps that the pool still has. -/
def remaining (n : Nat) (s : Pool τ K V ε α) : Nat :=
  (s.tasks.map fun x => weight n s.memory x.2).sum

/-- Every step brings the pool nearer to its end. -/
theorem Running.remaining_lt (hapart : tasks.Pairwise (Apart F)) {n : Nat}
    (hn : ∀ c, ∀ t ∈ tasks, ∀ m, (code c t).accesses m ≤ n) (hs : Running alone F tasks m₀ s)
    (hnext : Pool.Next limit code s s') : remaining n s' < remaining n s := by
  have hapart' : (s.tasks.map Prod.fst).Pairwise (Apart F) := hs.names ▸ hapart
  have htrack := hs.onTrack
  unfold remaining
  cases Pool.moves_of_next hnext with
  | recv htasks =>
    rename_i l₁ l₂ t c
    have ht : t ∈ tasks := by
      rw [← hs.names, htasks, List.map_append]
      exact List.mem_append_right _ (List.mem_cons_self ..)
    have hle := hn c t ht s.memory
    rw [htasks, List.map_append, List.map_cons, List.sum_append, List.sum_cons, List.map_append,
      List.map_cons, List.sum_append, List.sum_cons]
    simp only [weight]
    omega
  | finish htasks hended =>
    rw [htasks, List.map_append, List.map_cons, List.sum_append, List.sum_cons, List.map_append,
      List.map_cons, List.sum_append, List.sum_cons]
    simp only [weight]
    omega
  | access htasks hadvance =>
    rename_i l₁ l₂ t p p' memory
    rw [htasks, List.forall_mem_append, List.forall_mem_cons] at htrack
    rw [htasks, List.map_append, List.map_cons, List.pairwise_append, List.pairwise_cons]
      at hapart'
    obtain ⟨-, ⟨hafter, -⟩, hbefore⟩ := hapart'
    obtain ⟨htrack₁, ⟨hconfined, -⟩, htrack₂⟩ := htrack
    -- The other tasks have as far to go in the new memory as in the old one.
    have hother : ∀ x : τ × Stage K V ε α, Apart F t x.1 → OnTrack alone F m₀ x.1 x.2 s.memory →
        weight n memory x.2 = weight n s.memory x.2 := by
      rintro ⟨u, stage⟩ hu hx
      cases stage with
      | waiting => rfl
      | done o => rfl
      | busy q =>
        have hsame : AgreeOn (F u) s.memory memory := fun k hk =>
          ((hconfined.advance hadvance).2 k (hu.symm k hk)).symm
        simp only [weight]
        rw [hx.1.accesses_congr hsame]
    have h₁ : l₁.map (fun x => weight n memory x.2) = l₁.map fun x => weight n s.memory x.2 :=
      List.map_congr_left fun x hx => hother x
        (hbefore x.1 (List.mem_map_of_mem hx) _ (List.mem_cons_self ..)).symm (htrack₁ x hx)
    have h₂ : l₂.map (fun x => weight n memory x.2) = l₂.map fun x => weight n s.memory x.2 :=
      List.map_congr_left fun x hx => hother x (hafter x.1 (List.mem_map_of_mem hx))
        (htrack₂ x hx)
    rw [htasks, List.map_append, List.map_cons, List.sum_append, List.sum_cons, List.map_append,
      List.map_cons, List.sum_append, List.sum_cons, h₁, h₂]
    simp only [weight]
    rw [Prog.accesses_advance hadvance]
    omega

end Footprints

namespace Pool

variable {τ K V ε α χ : Type} [DecidableEq K] {code : χ → τ → Prog K V ε α} {limit : Nat}
  {s s' : Pool τ K V ε α}

/-! ## Tasks that write nothing -/

/-- What is left of each task writes nothing from the memory `m₀`. -/
structure Silent (code : χ → τ → Prog K V ε α) (m₀ : Memory K V) (s : Pool τ K V ε α) : Prop where
  memory : s.memory = m₀
  waiting : ∀ t, (t, .waiting) ∈ s.tasks →
    ∀ c, (code c t).Confined (fun _ => True) (fun _ => False) m₀
  busy : ∀ t p, (t, .busy p) ∈ s.tasks → p.Confined (fun _ => True) (fun _ => False) m₀

omit [DecidableEq K] in
/-- A task of the pool, after one task has gone on to `stage`. -/
theorem mem_of_mem_replace {l₁ l₂ : List (τ × Stage K V ε α)} {t : τ}
    {stage : Stage K V ε α} (old : Stage K V ε α) {x : τ × Stage K V ε α}
    (h : x ∈ l₁ ++ (t, stage) :: l₂) : x = (t, stage) ∨ x ∈ l₁ ++ (t, old) :: l₂ := by
  cases List.mem_append.mp h with
  | inl h₁ => exact Or.inr (List.mem_append_left _ h₁)
  | inr h₂ =>
    cases List.mem_cons.mp h₂ with
    | inl he => exact Or.inl he
    | inr h₂ => exact Or.inr (List.mem_append_right _ (List.mem_cons_of_mem _ h₂))

theorem silent_start {tasks : List τ} {m₀ : Memory K V}
    (h : ∀ t ∈ tasks, ∀ c, (code c t).Confined (fun _ => True) (fun _ => False) m₀) :
    Silent code m₀ (start m₀ tasks) where
  memory := rfl
  waiting t hmem := by
    obtain ⟨t', ht', he⟩ := List.mem_map.mp hmem
    cases he
    exact h t ht'
  busy t p hmem := by
    obtain ⟨t', -, he⟩ := List.mem_map.mp hmem
    cases he

/-- A silent pool stays silent: the memory is the one that it began with. -/
theorem Silent.next {m₀ : Memory K V} (h : Silent code m₀ s) (hnext : Next limit code s s') :
    Silent code m₀ s' := by
  obtain ⟨hmemory, hwaiting, hbusy⟩ := h
  cases moves_of_next hnext with
  | recv htasks =>
    rename_i l₁ l₂ t c
    rw [htasks] at hwaiting hbusy
    refine ⟨hmemory, fun u hu => ?_, fun u p hu => ?_⟩
    · cases mem_of_mem_replace .waiting hu with
      | inl he => cases he
      | inr hold => exact hwaiting u hold
    · cases mem_of_mem_replace .waiting hu with
      | inl he =>
        cases he
        exact hwaiting t (List.mem_append_right _ (List.mem_cons_self ..)) c
      | inr hold => exact hbusy u p hold
  | access htasks hadvance =>
    rename_i l₁ l₂ t p p' memory
    rw [htasks] at hwaiting hbusy
    have hp := hbusy t p (List.mem_append_right _ (List.mem_cons_self ..))
    rw [hmemory] at hadvance
    -- with an empty footprint every key is outside of it
    obtain ⟨hp', hframe⟩ := hp.advance hadvance
    obtain rfl : memory = m₀ := funext fun k => hframe k id
    refine ⟨rfl, fun u hu => ?_, fun u q hu => ?_⟩
    · cases mem_of_mem_replace (.busy p) hu with
      | inl he => cases he
      | inr hold => exact hwaiting u hold
    · cases mem_of_mem_replace (.busy p) hu with
      | inl he =>
        cases he
        exact hp'
      | inr hold => exact hbusy u q hold
  | finish htasks hended =>
    rename_i l₁ l₂ t p o
    rw [htasks] at hwaiting hbusy
    refine ⟨hmemory, fun u hu => ?_, fun u q hu => ?_⟩
    · cases mem_of_mem_replace (.busy p) hu with
      | inl he => cases he
      | inr hold => exact hwaiting u hold
    · cases mem_of_mem_replace (.busy p) hu with
      | inl he => cases he
      | inr hold => exact hbusy u q hold

/-! ## Tasks that keep what the others need -/

variable {P : τ → K → Option V → Prop} {C : K → Option V → Prop}

variable (code P C) in
/-- What a task needs while `u` are the tasks that have not written. -/
def Needs (u : τ → Prop) (t : τ) : Stage K V ε α → Prop
  | .waiting => u t ∧ ∀ c, (code c t).Keeps P C t (fun _ _ => True) u
  | .busy p => p.Keeps P C t (fun _ _ => True) u
  | .done o => ∀ e, o ≠ .err e

omit [DecidableEq K] in
/-- Another task has written. -/
theorem Needs.of_write {u : τ → Prop} {s t : τ} {stage : Stage K V ε α}
    (h : Needs code P C u s stage) (hst : s ≠ t) :
    Needs code P C (fun r => u r ∧ r ≠ t) s stage := by
  match stage with
  | .waiting =>
    refine ⟨⟨h.1, hst⟩, fun c => ?_⟩
    exact Prog.Keeps.mono (fun _ _ _ _ _ _ => trivial) (h.2 c) (fun _ hr => hr.1) fun hs => ⟨hs, hst⟩
  | .busy p =>
    exact Prog.Keeps.mono (fun _ _ _ _ _ _ => trivial) h (fun _ hr => hr.1) fun hs => ⟨hs, hst⟩
  | .done o => exact h

variable (code P C) in
/-- For some set of tasks that have not written, the memory is as they need it, and no
task has failed. -/
def Sustained (s : Pool τ K V ε α) : Prop :=
  ∃ u : τ → Prop, (∀ k, C k (s.memory k)) ∧ (∀ t, u t → ∀ k, P t k (s.memory k)) ∧
    ∀ x ∈ s.tasks, Needs code P C u x.1 x.2

omit [DecidableEq K] in
theorem sustained_start {tasks : List τ} {m₀ : Memory K V} (hC : ∀ k, C k (m₀ k))
    (hP : ∀ t ∈ tasks, ∀ k, P t k (m₀ k))
    (h : ∀ t ∈ tasks, ∀ c, (code c t).Keeps P C t (fun _ _ => True) (· ∈ tasks)) :
    Sustained code P C (start m₀ tasks) := by
  refine ⟨(· ∈ tasks), hC, hP, fun x hx => ?_⟩
  obtain ⟨t, ht, rfl⟩ := List.mem_map.mp hx
  exact ⟨ht, h t ht⟩

/-- A step keeps the invariant, and what every other task may rely on. -/
theorem Sustained.next (h : Sustained code P C s) (hnodup : (s.tasks.map Prod.fst).Nodup)
    (hnext : Next limit code s s') : Sustained code P C s' := by
  obtain ⟨u, hC, hP, hneeds⟩ := h
  cases moves_of_next hnext with
  | recv htasks =>
    rw [htasks, List.forall_mem_append, List.forall_mem_cons] at hneeds
    refine ⟨u, hC, hP, ?_⟩
    rw [List.forall_mem_append, List.forall_mem_cons]
    exact ⟨hneeds.1, hneeds.2.1.2 _, hneeds.2.2⟩
  | finish htasks hended =>
    rename_i l₁ l₂ t p o
    rw [htasks, List.forall_mem_append, List.forall_mem_cons] at hneeds
    refine ⟨u, hC, hP, ?_⟩
    rw [List.forall_mem_append, List.forall_mem_cons]
    refine ⟨hneeds.1, fun e he => ?_, hneeds.2.2⟩
    have hkeeps := hneeds.2.1
    cases p with
    | ret a => cases hended; cases he
    | fail e => exact hkeeps
    | panic => cases hended; cases he
    | read k cont => cases hended
    | write k v cont => cases hended
  | access htasks hadvance =>
    rename_i l₁ l₂ t p p' memory
    rw [htasks, List.map_append, List.map_cons, List.nodup_middle, List.nodup_cons,
      ← List.map_append] at hnodup
    rw [htasks, List.forall_mem_append, List.forall_mem_cons] at hneeds
    obtain ⟨hneeds₁, hkeeps, hneeds₂⟩ := hneeds
    cases p with
    | ret a => cases hadvance
    | fail e => cases hadvance
    | panic => cases hadvance
    | read k cont =>
      cases hadvance
      refine ⟨u, hC, hP, ?_⟩
      rw [List.forall_mem_append, List.forall_mem_cons]
      exact ⟨hneeds₁, hkeeps u (fun _ h => h) id _ (hC k) fun s hs => hP s hs k, hneeds₂⟩
    | write k v cont =>
      cases hadvance
      obtain ⟨hCv, hPv, hrest⟩ := hkeeps
      have hne : ∀ x : τ × Stage K V ε α, x ∈ l₁ ++ l₂ → x.1 ≠ t := fun x hx he =>
        hnodup.1 (List.mem_map.mpr ⟨x, hx, he⟩)
      -- The task has written, and needs nothing any more.
      refine ⟨fun r => u r ∧ r ≠ t, ?_, fun s hs => ?_, ?_⟩
      · exact (Function.forall_update_iff _ C).mpr ⟨hCv, fun j _ => hC j⟩
      · exact (Function.forall_update_iff _ (P s)).mpr
          ⟨hPv s hs.1 hs.2, fun j _ => hP s hs.1 j⟩
      · rw [List.forall_mem_append, List.forall_mem_cons]
        exact ⟨fun x hx => (hneeds₁ x hx).of_write (hne x (List.mem_append_left _ hx)), hrest,
          fun x hx => (hneeds₂ x hx).of_write (hne x (List.mem_append_right _ hx))⟩

omit [DecidableEq K] in
/-- No task of such a pool sends an error. -/
theorem Sustained.no_error (h : Sustained code P C s) {e : ε} : .error e ∉ results s.tasks := by
  obtain ⟨u, -, -, hneeds⟩ := h
  intro hmem
  obtain ⟨⟨t, stage⟩, hx, he⟩ := List.mem_filterMap.mp hmem
  have hneed := hneeds _ hx
  match stage with
  | .waiting => cases he
  | .busy p => cases he
  | .done (.ok a) => cases he
  | .done .panicked => cases he
  | .done (.err e') => exact hneed e' rfl

end Pool

end InterBit.Lib
