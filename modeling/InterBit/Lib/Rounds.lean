import InterBit.Lib.WorkerPool

/-!
# Rounds of a worker pool

Lists of tasks that are worked off one after the other, each by a pool of workers:
start the workers, wait until they are done, collect what they have sent, go on with
the next list. Collecting is done by one thread alone, which may change the memory
and may stop everything with an error. A worker that has panicked makes the whole
thing panic.

`Rounds.inevitable_round`: if the tasks of a round are apart and none panics alone,
the round comes to its end in every interleaving, with the memory and the results of
its tasks one after the other.
-/

namespace InterBit.Lib

/-- The number of workers for `n` tasks, the program of a task, and what is done with
the results of a round; `A` is what has been collected so far. -/
structure Rounds (τ K V ε α χ A E : Type) where
  workers : Nat → Nat
  code : χ → τ → Prog K V ε α
  collect : List (Except ε α) → Memory K V → A → Except E A × Memory K V

/-- Where the rounds stand. -/
inductive RoundState (τ K V ε α A E : Type) where
  | running (pool : Pool τ K V ε α) (rest : List (List τ)) (collected : A)
  | ended (memory : Memory K V) (result : Except E A)
  | panicked

/-- A step of a worker, or of the thread that waits for the workers. -/
inductive RoundAction (χ : Type) where
  | worker (a : PoolAction χ)
  /-- All workers are done: collect, and start the next round. -/
  | join
  /-- A worker turns out to have panicked. -/
  | crash

namespace Rounds

variable {τ K V ε α χ A E : Type}

/-- Start the next round, or end. -/
def enter (memory : Memory K V) (collected : A) : List (List τ) → RoundState τ K V ε α A E
  | [] => .ended memory (.ok collected)
  | tasks :: rest => .running (Pool.start memory tasks) rest collected

variable (r : Rounds τ K V ε α χ A E)

/-- Collect the results of a round. -/
def finish (pool : Pool τ K V ε α) (rest : List (List τ)) (collected : A) :
    RoundState τ K V ε α A E :=
  match r.collect pool.sent pool.memory collected with
  | (.ok collected, memory) => enter memory collected rest
  | (.error e, memory) => .ended memory (.error e)

/-- The workers have left their loops; if there is none, they have from the start. -/
def joinable (pool : Pool τ K V ε α) : Bool :=
  r.workers pool.tasks.length == 0 || pool.tasks.all (·.2.settled)

variable [DecidableEq K]

/-- One step. -/
def step : RoundState τ K V ε α A E → RoundAction χ → Option (RoundState τ K V ε α A E)
  | .running pool rest collected, .worker a =>
    (pool.step (r.workers pool.tasks.length) r.code a).map fun pool =>
      .running pool rest collected
  | .running pool rest collected, .join =>
    if r.joinable pool then some (r.finish pool rest collected) else none
  | .running pool _ _, .crash => if pool.tasks.any (·.2.crashed) then some .panicked else none
  | _, _ => none

/-- One step of anybody. -/
def Next (s s' : RoundState τ K V ε α A E) : Prop := ∃ a, r.step s a = some s'

/-- What a step can do. -/
inductive Moves (pool : Pool τ K V ε α) (rest : List (List τ)) (collected : A) :
    RoundState τ K V ε α A E → Prop
  | worker {pool' : Pool τ K V ε α} :
      Pool.Next (r.workers pool.tasks.length) r.code pool pool' →
      Moves pool rest collected (.running pool' rest collected)
  | join : r.joinable pool = true → Moves pool rest collected (r.finish pool rest collected)
  | crash : (∃ x ∈ pool.tasks, x.2.crashed = true) → Moves pool rest collected .panicked

variable {r} {pool : Pool τ K V ε α} {rest : List (List τ)} {collected : A}
  {s' : RoundState τ K V ε α A E}

theorem moves_of_next (h : r.Next (.running pool rest collected) s') :
    r.Moves pool rest collected s' := by
  obtain ⟨a, h⟩ := h
  cases a with
  | worker a =>
    obtain ⟨pool', hstep, rfl⟩ := Option.map_eq_some_iff.mp h
    exact .worker ⟨a, hstep⟩
  | join =>
    simp only [step] at h
    split at h
    next hjoin =>
      cases h
      exact .join hjoin
    next => cases h
  | crash =>
    simp only [step] at h
    split at h
    next hany =>
      cases h
      exact .crash (List.any_eq_true.mp hany)
    next => cases h

omit [DecidableEq K] in
theorem joinable_iff (hworkers : r.workers pool.tasks.length ≠ 0) :
    r.joinable pool = true ↔ ∀ x ∈ pool.tasks, x.2.settled = true := by
  unfold joinable
  rw [beq_false_of_ne hworkers, Bool.false_or, List.all_eq_true]

/-- Tasks that are apart and do not panic: the round ends as if they had been run one
after the other. -/
theorem inevitable_round [Inhabited χ] {alone : τ → Memory K V → Outcome ε α × Memory K V}
    {F : τ → K → Prop} (h : Footprints r.code alone F) {tasks : List τ} {m₀ : Memory K V} {n : Nat}
    (hn : ∀ c, ∀ t ∈ tasks, ∀ m, (r.code c t).accesses m ≤ n)
    (hworkers : 0 < r.workers tasks.length) (hapart : tasks.Pairwise (Apart F))
    (hpanic : .panicked ∉ (serially alone tasks m₀).1) {P : RoundState τ K V ε α A E → Prop}
    (hrest : ∀ pool : Pool τ K V ε α, pool.memory = (serially alone tasks m₀).2 →
      pool.sent.Perm ((serially alone tasks m₀).1.filterMap Outcome.result) →
      Inevitable r.Next P (r.finish pool rest collected)) :
    Inevitable r.Next P (.running (Pool.start m₀ tasks) rest collected) := by
  have hpanic' : ∀ t ∈ tasks, (alone t m₀).1 ≠ .panicked := by
    obtain ⟨houtcomes, -, -⟩ := h.serially_eq m₀ tasks m₀ hapart fun _ _ _ _ => rfl
    rw [houtcomes] at hpanic
    exact fun t ht he => hpanic (List.mem_map.mpr ⟨t, ht, he⟩)
  suffices hmain : ∀ k, ∀ pool : Pool τ K V ε α, Footprints.remaining n pool = k →
      Footprints.Running alone F tasks m₀ pool →
      Inevitable r.Next P (.running pool rest collected) from
    hmain _ _ rfl (Footprints.running_start tasks m₀)
  -- By induction on the number of steps that the pool still has.
  intro k
  induction k using Nat.strongRecOn with
  | ind k ih =>
    intro pool hk hs
    have hlength : pool.tasks.length = tasks.length := by rw [← hs.names, List.length_map]
    have hworkers' : 0 < r.workers pool.tasks.length := hlength ▸ hworkers
    have hcrashed := hs.not_crashed hpanic'
    by_cases hsettled : ∀ x ∈ pool.tasks, x.2.settled = true
    · -- Only joining is left.
      have hjoin := (joinable_iff (Nat.ne_of_gt hworkers')).mpr hsettled
      refine .later ⟨r.finish pool rest collected, .join, if_pos hjoin⟩ fun s' hnext => ?_
      cases moves_of_next hnext with
      | worker hpool => exact absurd hpool (Pool.not_next_of_settled hsettled)
      | join _ =>
        obtain ⟨hmemory, hsent⟩ := hs.settled h hapart hsettled
        exact hrest pool hmemory hsent
      | crash hcrash =>
        obtain ⟨x, hx, hc⟩ := hcrash
        rw [hcrashed x hx] at hc
        cases hc
    · -- Somebody can go on, and whoever does brings the pool nearer to its end.
      obtain ⟨x, hx, hopen⟩ : ∃ x ∈ pool.tasks, x.2.settled = false := by
        by_contra hno
        refine hsettled fun x hx => ?_
        by_contra hopen
        exact hno ⟨x, hx, Bool.not_eq_true _ ▸ hopen⟩
      have hex : ∃ pool', Pool.Next (r.workers pool.tasks.length) r.code pool pool' :=
        Pool.exists_next hworkers' hcrashed ⟨x, hx, hopen⟩
      obtain ⟨pool', a, hstep⟩ := hex
      refine .later ⟨.running pool' rest collected, .worker a, ?_⟩ fun s' hnext => ?_
      · simp only [step, hstep]
        rfl
      · cases moves_of_next hnext with
        | worker hpool =>
          refine ih _ ?_ _ rfl (hs.next h hapart hpool)
          rw [← hk]
          exact hs.remaining_lt hapart hn hpool
        | join hjoin => exact absurd ((joinable_iff (Nat.ne_of_gt hworkers')).mp hjoin) hsettled
        | crash hcrash =>
          obtain ⟨x, hx, hc⟩ := hcrash
          rw [hcrashed x hx] at hc
          cases hc

omit [DecidableEq K] in
/-- After the last round there is nothing to go on with. -/
theorem finish_last (pool : Pool τ K V ε α) (collected : A) :
    ∃ m result, r.finish pool [] collected = .ended m result := by
  unfold finish
  split
  next => exact ⟨_, _, rfl⟩
  next => exact ⟨_, _, rfl⟩

variable {s : RoundState τ K V ε α A E} {I : Pool τ K V ε α → Prop} {result : Except E A}

/-- What every step keeps in the last round holds when its results are collected. -/
theorem last_round
    (hnext : ∀ pool pool' : Pool τ K V ε α, I pool →
      Pool.Next (r.workers pool.tasks.length) r.code pool pool' → I pool')
    (hI : I pool)
    (hpath : Relation.ReflTransGen r.Next (.running pool [] collected) s) :
    s = .panicked ∨ ∃ pool', I pool' ∧
      (s = .running pool' [] collected ∨ s = r.finish pool' [] collected) := by
  induction hpath with
  | refl => exact Or.inr ⟨pool, hI, Or.inl rfl⟩
  | tail _ hstep ih =>
    obtain rfl | ⟨pool', hI', rfl | rfl⟩ := ih
    · obtain ⟨a, ha⟩ := hstep
      cases ha
    · cases moves_of_next hstep with
      | worker hpool => exact Or.inr ⟨_, hnext _ _ hI' hpool, Or.inl rfl⟩
      | join _ => exact Or.inr ⟨pool', hI', Or.inr rfl⟩
      | crash _ => exact Or.inl rfl
    · obtain ⟨m, result, hfinish⟩ := finish_last (r := r) pool' collected
      rw [hfinish] at hstep
      obtain ⟨a, ha⟩ := hstep
      cases ha

/-- The end of the last round. -/
theorem ended_of_last_round
    (hnext : ∀ pool pool' : Pool τ K V ε α, I pool →
      Pool.Next (r.workers pool.tasks.length) r.code pool pool' → I pool')
    (hI : I pool) {m : Memory K V}
    (hpath : Relation.ReflTransGen r.Next (.running pool [] collected) (.ended m result)) :
    ∃ pool', I pool' ∧ r.finish pool' [] collected = .ended m result := by
  obtain hpanic | ⟨pool', hI', hrunning | hfinish⟩ := last_round hnext hI hpath
  · cases hpanic
  · cases hrunning
  · exact ⟨pool', hI', hfinish.symm⟩

/-- A last round in which no task can have panicked does not panic. -/
theorem not_panicked_of_last_round
    (hnext : ∀ pool pool' : Pool τ K V ε α, I pool →
      Pool.Next (r.workers pool.tasks.length) r.code pool pool' → I pool')
    (hcrashed : ∀ pool : Pool τ K V ε α, I pool → ∀ x ∈ pool.tasks, x.2.crashed = false)
    (hI : I pool)
    (hpath : Relation.ReflTransGen r.Next (.running pool [] collected) s) : s ≠ .panicked := by
  intro hpanic
  subst hpanic
  obtain hrefl | ⟨s', hpath', hstep⟩ := hpath.cases_tail
  · cases hrefl
  · obtain rfl | ⟨pool', hI', rfl | rfl⟩ := last_round hnext hI hpath'
    · obtain ⟨a, ha⟩ := hstep
      cases ha
    · generalize hs : (RoundState.panicked : RoundState τ K V ε α A E) = s at hstep
      cases moves_of_next hstep with
      | worker _ => cases hs
      | join _ =>
        obtain ⟨m, result, hfinish⟩ := finish_last (r := r) pool' collected
        rw [hfinish] at hs
        cases hs
      | crash hcrash =>
        obtain ⟨x, hx, hc⟩ := hcrash
        rw [hcrashed pool' hI' x hx] at hc
        cases hc
    · obtain ⟨m, result, hfinish⟩ := finish_last (r := r) pool' collected
      rw [hfinish] at hstep
      obtain ⟨a, ha⟩ := hstep
      cases ha

/-- An end is the end. -/
theorem eq_of_path_ended {m : Memory K V}
    (hpath : Relation.ReflTransGen r.Next (.ended m result) s) : s = .ended m result := by
  cases hpath.cases_head with
  | inl heq => exact heq.symm
  | inr hstep =>
    obtain ⟨s', ⟨a, ha⟩, -⟩ := hstep
    cases ha

/-- A panic is the end. -/
theorem eq_of_path_panicked (hpath : Relation.ReflTransGen r.Next .panicked s) : s = .panicked := by
  cases hpath.cases_head with
  | inl heq => exact heq.symm
  | inr hstep =>
    obtain ⟨s', ⟨a, ha⟩, -⟩ := hstep
    cases ha

/-- A replayed interleaving. -/
theorem path_of_replay (actions : List (RoundAction χ)) :
    ∀ {s t : RoundState τ K V ε α A E}, actions.foldlM r.step s = some t →
      Relation.ReflTransGen r.Next s t := by
  induction actions with
  | nil =>
    intro s t hrun
    cases hrun
    exact .refl
  | cons a actions ih =>
    intro s t hrun
    rw [List.foldlM_cons] at hrun
    obtain ⟨s', hstep, hrun⟩ := Option.bind_eq_some_iff.mp hrun
    exact .head ⟨a, hstep⟩ (ih hrun)

/-- What every interleaving ends with, a replayed one does. -/
theorem holds_of_replay {P : RoundState τ K V ε α A E → Prop} {m : Memory K V}
    (hP : ∀ s, P s → ∃ m result, s = .ended m result) (actions : List (RoundAction χ)) :
    ∀ s : RoundState τ K V ε α A E, Inevitable r.Next P s →
      actions.foldlM r.step s = some (.ended m result) → P (.ended m result) := by
  induction actions with
  | nil =>
    intro s h hrun
    cases hrun
    cases h with
    | now hp => exact hp
    | later hex _ =>
      obtain ⟨s', a, hstep⟩ := hex
      cases hstep
  | cons a actions ih =>
    intro s h hrun
    rw [List.foldlM_cons] at hrun
    obtain ⟨s', hstep, hrun⟩ := Option.bind_eq_some_iff.mp hrun
    cases h with
    | now hp =>
      obtain ⟨m, result, rfl⟩ := hP s hp
      cases hstep
    | later _ hall => exact ih s' (hall s' ⟨a, hstep⟩) hrun

end Rounds

end InterBit.Lib
