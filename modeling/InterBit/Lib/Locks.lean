import InterBit.Lib.Run
import Mathlib.Logic.Function.Basic
import Mathlib.Logic.Relation

/-!
# Routines over reader-writer locks

`Routine L S α` is an asynchronous function over locks `L` and a state `S` that its callers
share. A guard is held until it is released, so `guarded` is a block that binds a guard. The
locks are not re-entrant: a task that asks for a lock which it holds itself waits for ever.

A task can run alone (`alone`), also as if the locks were re-entrant (`reentrant`), or with
others, one operation at a time (`Config.step`). `Follows P` says that each time a task asks
for a lock, what it holds and what it asks for are as `P` says; this survives every
interleaving (`Ordered.run`), and a cycle of waiting tasks is then a cycle in `P`
(`exists_descent`).
-/

namespace InterBit.Lib

/-- How a lock is taken. -/
inductive LockMode where
  | read
  | write
  deriving DecidableEq

/-- A lock, and how it is taken. -/
structure Guard (L : Type) where
  lock : L
  mode : LockMode
  deriving DecidableEq

/-- Both guards can be held at once. -/
def Guard.Admits {L : Type} (held asked : Guard L) : Prop :=
  held.lock = asked.lock → held.mode = .read ∧ asked.mode = .read

instance {L : Type} [DecidableEq L] (held asked : Guard L) : Decidable (held.Admits asked) :=
  inferInstanceAs (Decidable (_ → _))

theorem not_admits_of_write_held {L : Type} {lock : L} {mode : LockMode} :
    ¬ Guard.Admits ⟨lock, .write⟩ ⟨lock, mode⟩ := fun h => nomatch (h rfl).1

theorem not_admits_write {L : Type} {lock : L} {mode : LockMode} :
    ¬ Guard.Admits ⟨lock, mode⟩ ⟨lock, .write⟩ := fun h => nomatch (h rfl).2

/-- Nothing that is held excludes what is asked for. -/
def Harmless {L : Type} (held : List (Guard L)) (asked : Guard L) : Prop :=
  ∀ own ∈ held, own.Admits asked

instance {L : Type} [DecidableEq L] (held : List (Guard L)) (asked : Guard L) :
    Decidable (Harmless held asked) := inferInstanceAs (Decidable (∀ own ∈ held, _))

theorem harmless_nil {L : Type} {asked : Guard L} : Harmless [] asked :=
  fun _ hown => absurd hown List.not_mem_nil

/-- What an asynchronous function does next. -/
inductive Routine (L S α : Type) where
  | ret (a : α)
  | panic
  | acquire (g : Guard L) (next : Routine L S α)
  | release (g : Guard L) (next : Routine L S α)
  /-- Wait for something that is not a lock. -/
  | await (ready : S → Bool) (next : Routine L S α)
  | look (cont : S → Routine L S α)
  | update (f : S → S) (next : Routine L S α)

/-- How a task ends that runs alone. -/
inductive Ending (L α : Type) where
  | returned (a : α)
  | panicked
  /-- It waits for something that only others could do. -/
  | starved
  /-- It waits for a lock that it holds. -/
  | blocked (g : Guard L)
  deriving DecidableEq

/-- The task waits for a lock that it holds. -/
def Ending.isBlocked {L α : Type} : Ending L α → Bool
  | .blocked _ => true
  | _ => false

namespace Routine

variable {L S α β : Type}

/-- Run `t`, then `f` on its result. -/
def bind : Routine L S α → (α → Routine L S β) → Routine L S β
  | .ret a, f => f a
  | .panic, _ => .panic
  | .acquire g next, f => .acquire g (next.bind f)
  | .release g next, f => .release g (next.bind f)
  | .await ready next, f => .await ready (next.bind f)
  | .look cont, f => .look fun s => (cont s).bind f
  | .update u next, f => .update u (next.bind f)

instance : Monad (Routine L S) where
  pure := .ret
  bind := bind

/-- A block in which a guard is held. -/
def guarded (g : Guard L) (body : Routine L S α) : Routine L S α :=
  .acquire g (body >>= fun a => .release g (.ret a))

/-- A part of the state. -/
def get (f : S → α) : Routine L S α := .look fun s => .ret (f s)

/-- The state. -/
def state : Routine L S S := .look .ret

/-- A change of the state. -/
def modify (f : S → S) : Routine L S Unit := .update f (.ret ())

/-- The value, or panic. -/
def orPanic : Option α → Routine L S α
  | some a => .ret a
  | none => .panic

/-- A change of the state with a result; `none` is a panic after the change. -/
def perform (f : S → S × Option α) : Routine L S α :=
  .look fun s => .update (fun s => (f s).1) (orPanic (f s).2)

@[simp] theorem pure_eq (a : α) : (pure a : Routine L S α) = .ret a := rfl

@[simp] theorem bind_ret (a : α) (f : α → Routine L S β) : (Routine.ret a >>= f) = f a := rfl

@[simp] theorem bind_panic (f : α → Routine L S β) : (Routine.panic >>= f) = .panic := rfl

@[simp] theorem bind_acquire (g : Guard L) (next : Routine L S α) (f : α → Routine L S β) :
    (Routine.acquire g next >>= f) = .acquire g (next >>= f) := rfl

@[simp] theorem bind_release (g : Guard L) (next : Routine L S α) (f : α → Routine L S β) :
    (Routine.release g next >>= f) = .release g (next >>= f) := rfl

@[simp] theorem bind_await (ready : S → Bool) (next : Routine L S α) (f : α → Routine L S β) :
    (Routine.await ready next >>= f) = .await ready (next >>= f) := rfl

@[simp] theorem bind_look (cont : S → Routine L S α) (f : α → Routine L S β) :
    (Routine.look cont >>= f) = .look fun s => cont s >>= f := rfl

@[simp] theorem bind_update (u : S → S) (next : Routine L S α) (f : α → Routine L S β) :
    (Routine.update u next >>= f) = .update u (next >>= f) := rfl

/-! ## A task alone -/

/-- What comes after an ending. -/
def andThen {S : Type} : Ending L α × S → (α → S → Ending L β × S) → Ending L β × S
  | (.returned a, s), f => f a s
  | (.panicked, s), _ => (.panicked, s)
  | (.starved, s), _ => (.starved, s)
  | (.blocked g, s), _ => (.blocked g, s)

section Alone

variable [DecidableEq L] {reentry : Bool}

/-- Run alone, with some guards held. With `reentry` a task may take a lock that it holds. -/
def run (reentry : Bool) : Routine L S α → List (Guard L) → S → Ending L α × S
  | .ret a, _, s => (.returned a, s)
  | .panic, _, s => (.panicked, s)
  | .acquire g next, held, s =>
    if reentry = true ∨ Harmless held g then next.run reentry (g :: held) s else (.blocked g, s)
  | .release g next, held, s => next.run reentry (held.erase g) s
  | .await ready next, held, s => if ready s then next.run reentry held s else (.starved, s)
  | .look cont, held, s => (cont s).run reentry held s
  | .update f next, held, s => next.run reentry held (f s)

/-- Run alone. -/
def alone (t : Routine L S α) (s : S) : Ending L α × S := t.run false [] s

/-- Run alone, as if the locks were re-entrant. -/
def reentrant (t : Routine L S α) (s : S) : Ending L α × S := t.run true [] s

/-- What is held makes no difference if the locks are re-entrant. -/
theorem run_true (t : Routine L S α) (held : List (Guard L)) (s : S) :
    t.run true held s = t.reentrant s := by
  suffices h : ∀ held', t.run true held s = t.run true held' s from h []
  induction t generalizing held s with
  | ret a => exact fun _ => rfl
  | panic => exact fun _ => rfl
  | acquire g next ih =>
    intro held'
    rw [run, run, if_pos (Or.inl rfl), if_pos (Or.inl rfl)]
    exact ih _ _ _
  | release g next ih => exact fun held' => ih _ _ _
  | await ready next ih =>
    intro held'
    rw [run, run, ih held s held']
  | look cont ih => exact ih s held s
  | update f next ih => exact ih held (f s)

variable {t : Routine L S α}

/-- A task that does not block itself runs as if the locks were re-entrant. -/
theorem run_eq_reentrant {held : List (Guard L)} {s : S}
    (h : (t.run reentry held s).1.isBlocked = false) : t.run reentry held s = t.reentrant s := by
  rw [← run_true t held]
  induction t generalizing held s with
  | ret a => rfl
  | panic => rfl
  | acquire g next ih =>
    rw [run] at h ⊢
    rw [run, if_pos (Or.inl rfl)]
    split at h
    next hfree =>
      rw [if_pos hfree]
      exact ih h
    next =>
      -- here the task would wait for itself
      cases h
  | release g next ih => exact ih h
  | await ready next ih =>
    rw [run] at h ⊢
    rw [run]
    split at h
    next hready =>
      rw [if_pos hready, if_pos hready]
      exact ih h
    next hready => rw [if_neg hready, if_neg hready]
  | look cont ih => exact ih _ h
  | update f next ih => exact ih h

theorem run_bind (t : Routine L S α) (f : α → Routine L S β) (held : List (Guard L)) (s : S) :
    ∃ held', (t >>= f).run reentry held s
      = andThen (t.run reentry held s) fun a s' => (f a).run reentry held' s' := by
  induction t generalizing held s with
  | ret a => exact ⟨held, rfl⟩
  | panic => exact ⟨held, rfl⟩
  | acquire g next ih =>
    rw [bind_acquire, run, run]
    split
    next => exact ih _ s
    next => exact ⟨held, rfl⟩
  | release g next ih => exact ih _ s
  | await ready next ih =>
    rw [bind_await, run, run]
    split
    next => exact ih held s
    next => exact ⟨held, rfl⟩
  | look cont ih => exact ih s held s
  | update u next ih => exact ih held (u s)

theorem reentrant_bind (t : Routine L S α) (f : α → Routine L S β) (s : S) :
    (t >>= f).reentrant s = andThen (t.reentrant s) fun a s' => (f a).reentrant s' := by
  obtain ⟨held', h⟩ := @run_bind _ _ _ _ _ true t f [] s
  refine h.trans (congrArg (andThen (t.reentrant s)) ?_)
  exact funext fun a => funext fun s' => run_true (f a) held' s'

/-- A guard that is held to the end of the function. -/
theorem run_guarded (g : Guard L) (body : Routine L S α) (held : List (Guard L)) (s : S) :
    (guarded g body).run reentry held s
      = if reentry = true ∨ Harmless held g then body.run reentry (g :: held) s
        else (.blocked g, s) := by
  rw [guarded, run]
  obtain ⟨held', hrun⟩ := @run_bind _ _ _ _ _ reentry body (fun a => .release g (.ret a))
    (g :: held) s
  rw [hrun]
  rcases body.run reentry (g :: held) s with ⟨_ | _ | _ | _, _⟩ <;> rfl

theorem reentrant_guarded (g : Guard L) (body : Routine L S α) (s : S) :
    (guarded g body).reentrant s = body.reentrant s := by
  rw [reentrant, run_guarded, if_pos (Or.inl rfl), run_true]

theorem reentrant_acquire (g : Guard L) (next : Routine L S α) (s : S) :
    (acquire g next).reentrant s = next.reentrant s := by
  rw [reentrant, run, if_pos (Or.inl rfl), run_true]

theorem reentrant_release (g : Guard L) (next : Routine L S α) (s : S) :
    (release g next).reentrant s = next.reentrant s := run_true next _ s

theorem reentrant_get (f : S → α) (s : S) :
    (get f : Routine L S α).reentrant s = (.returned (f s), s) := rfl

theorem reentrant_modify (f : S → S) (s : S) :
    (modify f : Routine L S Unit).reentrant s = (.returned (), f s) := rfl

theorem reentrant_state (s : S) : (state : Routine L S S).reentrant s = (.returned s, s) := rfl

/-- How a function ends that returns the state and a result; `none` is a panic. -/
def ended : S × Option α → Ending L α × S
  | (s, some a) => (.returned a, s)
  | (s, none) => (.panicked, s)

theorem reentrant_orPanic (o : Option α) (s : S) :
    (orPanic o : Routine L S α).reentrant s = ended (s, o) := by
  cases o with
  | some a => rfl
  | none => rfl

theorem reentrant_perform (f : S → S × Option α) (s : S) :
    (perform f : Routine L S α).reentrant s = ended (f s) := reentrant_orPanic (f s).2 (f s).1

theorem reentrant_map (f : α → β) (t : Routine L S α) (s : S) :
    (f <$> t).reentrant s = andThen (t.reentrant s) fun a s' => (.returned (f a), s') :=
  reentrant_bind t (fun a => .ret (f a)) s

/-! ### Rules for what a run brings about -/

/-- From a state and with some guards held, the routine ends as `Q` says. -/
def Ensures (reentry : Bool) (t : Routine L S α) (held : List (Guard L)) (s : S)
    (Q : Ending L α → S → Prop) : Prop :=
  Q (t.run reentry held s).1 (t.run reentry held s).2

variable {held : List (Guard L)} {s : S} {Q : Ending L β → S → Prop}

theorem Ensures.mono {P Q : Ending L α → S → Prop} (h : Ensures reentry t held s P)
    (hPQ : ∀ e s', P e s' → Q e s') :
    Ensures reentry t held s Q := hPQ _ _ h

variable {f : α → Routine L S β} {g : Guard L} {next : α → Routine L S β}

theorem Ensures.bind {P : Ending L α → S → Prop} (h : Ensures reentry t held s P)
    (hreturned : ∀ a s' held', P (.returned a) s' → Ensures reentry (f a) held' s' Q)
    (hpanicked : ∀ s', P .panicked s' → Q .panicked s')
    (hstarved : ∀ s', P .starved s' → Q .starved s')
    (hblocked : ∀ g s', P (.blocked g) s' → Q (.blocked g) s') :
    Ensures reentry (t >>= f) held s Q := by
  obtain ⟨held', hrun⟩ := @run_bind _ _ _ _ _ reentry t f held s
  unfold Ensures at h ⊢
  rw [hrun]
  rcases ht : t.run reentry held s with ⟨a | _ | _ | g, s'⟩
  all_goals rw [ht] at h
  · exact hreturned a s' held' h
  · exact hpanicked s' h
  · exact hstarved s' h
  · exact hblocked g s' h

theorem ensures_guarded {t : Routine L S β} (hg : reentry = true ∨ Harmless held g)
    (h : Ensures reentry t (g :: held) s Q) :
    Ensures reentry (guarded g t) held s Q := by
  unfold Ensures at h ⊢
  rw [run_guarded, if_pos hg]
  exact h

theorem ensures_get {f : S → α} (h : Ensures reentry (next (f s)) held s Q) :
    Ensures reentry (get f >>= next) held s Q := h

theorem ensures_state {next : S → Routine L S β} (h : Ensures reentry (next s) held s Q) :
    Ensures reentry (state >>= next) held s Q := h

theorem ensures_modify {f : S → S} {next : Unit → Routine L S β}
    (h : Ensures reentry (next ()) held (f s) Q) :
    Ensures reentry (modify f >>= next) held s Q := h

/-- The rule of a step that may panic. -/
theorem ensures_orPanic {o : Option α} (hnone : o = none → Q .panicked s)
    (hsome : ∀ a, o = some a → Ensures reentry (next a) held s Q) :
    Ensures reentry (orPanic o >>= next) held s Q := by
  cases o with
  | none => exact hnone rfl
  | some a => exact hsome a rfl

/-- A value that is there under a condition. -/
theorem ensures_checked {o : Option α} {p : Prop} (hp : p → o.isSome) (hnone : ¬ p → Q .panicked s)
    (hsome : ∀ a, o = some a → Ensures reentry (next a) held s Q) :
    Ensures reentry (orPanic o >>= next) held s Q :=
  ensures_orPanic (fun h => hnone fun hholds => absurd (hp hholds) (by simp [h])) hsome

theorem ensures_value {o : Option β} (hnone : o = none → Q .panicked s)
    (hsome : ∀ a, o = some a → Q (.returned a) s) : Ensures reentry (orPanic o) held s Q := by
  cases o with
  | none => exact hnone rfl
  | some a => exact hsome a rfl

theorem ensures_ret {a : β} (h : Q (.returned a) s) : Ensures reentry (.ret a) held s Q := h

/-- A value that is read under its lock. -/
theorem ensures_peek {f : S → α}
    (hfree : reentry = true ∨ Harmless held g → Ensures reentry (next (f s)) held s Q)
    (hblocked : reentry = false → ¬ Harmless held g → Q (.blocked g) s) :
    Ensures reentry (guarded g (get f) >>= next) held s Q := by
  by_cases hg : reentry = true ∨ Harmless held g
  · have hrun : (guarded g (get f) >>= next).run reentry held s
        = (next (f s)).run reentry ((g :: held).erase g) s := if_pos hg
    unfold Ensures
    rw [hrun, List.erase_cons_head]
    exact hfree hg
  · have hrun : (guarded g (get f) >>= next).run reentry held s = (.blocked g, s) := if_neg hg
    unfold Ensures
    rw [hrun]
    rw [not_or, Bool.not_eq_true] at hg
    exact hblocked hg.1 hg.2

/-! ### The guards at the end -/

/-- Run alone: how the task ends, the state, and the guards that it still holds. -/
def halt : Routine L S α → List (Guard L) → S → (Ending L α × S) × List (Guard L)
  | .ret a, held, s => ((.returned a, s), held)
  | .panic, _, s => ((.panicked, s), [])
  | .acquire g next, held, s =>
    if Harmless held g then next.halt (g :: held) s else ((.blocked g, s), held)
  | .release g next, held, s => next.halt (held.erase g) s
  | .await ready next, held, s => if ready s then next.halt held s else ((.starved, s), held)
  | .look cont, held, s => (cont s).halt held s
  | .update f next, held, s => next.halt held (f s)

theorem halt_fst (t : Routine L S α) (held : List (Guard L)) (s : S) :
    (t.halt held s).1 = t.run false held s := by
  induction t generalizing held s with
  | ret a => rfl
  | panic => rfl
  | acquire g next ih =>
    rw [halt, run]
    by_cases hg : Harmless held g
    · rw [if_pos hg, if_pos (Or.inr hg)]
      exact ih _ s
    · rw [if_neg hg, if_neg (fun h => h.elim nofun hg)]
  | release g next ih => exact ih _ s
  | await ready next ih =>
    rw [halt, run]
    split
    next => exact ih held s
    next => rfl
  | look cont ih => exact ih s held s
  | update f next ih => exact ih held (f s)

/-- What comes after a part of the task starts with what this part holds at its end. -/
theorem halt_bind_eq (t : Routine L S α) (f : α → Routine L S β) (held : List (Guard L)) (s : S) :
    (t >>= f).halt held s = match t.halt held s with
      | ((.returned a, s'), mid) => (f a).halt mid s'
      | ((.panicked, s'), mid) => ((.panicked, s'), mid)
      | ((.starved, s'), mid) => ((.starved, s'), mid)
      | ((.blocked g, s'), mid) => ((.blocked g, s'), mid) := by
  induction t generalizing held s with
  | ret a => rfl
  | panic => rfl
  | acquire g next ih =>
    rw [bind_acquire, halt, halt]
    split
    next => exact ih _ s
    next => rfl
  | release g next ih => exact ih _ s
  | await ready next ih =>
    rw [bind_await, halt, halt]
    split
    next => exact ih held s
    next => rfl
  | look cont ih => exact ih s held s
  | update u next ih => exact ih held (u s)

/-- What comes after a part of the task that returns. -/
theorem halt_bind {held mid : List (Guard L)} {s s' : S} {a : α}
    (h : t.halt held s = ((.returned a, s'), mid)) :
    (t >>= f).halt held s = (f a).halt mid s' := by
  rw [halt_bind_eq, h]

/-- Nothing comes after a part of the task that waits for itself. -/
theorem halt_bind_blocked {held mid : List (Guard L)} {s s' : S}
    (h : t.halt held s = ((.blocked g, s'), mid)) :
    (t >>= f).halt held s = ((.blocked g, s'), mid) := by
  rw [halt_bind_eq, h]

theorem halt_guarded {body : Routine L S α} {held mid : List (Guard L)} {s s' : S} {a : α}
    (hg : Harmless held g) (h : body.halt (g :: held) s = ((.returned a, s'), mid)) :
    (guarded g body).halt held s = ((.returned a, s'), mid.erase g) := by
  rw [guarded, halt, if_pos hg, halt_bind h]
  rfl

theorem halt_guarded_blocked {g g' : Guard L} {body : Routine L S α} {held mid : List (Guard L)}
    {s s' : S} (hg : Harmless held g)
    (h : body.halt (g :: held) s = ((.blocked g', s'), mid)) :
    (guarded g body).halt held s = ((.blocked g', s'), mid) := by
  rw [guarded, halt, if_pos hg, halt_bind_blocked h]

/-- A change under its lock. -/
theorem halt_write {f : S → S} {held : List (Guard L)} {s : S} (hg : Harmless held g) :
    (guarded g (modify f)).halt held s = ((.returned (), f s), held) := by
  rw [halt_guarded hg rfl, List.erase_cons_head]

/-- A value that is read under its lock. -/
theorem halt_peek {f : S → α} {held : List (Guard L)} {s : S} (hg : Harmless held g) :
    (guarded g (get f)).halt held s = ((.returned (f s), s), held) := by
  rw [halt_guarded hg rfl, List.erase_cons_head]

end Alone

/-! ## The order in which locks are taken -/

section Follows

variable [DecidableEq L] {P : List (Guard L) → Guard L → Prop}

/-- Each time the routine asks for a lock, what it holds and what it asks for are as `P` says,
and it returns with the guards `exit`. -/
def Follows (P : List (Guard L) → Guard L → Prop) (exit : List (Guard L)) :
    Routine L S α → List (Guard L) → Prop
  | .ret _, held => held = exit
  | .panic, _ => True
  | .acquire g next, held => P held g ∧ next.Follows P exit (g :: held)
  | .release g next, held => next.Follows P exit (held.erase g)
  | .await _ next, held => next.Follows P exit held
  | .look cont, held => ∀ s, (cont s).Follows P exit held
  | .update _ next, held => next.Follows P exit held

variable {t : Routine L S α}

theorem Follows.bind {f : α → Routine L S β} {held mid exit : List (Guard L)}
    (h : t.Follows P mid held) (hf : ∀ a, (f a).Follows P exit mid) :
    (t >>= f).Follows P exit held := by
  induction t generalizing held with
  | ret a => exact (show held = mid from h) ▸ hf a
  | panic => trivial
  | acquire g next ih => exact ⟨h.1, ih h.2⟩
  | release g next ih => exact ih h
  | await ready next ih => exact ih h
  | look cont ih => exact fun s => ih s (h s)
  | update u next ih => exact ih h

/-- A weaker discipline is followed, too. -/
theorem Follows.mono {Q : List (Guard L) → Guard L → Prop} {held exit : List (Guard L)}
    (h : t.Follows P exit held) (hPQ : ∀ held asked, P held asked → Q held asked) :
    t.Follows Q exit held := by
  induction t generalizing held with
  | ret a => exact h
  | panic => trivial
  | acquire g next ih => exact ⟨hPQ _ _ h.1, ih h.2⟩
  | release g next ih => exact ih h
  | await ready next ih => exact ih h
  | look cont ih => exact fun s => ih s (h s)
  | update u next ih => exact ih h

theorem follows_guarded {g : Guard L} {body : Routine L S α} {held : List (Guard L)}
    (hg : P held g) (h : body.Follows P (g :: held) (g :: held)) :
    (guarded g body).Follows P held held :=
  ⟨hg, h.bind fun _ => List.erase_cons_head ..⟩

theorem follows_get (f : S → α) (held : List (Guard L)) :
    (get f : Routine L S α).Follows P held held := fun _ => rfl

theorem follows_state (held : List (Guard L)) :
    (state : Routine L S S).Follows P held held := fun _ => rfl

theorem follows_modify (f : S → S) (held : List (Guard L)) :
    (modify f : Routine L S Unit).Follows P held held := rfl

theorem follows_await (ready : S → Bool) (held : List (Guard L)) :
    (Routine.await ready (.ret ()) : Routine L S Unit).Follows P held held := rfl

theorem follows_orPanic (o : Option α) (held : List (Guard L)) :
    (orPanic o : Routine L S α).Follows P held held := by
  cases o with
  | some a => rfl
  | none => trivial

theorem follows_perform (f : S → S × Option α) (held : List (Guard L)) :
    (perform f : Routine L S α).Follows P held held := fun s => follows_orPanic (f s).2 held

/-- A routine that returns with the guards `mid` hands them to what comes next. -/
theorem Follows.run_bind {reentry : Bool} {t : Routine L S α} {f : α → Routine L S β}
    {held mid : List (Guard L)} (h : t.Follows P mid held) (s : S) :
    (t >>= f).run reentry held s
      = andThen (t.run reentry held s) fun a s' => (f a).run reentry mid s' := by
  induction t generalizing held s with
  | ret a => exact (show held = mid from h) ▸ rfl
  | panic => rfl
  | acquire g next ih =>
    rw [bind_acquire, run, run]
    split
    next => exact ih h.2 s
    next => rfl
  | release g next ih => exact ih h s
  | await ready next ih =>
    rw [bind_await, run, run]
    split
    next => exact ih h s
    next => rfl
  | look cont ih => exact ih s (h s) s
  | update u next ih => exact ih h (u s)

theorem Ensures.then {reentry : Bool} {f : α → Routine L S β} {held mid : List (Guard L)} {s : S}
    {A : Ending L α → S → Prop} {Q : Ending L β → S → Prop} (h : Ensures reentry t held s A)
    (hfollows : t.Follows P mid held)
    (hreturned : ∀ a s', A (.returned a) s' → Ensures reentry (f a) mid s' Q)
    (hpanicked : ∀ s', A .panicked s' → Q .panicked s')
    (hstarved : ∀ s', A .starved s' → Q .starved s')
    (hblocked : ∀ g s', A (.blocked g) s' → Q (.blocked g) s') :
    Ensures reentry (t >>= f) held s Q := by
  unfold Ensures at h ⊢
  rw [hfollows.run_bind]
  rcases ht : t.run reentry held s with ⟨a | _ | _ | g, s'⟩
  all_goals rw [ht] at h
  · exact hreturned a s' h
  · exact hpanicked s' h
  · exact hstarved s' h
  · exact hblocked g s' h

/-- A routine that only asks for what it does not hold never waits for itself. -/
theorem Follows.not_blocked {reentry : Bool} {held exit : List (Guard L)}
    (h : t.Follows Harmless exit held) (s : S) :
    (t.run reentry held s).1.isBlocked = false := by
  induction t generalizing held s with
  | ret a => rfl
  | panic => rfl
  | acquire g next ih =>
    rw [run, if_pos (Or.inr h.1)]
    exact ih h.2 s
  | release g next ih => exact ih h s
  | await ready next ih =>
    rw [run]
    split
    next => exact ih h s
    next => rfl
  | look cont ih => exact ih s (h s) s
  | update u next ih => exact ih h (u s)

end Follows

end Routine

/-! ## Tasks among others -/

/-- Tasks that run among others: the state, the guards that are held, and what is left. -/
structure Config (ι L S α : Type) where
  state : S
  guards : List (ι × Guard L)
  rest : ι → Routine L S α

namespace Config

variable {ι L S α : Type} [DecidableEq ι] [DecidableEq L]

/-- Nobody has started. -/
def start (s : S) (tasks : ι → Routine L S α) : Config ι L S α where
  state := s
  guards := []
  rest := tasks

/-- The guards of a task. -/
def guardsOf (guards : List (ι × Guard L)) (i : ι) : List (Guard L) :=
  guards.filterMap fun p => if p.1 = i then some p.2 else none

/-- The guards that a task holds. -/
def held (c : Config ι L S α) (i : ι) : List (Guard L) := guardsOf c.guards i

/-- The next operation of a task, if it need not wait. A panic releases the guards. -/
def step (c : Config ι L S α) (i : ι) : Option (Config ι L S α × Unit) :=
  match c.rest i with
  | .ret _ => none
  | .panic => some ({ c with guards := c.guards.filter (·.1 ≠ i) }, ())
  | .acquire g next =>
    if ∀ p ∈ c.guards, p.2.Admits g then
      some ({ c with guards := (i, g) :: c.guards, rest := Function.update c.rest i next }, ())
    else none
  | .release g next =>
    some ({ c with guards := c.guards.erase (i, g), rest := Function.update c.rest i next }, ())
  | .await ready next =>
    if ready c.state then some ({ c with rest := Function.update c.rest i next }, ()) else none
  | .look cont => some ({ c with rest := Function.update c.rest i (cont c.state) }, ())
  | .update f next =>
    some ({ c with state := f c.state, rest := Function.update c.rest i next }, ())

/-- The lock that a task asks for. -/
def asks (c : Config ι L S α) (i : ι) : Option (Guard L) :=
  match c.rest i with
  | .acquire g _ => some g
  | _ => none

/-- The task asks for a lock which another holds, so that it has to wait. -/
def Waits (c : Config ι L S α) (i j : ι) : Prop :=
  ∃ asked guard, c.asks i = some asked ∧ (j, guard) ∈ c.guards ∧ ¬ guard.Admits asked

/-- The task asks for a lock of which another holds a guard. It may have to wait even if both
only read, behind a writer that is in the queue. -/
def MayWait (c : Config ι L S α) (i j : ι) : Prop :=
  ∃ asked guard, c.asks i = some asked ∧ (j, guard) ∈ c.guards ∧ guard.lock = asked.lock

variable {c : Config ι L S α} {i j : ι}

omit [DecidableEq ι] [DecidableEq L] in
theorem mayWait_of_waits (h : c.Waits i j) : c.MayWait i j := by
  obtain ⟨asked, guard, hasks, hguard, hno⟩ := h
  refine ⟨asked, guard, hasks, hguard, ?_⟩
  by_contra hlock
  exact hno fun h => absurd h hlock

/-- Some tasks wait for each other in a circle. -/
def Circular (R : ι → ι → Prop) : Prop := ∃ i, Relation.TransGen R i i

/-! ### What a step does to the guards -/

omit [DecidableEq L] in
theorem mem_guardsOf {guards : List (ι × Guard L)} {i : ι} {g : Guard L} :
    g ∈ guardsOf guards i ↔ (i, g) ∈ guards := by
  simp [guardsOf]

omit [DecidableEq L] in
theorem guardsOf_cons_self (guards : List (ι × Guard L)) (i : ι) (g : Guard L) :
    guardsOf ((i, g) :: guards) i = g :: guardsOf guards i :=
  List.filterMap_cons_some (if_pos rfl)

omit [DecidableEq L] in
/-- Another task takes a guard. -/
theorem guardsOf_cons_of_ne (guards : List (ι × Guard L)) (g : Guard L) (h : i ≠ j) :
    guardsOf ((i, g) :: guards) j = guardsOf guards j :=
  List.filterMap_cons_none (if_neg h)

theorem guardsOf_erase_self (guards : List (ι × Guard L)) (i : ι) (g : Guard L) :
    guardsOf (guards.erase (i, g)) i = (guardsOf guards i).erase g := by
  induction guards with
  | nil => rfl
  | cons p guards ih =>
    obtain ⟨j, h⟩ := p
    by_cases hj : j = i
    · rw [hj, guardsOf_cons_self]
      by_cases hh : h = g
      · rw [hh, List.erase_cons_head, List.erase_cons_head]
      · rw [List.erase_cons_tail (by simp [hh]), List.erase_cons_tail (by simp [hh]),
          guardsOf_cons_self, ih]
    · rw [List.erase_cons_tail (by simp [hj]), guardsOf_cons_of_ne _ _ hj,
        guardsOf_cons_of_ne _ _ hj, ih]

/-- Another task gives a guard back. -/
theorem guardsOf_erase_of_ne (guards : List (ι × Guard L)) (g : Guard L) (h : i ≠ j) :
    guardsOf (guards.erase (i, g)) j = guardsOf guards j := by
  induction guards with
  | nil => rfl
  | cons p guards ih =>
    obtain ⟨k, g'⟩ := p
    by_cases hk : (k, g') = (i, g)
    · rw [hk, List.erase_cons_head, guardsOf_cons_of_ne _ _ h]
    · rw [List.erase_cons_tail (by simpa using hk)]
      by_cases hkj : k = j
      · rw [hkj, guardsOf_cons_self, guardsOf_cons_self, ih]
      · rw [guardsOf_cons_of_ne _ _ hkj, guardsOf_cons_of_ne _ _ hkj, ih]

omit [DecidableEq L] in
/-- Another task gives everything back. -/
theorem guardsOf_filter_of_ne (guards : List (ι × Guard L)) (h : j ≠ i) :
    guardsOf (guards.filter (·.1 ≠ i)) j = guardsOf guards j := by
  induction guards with
  | nil => rfl
  | cons p guards ih =>
    obtain ⟨k, g⟩ := p
    by_cases hk : k = j
    · subst hk
      rw [List.filter_cons_of_pos (by simpa using h), guardsOf_cons_self, guardsOf_cons_self, ih]
    · rw [guardsOf_cons_of_ne _ _ hk, List.filter_cons]
      split
      next => rw [guardsOf_cons_of_ne _ _ hk, ih]
      next => exact ih

/-- A task goes on with `next` and the guards `held`, and the others stay as they are. -/
theorem goto_spec {c c' : Config ι L S α} {i : ι} {t next : Routine L S α} {held : List (Guard L)}
    (hrest : c'.rest = Function.update c.rest i next) (hself : c'.held i = held)
    (hothers : ∀ j, j ≠ i → c'.held j = c.held j)
    (hnext : ∀ P, t.Follows P [] (c.held i) → next.Follows P [] held) :
    (∀ j, j ≠ i → c'.rest j = c.rest j ∧ c'.held j = c.held j) ∧
    ∀ P, t.Follows P [] (c.held i) → (c'.rest i).Follows P [] (c'.held i) := by
  refine ⟨fun j hj => ⟨?_, hothers j hj⟩, fun P hfollows => ?_⟩
  · rw [hrest, Function.update_of_ne hj]
  · rw [hrest, Function.update_self, hself]
    exact hnext P hfollows

/-- What one step does: the task of the step goes on, and the others stay as they are. -/
theorem step_spec {c c' : Config ι L S α} {i : ι} {o : Unit} (h : c.step i = some (c', o)) :
    (∀ j, j ≠ i → c'.rest j = c.rest j ∧ c'.held j = c.held j) ∧
    ∀ P, (c.rest i).Follows P [] (c.held i) → (c'.rest i).Follows P [] (c'.held i) := by
  unfold step at h
  cases hrest : c.rest i with
  | ret a =>
    rw [hrest] at h
    cases h
  | panic =>
    -- a task that has panicked asks for nothing any more
    rw [hrest] at h
    cases h
    refine ⟨fun j hj => ⟨rfl, guardsOf_filter_of_ne _ hj⟩, fun P _ => ?_⟩
    show (c.rest i).Follows P [] _
    rw [hrest]
    trivial
  | acquire g next =>
    rw [hrest] at h
    dsimp only at h
    split at h
    next =>
      -- the lock is free: the guard comes first among those of the task
      cases h
      exact goto_spec rfl (guardsOf_cons_self ..)
        (fun j hj => guardsOf_cons_of_ne _ _ hj.symm) fun P hfollows => hfollows.2
    next => cases h
  | release g next =>
    rw [hrest] at h
    cases h
    exact goto_spec rfl (guardsOf_erase_self ..)
      (fun j hj => guardsOf_erase_of_ne _ _ hj.symm) fun P hfollows => hfollows
  | await ready next =>
    rw [hrest] at h
    dsimp only at h
    split at h
    next =>
      cases h
      exact goto_spec rfl rfl (fun j _ => rfl) fun P hfollows => hfollows
    next => cases h
  | look cont =>
    rw [hrest] at h
    cases h
    exact goto_spec rfl rfl (fun j _ => rfl) fun P hfollows => hfollows c.state
  | update f next =>
    rw [hrest] at h
    cases h
    exact goto_spec rfl rfl (fun j _ => rfl) fun P hfollows => hfollows

/-- A guard that is held after a step was held before it, or it is what the step has taken. -/
theorem mem_held_of_step {c c' : Config ι L S α} {o : Unit} {g : Guard L}
    (h : c.step i = some (c', o)) (hg : g ∈ c'.held j) :
    g ∈ c.held j ∨ (j = i ∧ c.asks i = some g) := by
  by_cases hj : j = i
  · subst hj
    unfold step at h
    cases hrest : c.rest j with
    | ret a =>
      rw [hrest] at h
      cases h
    | acquire g' next =>
      rw [hrest] at h
      dsimp only at h
      split at h
      next =>
        cases h
        rw [held, guardsOf_cons_self] at hg
        obtain rfl | hg := List.mem_cons.mp hg
        · exact Or.inr ⟨rfl, by rw [asks, hrest]⟩
        · exact Or.inl hg
      next => cases h
    | await ready next =>
      rw [hrest] at h
      dsimp only at h
      split at h
      next =>
        cases h
        exact Or.inl hg
      next => cases h
    -- the other steps of the task take no guard
    | look | update =>
      rw [hrest] at h
      cases h
      exact Or.inl hg
    | panic =>
      rw [hrest] at h
      cases h
      rw [held, mem_guardsOf] at hg
      exact Or.inl (mem_guardsOf.mpr (List.mem_filter.mp hg).1)
    | release g' next =>
      rw [hrest] at h
      cases h
      rw [held, mem_guardsOf] at hg
      exact Or.inl (mem_guardsOf.mpr (List.mem_of_mem_erase hg))
  · rw [((step_spec h).1 j hj).2] at hg
    exact Or.inl hg

/-- Each task follows its own order. -/
def Ordered (P : ι → List (Guard L) → Guard L → Prop) (c : Config ι L S α) : Prop :=
  ∀ i, (c.rest i).Follows (P i) [] (c.held i)

variable {P : ι → List (Guard L) → Guard L → Prop}

theorem ordered_start {s : S} {tasks : ι → Routine L S α}
    (h : ∀ i, (tasks i).Follows (P i) [] []) : (start s tasks).Ordered P := h

theorem Ordered.step {c c' : Config ι L S α} {i : ι} {o : Unit} (h : c.Ordered P)
    (hstep : c.step i = some (c', o)) : c'.Ordered P := by
  obtain ⟨hothers, hself⟩ := step_spec hstep
  intro j
  by_cases hj : j = i
  · subst hj
    exact hself (P j) (h j)
  · rw [(hothers j hj).1, (hothers j hj).2]
    exact h j

/-- The order survives every interleaving. -/
theorem Ordered.run {c c' : Config ι L S α} {ok : Config ι L S α → ι → Prop} {is : List ι}
    (h : c.Ordered P) (hrun : Run Config.step ok c is c') : c'.Ordered P :=
  hrun.invariant (fun _ _ _ _ _ _ hstep hordered => hordered.step hstep) h

/-- What a task that asks for a lock holds is as its order says. -/
theorem Ordered.asks {i : ι} {g : Guard L} (h : c.Ordered P) (hasks : c.asks i = some g) :
    P i (c.held i) g := by
  have hfollows := h i
  unfold Config.asks at hasks
  cases hrest : c.rest i with
  | acquire g' next =>
    rw [hrest] at hasks hfollows
    obtain rfl := Option.some.inj hasks
    exact hfollows.1
  | _ =>
    rw [hrest] at hasks
    cases hasks

/-! ### Circles -/

omit [DecidableEq ι] [DecidableEq L] in
/-- Who is on a circle waits for somebody on a circle. -/
theorem exists_next {R : ι → ι → Prop} {i : ι} (h : Relation.TransGen R i i) :
    ∃ j, R i j ∧ Relation.TransGen R j j := by
  obtain ⟨j, hij, hji⟩ := Relation.TransGen.head'_iff.mp h
  exact ⟨j, hij, Relation.TransGen.trans_right hji (.single hij)⟩

omit [DecidableEq ι] [DecidableEq L] in
/-- No rank goes up all around a circle. -/
theorem exists_descent {R : ι → ι → Prop} (rank : ι → Nat) {i : ι}
    (h : Relation.TransGen R i i) :
    ∃ j k, R j k ∧ Relation.TransGen R j j ∧ Relation.TransGen R k k ∧ rank k ≤ rank j := by
  by_contra hno
  -- Otherwise the rank goes up along every path on the circle.
  have hup : ∀ k, Relation.TransGen R i k → Relation.ReflTransGen R k i → rank i < rank k := by
    intro k hik
    induction hik with
    | single hstep =>
      intro hback
      rename_i k
      by_contra hle
      exact hno ⟨i, k, hstep, h, (Relation.TransGen.trans_right hback (.single hstep)), by omega⟩
    | tail hpath hstep ih =>
      intro hback
      rename_i j k
      have hj := ih (.head hstep hback)
      by_contra hle
      refine hno ⟨j, k, hstep, ?_, ?_, by omega⟩
      · exact (Relation.TransGen.head' hstep hback).trans hpath
      · exact Relation.TransGen.trans_right hback (hpath.tail hstep)
  exact Nat.lt_irrefl _ (hup i h .refl)

/-- A task holds a guard and asks for another. -/
def Stuck (c : Config ι L S α) (i : ι) (guard asked : Guard L) : Prop :=
  guard ∈ c.held i ∧ c.asks i = some asked

omit [DecidableEq L] in
theorem Stuck.waits {guard asked guard' asked' : Guard L} (h : c.Stuck i guard asked)
    (h' : c.Stuck j guard' asked') (hno : ¬ guard'.Admits asked) :
    c.Waits i j :=
  ⟨asked, guard', h.2, mem_guardsOf.mp h'.1, hno⟩

omit [DecidableEq ι] [DecidableEq L] in
theorem circular_mayWait (h : Circular c.Waits) : Circular c.MayWait := by
  obtain ⟨i, hi⟩ := h
  exact ⟨i, hi.lift id fun _ _ => mayWait_of_waits⟩

/-- Who is on a circle asks for a lock, as its order says, that the next one holds. -/
theorem Ordered.next_on_circle (h : c.Ordered P) {i : ι} (hi : Relation.TransGen c.MayWait i i) :
    ∃ j asked guard, Relation.TransGen c.MayWait j j ∧ c.asks i = some asked ∧
      P i (c.held i) asked ∧ guard ∈ c.held j ∧ guard.lock = asked.lock := by
  obtain ⟨j, ⟨asked, guard, hasks, hguard, hlock⟩, hj⟩ := exists_next hi
  exact ⟨j, asked, guard, hj, hasks, h.asks hasks, mem_guardsOf.mpr hguard, hlock⟩

/-- On every circle somebody asks for a lock that is not above one that it holds. -/
theorem Ordered.exists_fall (h : c.Ordered P) (rank : L → Nat) (hcircle : Circular c.MayWait) :
    ∃ i asked guard, Relation.TransGen c.MayWait i i ∧ c.Stuck i guard asked ∧
      P i (c.held i) asked ∧ rank asked.lock ≤ rank guard.lock := by
  obtain ⟨_, hcircle⟩ := hcircle
  obtain ⟨j, i, ⟨asked, guard, hasks, hguard, hlock⟩, _, hi, hrank⟩ :=
    exists_descent (fun i => (c.asks i).elim 0 fun asked => rank asked.lock) hcircle
  obtain ⟨_, asked', _, _, hasks', hasking, _, _⟩ := h.next_on_circle hi
  refine ⟨i, asked', guard, hi, ⟨mem_guardsOf.mpr hguard, hasks'⟩, hasking, ?_⟩
  rw [hasks, hasks'] at hrank
  rw [hlock]
  exact hrank

/-- Tasks that follow their order wait in a circle exactly if they have crossed, if crossed tasks
wait for each other and a circle is crossed. Along a run that keeps them separate they do not. -/
theorem circular_iff_of_ordered {ok : Config ι L S α → ι → Prop}
    {crossed separate : Config ι L S α → Prop} (hstart : c.Ordered P)
    (hcrossed : ∀ c : Config ι L S α, c.Ordered P → Circular c.MayWait → crossed c)
    (hcircular : ∀ c : Config ι L S α, crossed c → Circular c.Waits) (hseparate : separate c)
    (hstep : ∀ c i c' o, separate c → ok c i → step c i = some (c', o) → separate c')
    (hapart : ∀ c : Config ι L S α, c.Ordered P → separate c → ¬ crossed c) :
    (∀ is c', Run step (fun _ _ => True) c is c' →
      (Circular c'.Waits ↔ crossed c') ∧ (Circular c'.MayWait ↔ crossed c')) ∧
    ∀ is c', Run step ok c is c' → ¬ Circular c'.Waits ∧ ¬ Circular c'.MayWait := by
  constructor
  · intro is c' hrun
    have hcrossed := hcrossed c' (hstart.run hrun)
    exact ⟨⟨fun h => hcrossed (circular_mayWait h), hcircular c'⟩,
      ⟨hcrossed, fun h => circular_mayWait (hcircular c' h)⟩⟩
  · intro is c' hrun
    have hkept : separate c' :=
      hrun.invariant (fun c i c' o _ hok he h => hstep c i c' o h hok he) hseparate
    have hno : ¬ Circular c'.MayWait := fun h =>
      hapart c' (hstart.run hrun) hkept (hcrossed c' (hstart.run hrun) h)
    exact ⟨fun h => hno (circular_mayWait h), hno⟩

end Config

end InterBit.Lib
