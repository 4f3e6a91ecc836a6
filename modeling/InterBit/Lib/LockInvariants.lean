import InterBit.Lib.Locks
import Mathlib.Data.List.Pairwise
import Mathlib.Data.List.Perm.Subperm

/-!
# What holds while tasks take locks

A step of one task among others is a step of its routine (`Routine.Step`), and the other tasks stay
as they are. So a property of the state that each routine keeps by itself holds in every
interleaving (`WithinAll.run`). `Within` does not follow a routine beyond a lock for which it waits
because of what it holds itself: it never gets there.

Two tasks never hold guards that exclude each other (`Exclusive.run`), and a task that asks for a
lock that it excludes itself from stays where it is (`harmless_of_step`). So a task that keeps a
guard until it asks for one that excludes it keeps it for ever, and what is only changed under
guards that this one excludes is not changed any more (`ShutOut.run`).
-/

namespace InterBit.Lib

/-- The same guard among other locks. -/
def Guard.map {L L' : Type} (lock : L → L') (g : Guard L) : Guard L' := ⟨lock g.lock, g.mode⟩

instance {L : Type} : Std.Symm (Guard.Admits (L := L)) where
  symm _ _ h := fun hlock => (h hlock.symm).symm

theorem Guard.Admits.symm {L : Type} {g g' : Guard L} (h : g.Admits g') : g'.Admits g :=
  fun hlock => (h hlock.symm).symm

namespace Routine

variable {L S α β : Type} [DecidableEq L]

/-- One operation, with the guards before and after it. -/
inductive Step : Routine L S α → List (Guard L) → S → Routine L S α → List (Guard L) → S → Prop
  | panic {held : List (Guard L)} {s : S} : Step .panic held s .panic [] s
  | acquire {g : Guard L} {next : Routine L S α} {held : List (Guard L)} {s : S} :
      Harmless held g → Step (.acquire g next) held s next (g :: held) s
  | release {g : Guard L} {next : Routine L S α} {held : List (Guard L)} {s : S} :
      Step (.release g next) held s next (held.erase g) s
  | await {ready : S → Bool} {next : Routine L S α} {held : List (Guard L)} {s : S} :
      ready s = true → Step (.await ready next) held s next held s
  | look {cont : S → Routine L S α} {held : List (Guard L)} {s : S} :
      Step (.look cont) held s (cont s) held s
  | update {f : S → S} {next : Routine L S α} {held : List (Guard L)} {s : S} :
      Step (.update f next) held s next held (f s)

/-! ## What a routine keeps -/

/-- In states with `I` each change is as `R` says, and the result is as `Q` says. -/
def Within (I : S → Prop) (R : S → S → Prop) (Q : α → Prop) :
    Routine L S α → List (Guard L) → Prop
  | .ret a, _ => Q a
  | .panic, _ => True
  | .acquire g next, held => Harmless held g → next.Within I R Q (g :: held)
  | .release g next, held => next.Within I R Q (held.erase g)
  | .await _ next, held => next.Within I R Q held
  | .look cont, held => ∀ s, I s → (cont s).Within I R Q held
  | .update f next, held => (∀ s, I s → R s (f s)) ∧ next.Within I R Q held

variable {I : S → Prop} {R : S → S → Prop} {held : List (Guard L)}

variable {t : Routine L S α} {f : α → Routine L S β} {Q : α → Prop}

theorem Within.bind {P : α → Prop} {Q : β → Prop} (h : t.Within I R P held)
    (hf : ∀ a held, P a → (f a).Within I R Q held) :
    (t >>= f).Within I R Q held := by
  induction t generalizing held with
  | ret a => exact hf a held h
  | panic => trivial
  | acquire g next ih => exact fun hg => ih (h hg)
  | release g next ih => exact ih h
  | await ready next ih => exact ih h
  | look cont ih => exact fun s hs => ih s (h s hs)
  | update u next ih => exact ⟨h.1, ih h.2⟩

/-- With more guards a routine comes less far. -/
theorem Within.mono_held {held' : List (Guard L)} (h : t.Within I R Q held)
    (hsub : held.Subperm held') : t.Within I R Q held' := by
  induction t generalizing held held' with
  | ret a => exact h
  | panic => trivial
  | acquire g next ih =>
    intro hg
    exact ih (h fun own hown => hg own (hsub.subset hown)) ((List.subperm_cons g).mpr hsub)
  | release g next ih => exact ih h (hsub.erase g)
  | await ready next ih => exact ih h hsub
  | look cont ih => exact fun s hs => ih s (h s hs) hsub
  | update u next ih => exact ⟨h.1, ih h.2 hsub⟩

theorem Within.of_nil (h : t.Within I R Q []) (held : List (Guard L)) : t.Within I R Q held :=
  h.mono_held List.nil_subperm

theorem within_guarded {g : Guard L} {body : Routine L S α} (h : body.Within I R Q (g :: held)) :
    (guarded g body).Within I R Q held :=
  fun _ => h.bind fun _ _ ha => ha

theorem within_get {f : S → α} (h : ∀ s, I s → Q (f s)) :
    (get f : Routine L S α).Within I R Q held := h

theorem within_perform {f : S → S × Option α} (hR : ∀ s, I s → R s (f s).1)
    (hQ : ∀ s, I s → ∀ a ∈ (f s).2, Q a) : (perform f : Routine L S α).Within I R Q held := by
  intro s hs
  refine ⟨hR, ?_⟩
  cases hresult : (f s).2 with
  | none => trivial
  | some a => exact hQ s hs a hresult

/-- What a routine keeps, its steps keep. -/
theorem Within.step {Q : α → Prop} {t t' : Routine L S α} {held' : List (Guard L)} {s s' : S}
    (hstep : Step t held s t' held' s') (h : t.Within I R Q held) (hs : I s) :
    t'.Within I R Q held' ∧ (s' = s ∨ R s s') := by
  cases hstep with
  | panic => exact ⟨trivial, .inl rfl⟩
  | acquire hg => exact ⟨h hg, .inl rfl⟩
  | release => exact ⟨h, .inl rfl⟩
  | await => exact ⟨h, .inl rfl⟩
  | look => exact ⟨h s hs, .inl rfl⟩
  | update => exact ⟨h.2, .inr (h.1 s hs)⟩

/-! ## Changes under guards -/

/-- Each change is as `R` says of the guards that are held, and the result is as `Q` says. -/
def Abides (R : List (Guard L) → S → S → Prop) (Q : α → Prop) :
    Routine L S α → List (Guard L) → Prop
  | .ret a, _ => Q a
  | .panic, _ => True
  | .acquire g next, held => Harmless held g → next.Abides R Q (g :: held)
  | .release g next, held => next.Abides R Q (held.erase g)
  | .await _ next, held => next.Abides R Q held
  | .look cont, held => ∀ s, (cont s).Abides R Q held
  | .update f next, held => (∀ s, R held s (f s)) ∧ next.Abides R Q held

variable {RG : List (Guard L) → S → S → Prop}

theorem Abides.bind {P : α → Prop} {Q : β → Prop} (h : t.Abides RG P held)
    (hf : ∀ a held, P a → (f a).Abides RG Q held) :
    (t >>= f).Abides RG Q held := by
  induction t generalizing held with
  | ret a => exact hf a held h
  | panic => trivial
  | acquire g next ih => exact fun hg => ih (h hg)
  | release g next ih => exact ih h
  | await ready next ih => exact ih h
  | look cont ih => exact fun s => ih s (h s)
  | update u next ih => exact ⟨h.1, ih h.2⟩

theorem abides_guarded {g : Guard L} {body : Routine L S α}
    (h : Harmless held g → body.Abides RG Q (g :: held)) : (guarded g body).Abides RG Q held :=
  fun hg => (h hg).bind fun _ _ ha => ha

theorem abides_perform {f : S → S × Option α} (hR : ∀ s, RG held s (f s).1)
    (hQ : ∀ s, ∀ a ∈ (f s).2, Q a) : (perform f : Routine L S α).Abides RG Q held := by
  intro s
  refine ⟨hR, ?_⟩
  cases hresult : (f s).2 with
  | none => trivial
  | some a => exact hQ s a hresult

theorem Abides.step {Q : α → Prop} {t t' : Routine L S α} {held' : List (Guard L)} {s s' : S}
    (hstep : Step t held s t' held' s') (h : t.Abides RG Q held) :
    t'.Abides RG Q held' ∧ (s' = s ∨ RG held s s') := by
  cases hstep with
  | panic => exact ⟨trivial, .inl rfl⟩
  | acquire hg => exact ⟨h hg, .inl rfl⟩
  | release => exact ⟨h, .inl rfl⟩
  | await => exact ⟨h, .inl rfl⟩
  | look => exact ⟨h s, .inl rfl⟩
  | update => exact ⟨h.2, .inr (h.1 s)⟩

/-- What a routine holds does not exclude itself. -/
theorem Step.pairwise {t t' : Routine L S α} {held held' : List (Guard L)} {s s' : S}
    (hstep : Step t held s t' held' s') (h : held.Pairwise Guard.Admits) :
    held'.Pairwise Guard.Admits := by
  cases hstep with
  | panic => exact .nil
  | acquire hg => exact List.pairwise_cons.mpr ⟨fun own hown => (hg own hown).symm, h⟩
  | release => exact h.sublist List.erase_sublist
  | await | look | update => exact h

/-- As long as the state is as `P` says, the routine keeps the guard until it asks for one that this
one excludes. -/
def ShutsOut (own : Guard L) (P : S → Prop) : Routine L S α → Prop
  | .ret _ | .panic => False
  | .acquire g next => own.Admits g → next.ShutsOut own P
  | .release g next => g ≠ own ∧ next.ShutsOut own P
  | .await _ next | .update _ next => next.ShutsOut own P
  | .look cont => ∀ s, P s → (cont s).ShutsOut own P

variable {own : Guard L} {P : S → Prop}

omit [DecidableEq L] in
theorem ShutsOut.bind (h : t.ShutsOut own P) : (t >>= f).ShutsOut own P := by
  induction t with
  | ret | panic => cases h
  | acquire g next ih => exact fun hg => ih (h hg)
  | release g next ih => exact ⟨h.1, ih h.2⟩
  | await ready next ih => exact ih h
  | look cont ih => exact fun s hs => ih s (h s hs)
  | update u next ih => exact ih h

theorem ShutsOut.step {t t' : Routine L S α} {held' : List (Guard L)} {s s' : S}
    (hstep : Step t held s t' held' s') (h : t.ShutsOut own P) (hown : own ∈ held) (hs : P s) :
    own ∈ held' ∧ t'.ShutsOut own P := by
  cases hstep with
  | panic => cases h
  | acquire hg => exact ⟨List.mem_cons_of_mem _ hown, h (hg own hown)⟩
  | release => exact ⟨(List.mem_erase_of_ne h.1.symm).mpr hown, h.2⟩
  | await => exact ⟨hown, h⟩
  | look => exact ⟨hown, h s hs⟩
  | update => exact ⟨hown, h⟩

/-! ## A routine over a part of the state -/

variable {L' S' : Type} [DecidableEq L']

/-- A routine over a part of the state, with its locks among others. -/
def onPart (lock : L → L') (get : S' → S) (set : S → S' → S') : Routine L S α → Routine L' S' α
  | .ret a => .ret a
  | .panic => .panic
  | .acquire g next => .acquire (g.map lock) (next.onPart lock get set)
  | .release g next => .release (g.map lock) (next.onPart lock get set)
  | .await ready next => .await (fun s => ready (get s)) (next.onPart lock get set)
  | .look cont => .look fun s => (cont (get s)).onPart lock get set
  | .update f next => .update (fun s => set (f (get s)) s) (next.onPart lock get set)

variable {lock : L → L'} {get : S' → S} {set : S → S' → S'}

omit [DecidableEq L] [DecidableEq L'] in
theorem harmless_of_map {held : List (Guard L)} {g : Guard L}
    (h : Harmless (held.map (Guard.map lock)) (g.map lock)) : Harmless held g :=
  fun own hown hlock => h (own.map lock) (List.mem_map_of_mem hown) (congrArg lock hlock)

omit [DecidableEq L] [DecidableEq L'] in
theorem map_injective (hlock : Function.Injective lock) : Function.Injective (Guard.map lock) := by
  rintro ⟨lock₁, mode⟩ ⟨lock₂, mode'⟩ heq
  obtain ⟨hsame, hmode⟩ := Guard.mk.inj heq
  exact congrArg₂ Guard.mk (hlock hsame) hmode

/-- What a routine keeps of its part, it keeps among others. -/
theorem Within.onPart (hlock : Function.Injective lock) (h : t.Within I R Q held) {I' : S' → Prop}
    {R' : S' → S' → Prop} (hI : ∀ s, I' s → I (get s))
    (hR : ∀ s x, I' s → R (get s) x → R' s (set x s)) :
    (t.onPart lock get set).Within I' R' Q (held.map (Guard.map lock)) := by
  induction t generalizing held with
  | ret a => exact h
  | panic => trivial
  | acquire g next ih => exact fun hg => ih (h (harmless_of_map hg))
  | release g next ih =>
    have herase := @ih (held.erase g) h
    rwa [List.map_erase (map_injective hlock)] at herase
  | await ready next ih => exact ih h
  | look cont ih => exact fun s hs => ih (get s) (h (get s) (hI s hs))
  | update u next ih => exact ⟨fun s hs => hR s _ hs (h.1 (get s) (hI s hs)), ih h.2⟩

end Routine

/-! ## Tasks among others -/

namespace Config

variable {ι L S α : Type} [DecidableEq ι] [DecidableEq L]

variable {c c' : Config ι L S α} {ok : Config ι L S α → ι → Prop} {is : List ι}

/-- A step of a task is a step of its routine, and the others stay as they are. -/
theorem step_local {i : ι} {o : Unit} (h : c.step i = some (c', o)) :
    Routine.Step (c.rest i) (c.held i) c.state (c'.rest i) (c'.held i) c'.state ∧
    ∀ j, j ≠ i → c'.rest j = c.rest j ∧ c'.held j = c.held j := by
  refine ⟨?_, (step_spec h).1⟩
  unfold step at h
  cases hrest : c.rest i with
  | ret a =>
    rw [hrest] at h
    cases h
  | panic =>
    rw [hrest] at h
    cases h
    -- a panic gives back all guards of the task
    have hnone : guardsOf (c.guards.filter (·.1 ≠ i)) i = [] := by
      refine List.filterMap_eq_nil_iff.mpr fun p hp => if_neg ?_
      exact of_decide_eq_true (List.mem_filter.mp hp).2
    change Routine.Step _ _ _ (c.rest i) (guardsOf (c.guards.filter (·.1 ≠ i)) i) _
    rw [hrest, hnone]
    exact .panic
  | acquire g next =>
    rw [hrest] at h
    dsimp only at h
    split at h
    next hfree =>
      cases h
      -- a guard that is free of all tasks is free of the task itself
      have hharmless : Harmless (c.held i) g := fun own hown =>
        hfree (i, own) (mem_guardsOf.mp hown)
      simpa [held, guardsOf_cons_self] using Routine.Step.acquire hharmless
    next => cases h
  | release g next =>
    rw [hrest] at h
    cases h
    simpa [held, guardsOf_erase_self] using Routine.Step.release
  | await ready next =>
    rw [hrest] at h
    dsimp only at h
    split at h
    next hready =>
      cases h
      simpa [held] using Routine.Step.await hready
    next => cases h
  | look cont =>
    rw [hrest] at h
    cases h
    simpa [held] using Routine.Step.look
  | update f next =>
    rw [hrest] at h
    cases h
    simpa [held] using Routine.Step.update

/-- A step that takes a lock finds it free of whatever excludes it. -/
theorem harmless_of_step {i : ι} {o : Unit} {g : Guard L} (h : c.step i = some (c', o))
    (hasks : c.asks i = some g) (j : ι) : Harmless (c.held j) g := by
  unfold asks at hasks
  unfold step at h
  cases hrest : c.rest i with
  | acquire g' next =>
    rw [hrest] at h hasks
    obtain rfl := Option.some.inj hasks
    dsimp only at h
    split at h
    next hfree => exact fun own hown => hfree (j, own) (mem_guardsOf.mp hown)
    next => cases h
  | _ =>
    rw [hrest] at hasks
    cases hasks

/-- What two tasks hold does not exclude each other. -/
def Exclusive (c : Config ι L S α) : Prop :=
  ∀ i j, i ≠ j → ∀ g ∈ c.held i, Harmless (c.held j) g

theorem Exclusive.step {c c' : Config ι L S α} {i : ι} {o : Unit} (h : c.Exclusive)
    (hstep : c.step i = some (c', o)) : c'.Exclusive := by
  intro j k hjk g hg own hown
  rcases mem_held_of_step hstep hg with hg | ⟨rfl, hasks⟩
  · rcases mem_held_of_step hstep hown with hown | ⟨rfl, hasks⟩
    · exact h j k hjk g hg own hown
    · exact (harmless_of_step hstep hasks j g hg).symm
  · rw [((step_spec hstep).1 k hjk.symm).2] at hown
    exact harmless_of_step hstep hasks k own hown

omit [DecidableEq L] in
theorem exclusive_start (s : S) (tasks : ι → Routine L S α) : (start s tasks).Exclusive :=
  fun _ _ _ _ hg => absurd hg List.not_mem_nil

theorem Exclusive.run (h : c.Exclusive) (hrun : Run Config.step ok c is c') : c'.Exclusive :=
  hrun.invariant (fun _ _ _ _ _ _ hstep hexclusive => hexclusive.step hstep) h

omit [DecidableEq L] in
/-- Two tasks do not hold the same lock for writing. -/
theorem Exclusive.eq_of_write {c : Config ι L S α} (h : c.Exclusive) {i j : ι} {lock : L}
    (hi : ⟨lock, .write⟩ ∈ c.held i) (hj : ⟨lock, .write⟩ ∈ c.held j) : i = j := by
  by_contra hij
  exact not_admits_write (h i j hij _ hi _ hj)

/-- The invariant holds, and every task keeps it. -/
structure WithinAll (I : S → Prop) (R : ι → S → S → Prop) (Q : ι → α → Prop)
    (c : Config ι L S α) : Prop where
  state : I c.state
  rest : ∀ i, (c.rest i).Within I (R i) (Q i) (c.held i)

variable {I : S → Prop} {R : ι → S → S → Prop} {Q : ι → α → Prop}

theorem WithinAll.step {c c' : Config ι L S α} {i : ι} {o : Unit} (h : c.WithinAll I R Q)
    (hR : ∀ i s s', R i s s' → I s') (hstep : c.step i = some (c', o)) :
    c'.WithinAll I R Q ∧ (c'.state = c.state ∨ R i c.state c'.state) := by
  obtain ⟨hself, hothers⟩ := step_local hstep
  obtain ⟨hnext, hstate⟩ := (h.rest i).step hself h.state
  refine ⟨⟨?_, fun j => ?_⟩, hstate⟩
  · rcases hstate with hsame | hchange
    · rw [hsame]
      exact h.state
    · exact hR i _ _ hchange
  · by_cases hj : j = i
    · subst hj
      exact hnext
    · rw [(hothers j hj).1, (hothers j hj).2]
      exact h.rest j

theorem WithinAll.run (h : c.WithinAll I R Q) (hR : ∀ i s s', R i s s' → I s')
    (hrun : Run Config.step ok c is c') : c'.WithinAll I R Q :=
  hrun.invariant (fun _ _ _ _ _ _ hstep hwithin => (hwithin.step hR hstep).1) h

/-- What a task has returned. -/
theorem WithinAll.returned {c : Config ι L S α} (h : c.WithinAll I R Q) {i : ι} {a : α}
    (hret : c.rest i = .ret a) : Q i a := by
  have hwithin := h.rest i
  rwa [hret] at hwithin

/-! ### Tasks that shut themselves out -/

/-- Every task makes its changes under guards as `R` says. -/
def AbidesAll (R : List (Guard L) → S → S → Prop) (Q : ι → α → Prop) (c : Config ι L S α) : Prop :=
  ∀ i, (c.rest i).Abides R (Q i) (c.held i)

variable {RG : List (Guard L) → S → S → Prop}

theorem AbidesAll.step {c c' : Config ι L S α} {i : ι} {o : Unit} (h : c.AbidesAll RG Q)
    (hstep : c.step i = some (c', o)) :
    c'.AbidesAll RG Q ∧ (c'.state = c.state ∨ RG (c.held i) c.state c'.state) := by
  obtain ⟨hself, hothers⟩ := step_local hstep
  obtain ⟨hnext, hstate⟩ := (h i).step hself
  refine ⟨fun j => ?_, hstate⟩
  by_cases hj : j = i
  · subst hj
    exact hnext
  · rw [(hothers j hj).1, (hothers j hj).2]
    exact h j

theorem AbidesAll.run (h : c.AbidesAll RG Q) (hrun : Run Config.step ok c is c') :
    c'.AbidesAll RG Q :=
  hrun.invariant (I := fun c => c.AbidesAll RG Q)
    (fun _ _ _ _ _ _ hstep habides => (habides.step hstep).1) h

/-- What a task holds does not exclude itself. -/
def Compatible (c : Config ι L S α) : Prop := ∀ i, (c.held i).Pairwise Guard.Admits

theorem Compatible.step {c c' : Config ι L S α} {i : ι} {o : Unit} (h : c.Compatible)
    (hstep : c.step i = some (c', o)) : c'.Compatible := by
  obtain ⟨hself, hothers⟩ := step_local hstep
  intro j
  by_cases hj : j = i
  · subst hj
    exact hself.pairwise (h j)
  · rw [(hothers j hj).2]
    exact h j

omit [DecidableEq L] in
theorem compatible_start (s : S) (tasks : ι → Routine L S α) : (start s tasks).Compatible :=
  fun _ => .nil

theorem Compatible.run (h : c.Compatible) (hrun : Run Config.step ok c is c') : c'.Compatible :=
  hrun.invariant (I := fun c => c.Compatible) (fun _ _ _ _ _ _ hstep h => h.step hstep) h

omit [DecidableEq L] in
/-- Nobody holds what a guard excludes that somebody holds. -/
theorem admits_of_held {c : Config ι L S α} (hexclusive : c.Exclusive) (hcompatible : c.Compatible)
    {i j : ι} {own g : Guard L} (hown : own ∈ c.held i) (hg : g ∈ c.held j)
    (hself : own.Admits own) : own.Admits g := by
  by_cases hij : i = j
  · subst hij
    by_cases heq : own = g
    · exact heq ▸ hself
    · exact (hcompatible i).forall hown hg heq
  · exact hexclusive j i (Ne.symm hij) g hg own hown

/-- The task holds a guard that it keeps until it asks for one that this one excludes. -/
def ShutOut (c : Config ι L S α) (i : ι) (own : Guard L) (P : S → Prop) : Prop :=
  own ∈ c.held i ∧ (c.rest i).ShutsOut own P

theorem ShutOut.step {c c' : Config ι L S α} {i j : ι} {o : Unit} {own : Guard L} {P : S → Prop}
    (h : c.ShutOut i own P) (hP : P c.state) (hstep : c.step j = some (c', o)) :
    c'.ShutOut i own P := by
  obtain ⟨hself, hothers⟩ := step_local hstep
  by_cases hij : i = j
  · subst hij
    exact h.2.step hself h.1 hP
  · rw [ShutOut, (hothers i hij).1, (hothers i hij).2]
    exact h

omit [DecidableEq L] in
theorem ShutOut.not_returned {c : Config ι L S α} {i : ι} {own : Guard L} {P : S → Prop}
    (h : c.ShutOut i own P) (a : α) : c.rest i ≠ .ret a := by
  intro hret
  have hshuts := h.2
  rw [hret] at hshuts
  cases hshuts

/-- Once a task has shut itself out it stays so, and so does what is only changed under guards that
the task excludes. -/
theorem ShutOut.run {i : ι} {own : Guard L} {P : S → Prop} (h : c.ShutOut i own P) (hP : P c.state)
    (hexclusive : c.Exclusive) (hcompatible : c.Compatible) (hself : own.Admits own)
    (habides : c.AbidesAll RG Q)
    (hkeeps : ∀ held s s', RG held s s' → (P s → P s') ∨ ∃ g ∈ held, ¬ own.Admits g)
    (hrun : Run Config.step ok c is c') : c'.ShutOut i own P ∧ P c'.state := by
  have hall : (c'.ShutOut i own P ∧ P c'.state) ∧ c'.Exclusive ∧ c'.Compatible ∧
      c'.AbidesAll RG Q := by
    refine hrun.invariant (I := fun d => (d.ShutOut i own P ∧ P d.state) ∧ d.Exclusive ∧
      d.Compatible ∧ d.AbidesAll RG Q) ?_ ⟨⟨h, hP⟩, hexclusive, hcompatible, habides⟩
    rintro d j d' o - - hstep ⟨⟨hshut, hP⟩, hexclusive, hcompatible, habides⟩
    obtain ⟨habides', hstate⟩ := habides.step hstep
    refine ⟨⟨hshut.step hP hstep, ?_⟩, hexclusive.step hstep, hcompatible.step hstep, habides'⟩
    rcases hstate with hstate | hchange
    · rwa [hstate]
    · rcases hkeeps _ _ _ hchange with hkeep | ⟨g, hg, hno⟩
      · exact hkeep hP
      · exact absurd (admits_of_held hexclusive hcompatible hshut.1 hg hself) hno
  exact hall.1

end Config

end InterBit.Lib
