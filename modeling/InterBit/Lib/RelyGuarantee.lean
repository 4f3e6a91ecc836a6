import InterBit.Lib.Run
import Mathlib.Logic.Function.Basic
import Mathlib.Logic.Relation

/-!
# Calls that are cut into atomic sections

A call over a shared state takes one section after another. Each section is atomic, as under a lock
that is held all through it, and the sections of other calls come in between.

`Meets R G Q B t P` is the rule for one call: from a state with `P`, and while the others do no more
than `R`, each section of `t` does no more than `G`, what `t` returns is as `Q` says, and a panic
leaves a state as `B` says. If what each call does is what the others rely on, the rule holds for
all of them at once, in every interleaving (`Keeping.run`).
-/

namespace InterBit.Lib

/-- What a call does next. The rest of the call depends on the state before the section. -/
inductive Sections (S α : Type) where
  | done (a : α)
  | panicked
  | atomic (change : S → S) (next : S → Sections S α)

namespace Sections

variable {S α β : Type}

/-- Run `t`, then `f` on its result. -/
def bind : Sections S α → (α → Sections S β) → Sections S β
  | .done a, f => f a
  | .panicked, _ => .panicked
  | .atomic change next, f => .atomic change fun s => (next s).bind f

instance : Monad (Sections S) where
  pure := .done
  bind := bind

/-- A call that is one section; `none` is a panic. -/
def perform (f : S → S × Option α) : Sections S α :=
  .atomic (fun s => (f s).1) fun s => (f s).2.elim .panicked .done

/-- A section that only reads. -/
def get (f : S → α) : Sections S α := .atomic id fun s => .done (f s)

/-- The call, if nobody comes in between. -/
def alone : Sections S α → S → S × Option α
  | .done a, s => (s, some a)
  | .panicked, s => (s, none)
  | .atomic change next, s => (next s).alone (change s)

/-- What the others do keeps `P`. -/
def Stable (R : S → S → Prop) (P : S → Prop) : Prop := ∀ s s', P s → R s s' → P s'

/-- The rule for a call. -/
def Meets (R G : S → S → Prop) (Q : α → S → Prop) (B : S → Prop) :
    Sections S α → (S → Prop) → Prop
  | .done a, P => ∀ s, P s → Q a s
  | .panicked, P => ∀ s, P s → B s
  | .atomic change next, P => ∀ s, P s → G s (change s) ∧
      ∃ P', Stable R P' ∧ P' (change s) ∧ (next s).Meets R G Q B P'

variable {R G : S → S → Prop} {Q : α → S → Prop} {B P : S → Prop}

theorem Meets.of_imp {t : Sections S α} {P' : S → Prop} (h : t.Meets R G Q B P)
    (hP : ∀ s, P' s → P s) : t.Meets R G Q B P' := by
  cases t with
  | done a => exact fun s hs => h s (hP s hs)
  | panicked => exact fun s hs => h s (hP s hs)
  | atomic change next => exact fun s hs => h s (hP s hs)

theorem Meets.mono {t : Sections S α} {Q' : α → S → Prop} {G' : S → S → Prop}
    (h : t.Meets R G Q B P) (hG : ∀ s s', G s s' → G' s s') (hQ : ∀ a s, Q a s → Q' a s) :
    t.Meets R G' Q' B P := by
  induction t generalizing P with
  | done a => exact fun s hs => hQ a s (h s hs)
  | panicked => exact h
  | atomic change next ih =>
    intro s hs
    obtain ⟨hchange, P', hstable, hP', hnext⟩ := h s hs
    exact ⟨hG _ _ hchange, P', hstable, hP', ih s hnext⟩

/-- One call after another. -/
theorem Meets.bind {t : Sections S α} {f : α → Sections S β} {Q' : β → S → Prop}
    (h : t.Meets R G Q B P) (hf : ∀ a, (f a).Meets R G Q' B (Q a)) :
    (t >>= f).Meets R G Q' B P := by
  induction t generalizing P with
  | done a => exact (hf a).of_imp h
  | panicked => exact h
  | atomic change next ih =>
    intro s hs
    obtain ⟨hchange, P', hstable, hP', hnext⟩ := h s hs
    exact ⟨hchange, P', hstable, hP', ih s hnext⟩

theorem Meets.map {t : Sections S α} {f : α → β} {Q' : β → S → Prop} (h : t.Meets R G Q B P)
    (hQ : ∀ a s, Q a s → Q' (f a) s) : (f <$> t).Meets R G Q' B P :=
  h.bind fun a s hs => hQ a s hs

/-- The rule for one section. -/
theorem meets_perform {f : S → S × Option α}
    (hG : ∀ s, P s → G s (f s).1)
    (hQ : ∀ s a, P s → (f s).2 = some a → Q a (f s).1) (hQR : ∀ a, Stable R (Q a))
    (hB : ∀ s, P s → (f s).2 = none → B (f s).1) (hBR : Stable R B) :
    (perform f).Meets R G Q B P := by
  intro s hs
  refine ⟨hG s hs, ?_⟩
  dsimp only
  cases hresult : (f s).2 with
  | none => exact ⟨B, hBR, hB s hs hresult, fun _ h => h⟩
  | some a => exact ⟨Q a, hQR a, hQ s a hs hresult, fun _ h => h⟩

/-- The rule for a section that only reads. -/
theorem meets_get {f : S → α} (hG : ∀ s, G s s) (hQ : ∀ s, P s → Q (f s) s)
    (hQR : ∀ a, Stable R (Q a)) : (get f).Meets R G Q B P :=
  fun s hs => ⟨hG s, Q (f s), hQR (f s), hQ s hs, fun _ h => h⟩

end Sections

/-- Calls in progress: the state, and what is left of each call. -/
structure Interleaved (ι S α : Type) where
  state : S
  rest : ι → Sections S α

namespace Interleaved

open Sections

variable {ι S α : Type} [DecidableEq ι]

/-- The next section of a call. -/
def step (c : Interleaved ι S α) (i : ι) : Option (Interleaved ι S α × Unit) :=
  match c.rest i with
  | .atomic change next =>
    some (⟨change c.state, Function.update c.rest i (next c.state)⟩, ())
  | _ => none

variable {R G : ι → S → S → Prop} {Q : ι → α → S → Prop} {B : ι → S → Prop}
  {c c' : Interleaved ι S α}

/-- What a step is. -/
theorem step_cases {i : ι} {o : Unit} (h : c.step i = some (c', o)) :
    ∃ change next, c.rest i = .atomic change next ∧
      c' = ⟨change c.state, Function.update c.rest i (next c.state)⟩ := by
  unfold step at h
  cases hrest : c.rest i with
  | atomic change next =>
    rw [hrest] at h
    cases h
    exact ⟨change, next, rfl, rfl⟩
  | _ =>
    rw [hrest] at h
    cases h

/-- What is left of each call meets its rule. -/
def Keeping (R G : ι → S → S → Prop) (Q : ι → α → S → Prop) (B : ι → S → Prop)
    (c : Interleaved ι S α) : Prop :=
  ∀ i, ∃ P, Stable (R i) P ∧ P c.state ∧ (c.rest i).Meets (R i) (G i) (Q i) (B i) P

theorem Keeping.step (hrely : ∀ i j s s', i ≠ j → G j s s' → R i s s')
    (h : c.Keeping R G Q B) {i : ι} {o : Unit} (hstep : c.step i = some (c', o)) :
    G i c.state c'.state ∧ c'.Keeping R G Q B := by
  obtain ⟨change, next, hrest, rfl⟩ := step_cases hstep
  obtain ⟨P, _, hP, hmeets⟩ := h i
  rw [hrest] at hmeets
  obtain ⟨hG, P', hstable', hP', hnext⟩ := hmeets c.state hP
  refine ⟨hG, fun j => ?_⟩
  by_cases hj : j = i
  · refine ⟨P', hj ▸ hstable', hP', ?_⟩
    show (Function.update c.rest i (next c.state) j).Meets _ _ _ _ _
    rw [hj, Function.update_self]
    exact hnext
  · obtain ⟨Pj, hstable, hPj, hmeets⟩ := h j
    refine ⟨Pj, hstable, hstable _ _ hPj (hrely j i _ _ hj hG), ?_⟩
    show (Function.update c.rest i (next c.state) j).Meets _ _ _ _ _
    rw [Function.update_of_ne hj]
    exact hmeets

/-- The rules hold all along a run, and what it does comes from what the calls may do. -/
theorem Keeping.run (hrely : ∀ i j s s', i ≠ j → G j s s' → R i s s')
    (h : c.Keeping R G Q B) {ok : Interleaved ι S α → ι → Prop} {is : List ι}
    (hrun : Run Interleaved.step ok c is c') :
    Relation.ReflTransGen (fun s s' => ∃ i, G i s s') c.state c'.state ∧ c'.Keeping R G Q B := by
  have hstep : ∀ (a : Interleaved ι S α) (i : ι) (b : Interleaved ι S α) (o : Unit), i ∈ is →
      ok a i → a.step i = some (b, o) →
      Relation.ReflTransGen (fun s s' => ∃ i, G i s s') c.state a.state ∧ a.Keeping R G Q B →
      Relation.ReflTransGen (fun s s' => ∃ i, G i s s') c.state b.state ∧ b.Keeping R G Q B := by
    intro a i b o _ _ hab hkept
    obtain ⟨hG, hb⟩ := hkept.2.step hrely hab
    exact ⟨hkept.1.tail ⟨i, hG⟩, hb⟩
  exact hrun.invariant hstep ⟨.refl, h⟩

omit [DecidableEq ι] in
/-- What a call has returned. -/
theorem Keeping.returned (h : c.Keeping R G Q B) {i : ι} {a : α} (hdone : c.rest i = .done a) :
    Q i a c.state := by
  obtain ⟨P, _, hP, hmeets⟩ := h i
  rw [hdone] at hmeets
  exact hmeets c.state hP

omit [DecidableEq ι] in
/-- What a panic has left. -/
theorem Keeping.of_panicked (h : c.Keeping R G Q B) {i : ι} (hpanic : c.rest i = .panicked) :
    B i c.state := by
  obtain ⟨P, _, hP, hmeets⟩ := h i
  rw [hpanic] at hmeets
  exact hmeets c.state hP

omit [DecidableEq ι] in
/-- What all the calls may do keeps `I`. -/
theorem invariant_of_changes {I : S → Prop} (hI : ∀ i s s', G i s s' → I s → I s') {s s' : S}
    (h : Relation.ReflTransGen (fun s s' => ∃ i, G i s s') s s') (hs : I s) : I s' := by
  induction h with
  | refl => exact hs
  | tail _ hstep ih =>
    obtain ⟨i, hG⟩ := hstep
    exact hI i _ _ hG ih

end Interleaved

end InterBit.Lib
