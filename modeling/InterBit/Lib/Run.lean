/-!
# Runs of a guarded step function

A concurrent component is a step function: `step s a` is the state after the
action `a` together with what the action returns, or `none` where `a` is not
enabled. An action says who moves and how each free choice falls out, so a list
of actions is one interleaving, and it can be replayed.

`Run step ok` are the runs in which each action meets the condition `ok` in the
state it is taken in. `Run.invariant` is the one induction over runs: a property
that every such step preserves holds at the end if it holds at the start.
-/

namespace InterBit.Lib

variable {S A O : Type}

/-- The run from a state through a list of actions to a state. -/
inductive Run (step : S → A → Option (S × O)) (ok : S → A → Prop) : S → List A → S → Prop
  | nil {s : S} : Run step ok s [] s
  | cons {s s' t : S} {a : A} {o : O} {as : List A} : ok s a → step s a = some (s', o) →
      Run step ok s' as t → Run step ok s (a :: as) t

variable {step : S → A → Option (S × O)} {ok : S → A → Prop}

/-- What every step of a run preserves holds at its end. -/
theorem Run.invariant {I : S → Prop} {s t : S} {as : List A} (h : Run step ok s as t)
    (hstep : ∀ s a s' o, a ∈ as → ok s a → step s a = some (s', o) → I s → I s') (hs : I s) :
    I t := by
  induction h with
  | nil => exact hs
  | cons hok he _ ih =>
    exact ih (fun s a s' o ha => hstep s a s' o (List.mem_cons_of_mem _ ha))
      (hstep _ _ _ _ (List.mem_cons_self ..) hok he hs)

/-- A run that meets a condition meets a weaker one. -/
theorem Run.mono {ok' : S → A → Prop} {s t : S} {as : List A} (h : Run step ok s as t)
    (hok : ∀ s a, ok s a → ok' s a) : Run step ok' s as t := by
  induction h with
  | nil => exact .nil
  | cons hone he _ ih => exact .cons (hok _ _ hone) he ih

/-- One run after another. -/
theorem Run.append {s t u : S} {as bs : List A} (h : Run step ok s as t)
    (h' : Run step ok t bs u) : Run step ok s (as ++ bs) u := by
  induction h with
  | nil => exact h'
  | cons hok he _ ih => exact .cons hok he (ih h')

/-- Replay of a list of actions. -/
def replay (step : S → A → Option (S × O)) : S → List A → Option S
  | s, [] => some s
  | s, a :: as =>
    match step s a with
    | some (s', _) => replay step s' as
    | none => none

/-- A replay is a run without a condition. -/
theorem run_of_replay {s t : S} {as : List A} (h : replay step s as = some t) :
    Run step (fun _ _ => True) s as t := by
  induction as generalizing s with
  | nil => exact Option.some.inj h ▸ .nil
  | cons a as ih =>
    unfold replay at h
    cases he : step s a with
    | none =>
      rw [he] at h
      cases h
    | some r =>
      rw [he] at h
      exact .cons trivial he (ih h)

end InterBit.Lib
