/-!
# Runs of a total step function

`step s a` is the state after the action `a`, which is always possible. `Always step p`
says that along a list of actions each one meets `p` in the state it is taken in. With it
a law about whole runs is an equivalence: `always_iff` proves it from the one step, under
an invariant that the good steps keep.
-/

namespace InterBit.Lib

variable {S A : Type} {step : S → A → S} {p q : S → A → Prop} {I : S → Prop}

/-- Each action of the run meets `p` in the state it is taken in. -/
def Always (step : S → A → S) (p : S → A → Prop) : S → List A → Prop
  | _, [] => True
  | s, a :: as => p s a ∧ Always step p (step s a) as

instance instDecidableAlways [∀ s a, Decidable (p s a)] :
    ∀ (s : S) (as : List A), Decidable (Always step p s as)
  | _, [] => .isTrue trivial
  | s, a :: as =>
    have := instDecidableAlways (step s a) as
    inferInstanceAs (Decidable (p s a ∧ Always step p (step s a) as))

theorem Always.append {s : S} {as bs : List A} :
    Always step p s (as ++ bs) ↔ Always step p s as ∧ Always step p (as.foldl step s) bs := by
  induction as generalizing s with
  | nil => exact (and_iff_right trivial).symm
  | cons a as ih => exact (and_congr_right fun _ => ih).trans and_assoc.symm

theorem always_of_forall {s : S} {as : List A}
    (h : ∀ before a after, as = before ++ a :: after → p (before.foldl step s) a) :
    Always step p s as := by
  induction as generalizing s with
  | nil => trivial
  | cons a as ih =>
    refine ⟨h [] a as rfl, ih fun before b after heq => ?_⟩
    exact h (a :: before) b after (by rw [heq, List.cons_append])

theorem Always.and {s : S} {as : List A} (hp : Always step p s as) (hq : Always step q s as) :
    Always step (fun s a => p s a ∧ q s a) s as := by
  induction as generalizing s with
  | nil => trivial
  | cons a as ih => exact ⟨⟨hp.1, hq.1⟩, ih hp.2 hq.2⟩

/-- What every good step preserves holds at the end of the run. -/
theorem Always.invariant {s : S} {as : List A} (h : Always step p s as) (hs : I s)
    (hstep : ∀ s a, I s → p s a → I (step s a)) : I (as.foldl step s) := by
  induction as generalizing s with
  | nil => exact hs
  | cons a as ih => exact ih h.2 (hstep s a hs h.1)

/-- If the good steps keep an invariant under which they do `q`, a run of good steps
always does `q`. -/
theorem Always.mono {s : S} {as : List A} (h : Always step p s as) (hs : I s)
    (hstep : ∀ s a, I s → p s a → I (step s a)) (hq : ∀ s a, I s → p s a → q s a) :
    Always step q s as := by
  induction as generalizing s with
  | nil => trivial
  | cons a as ih => exact ⟨hq s a hs h.1, ih h.2 (hstep s a hs h.1)⟩

/-- Two conditions that say the same of each step are the same for runs. -/
theorem always_iff {s : S} {as : List A} (hs : I s)
    (hstep : ∀ s a, I s → p s a → I (step s a)) (hiff : ∀ s a, I s → (q s a ↔ p s a)) :
    Always step q s as ↔ Always step p s as := by
  constructor
  · intro h
    exact h.mono hs (fun s a hs hq => hstep s a hs ((hiff s a hs).mp hq))
      fun s a hs => (hiff s a hs).mp
  · intro h
    exact h.mono hs hstep fun s a hs => (hiff s a hs).mpr

/-- The same in a run whose actions meet a condition of their own. -/
theorem always_iff_of {r : S → A → Prop} {s : S} {as : List A} (hr : Always step r s as) (hs : I s)
    (hstep : ∀ s a, I s → r s a → p s a → I (step s a))
    (hiff : ∀ s a, I s → r s a → (q s a ↔ p s a)) :
    Always step q s as ↔ Always step p s as := by
  constructor
  · intro h
    refine (h.and hr).mono hs ?_ fun s a hs ⟨hq, hr⟩ => (hiff s a hs hr).mp hq
    exact fun s a hs ⟨hq, hr⟩ => hstep s a hs hr ((hiff s a hs hr).mp hq)
  · intro h
    refine (h.and hr).mono hs ?_ fun s a hs ⟨hp, hr⟩ => (hiff s a hs hr).mpr hp
    exact fun s a hs ⟨hp, hr⟩ => hstep s a hs hr hp

end InterBit.Lib
