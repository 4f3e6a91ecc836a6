import Mathlib.Logic.Function.Basic

/-!
# Programs over a shared memory

A task reads and writes single cells of a shared memory, and may stop with an
error or a panic. `Prog` is the tree of what it does next; each read and each
write is one atomic access. The same program can be run alone (`run`) or one
access at a time among others (`advance`).

Two properties serve to reason about programs that run among others:
- `Confined R W p m`: run from `m`, the program reads only cells in `R` and
  writes only cells in `W`. It does not see the other cells (`Confined.run_congr`)
  and leaves them alone (`Confined.run_frame`);
- `Keeps P C t Q p u`: whatever the others do within the rules, the program of task
  `t` does not fail and leaves to each task still in `u` what that task needs.
-/

namespace InterBit.Lib

/-- A program over a memory from `K` to `V` that gives an `α`, an error of type
`ε`, or a panic. -/
inductive Prog (K V ε α : Type) where
  | ret (a : α)
  | fail (e : ε)
  | panic
  | read (k : K) (cont : Option V → Prog K V ε α)
  | write (k : K) (v : V) (cont : Prog K V ε α)

/-- How a program ends. -/
inductive Outcome (ε α : Type) where
  | ok (a : α)
  | err (e : ε)
  | panicked
  deriving DecidableEq, Repr

/-- How a program ends that turns its error into a result. -/
def Outcome.attempted {ε ε' α : Type} : Outcome ε α → Outcome ε' (Except ε α)
  | .ok a => .ok (.ok a)
  | .err e => .ok (.error e)
  | .panicked => .panicked

/-- The value of a program that returns. -/
def Outcome.value {ε α : Type} : Outcome ε α → Option α
  | .ok a => some a
  | _ => none

/-- A memory. -/
abbrev Memory (K V : Type) := K → Option V

/-- Two memories agree on a set of cells. -/
def AgreeOn {K V : Type} (S : K → Prop) (m m' : Memory K V) : Prop := ∀ k, S k → m k = m' k

theorem AgreeOn.trans {K V : Type} {S : K → Prop} {a b c : Memory K V} (h : AgreeOn S a b)
    (h' : AgreeOn S b c) : AgreeOn S a c := fun k hk => (h k hk).trans (h' k hk)

theorem AgreeOn.update {K V : Type} [DecidableEq K] {S : K → Prop} {m m' : Memory K V}
    (h : AgreeOn S m m') (k : K) (v : Option V) :
    AgreeOn S (Function.update m k v) (Function.update m' k v) := by
  intro x hx
  by_cases hxk : x = k
  · rw [hxk, Function.update_self, Function.update_self]
  · rw [Function.update_of_ne hxk, Function.update_of_ne hxk]
    exact h x hx

namespace Prog

variable {K V ε α β : Type}

/-- Run `p`, then `f` on its result. -/
def bind : Prog K V ε α → (α → Prog K V ε β) → Prog K V ε β
  | .ret a, f => f a
  | .fail e, _ => .fail e
  | .panic, _ => .panic
  | .read k cont, f => .read k fun v => (cont v).bind f
  | .write k v cont, f => .write k v (cont.bind f)

instance : Monad (Prog K V ε) where
  pure := .ret
  bind := bind

/-- The value, or stop with `e`. -/
def orFail (e : ε) : Option α → Prog K V ε α
  | some a => .ret a
  | none => .fail e

/-- The value, or panic. -/
def orPanic : Option α → Prog K V ε α
  | some a => .ret a
  | none => .panic

/-- Stop with `e` unless `c` holds. -/
def require (c : Prop) [Decidable c] (e : ε) : Prog K V ε Unit :=
  if c then .ret () else .fail e

/-- Run `p` and give its result or its error. -/
def attempt {ε' : Type} : Prog K V ε α → Prog K V ε' (Except ε α)
  | .ret a => .ret (.ok a)
  | .fail e => .ret (.error e)
  | .panic => .panic
  | .read k cont => .read k fun v => (cont v).attempt
  | .write k v cont => .write k v cont.attempt

@[simp] theorem pure_eq (a : α) : (pure a : Prog K V ε α) = .ret a := rfl

@[simp] theorem bind_ret (a : α) (f : α → Prog K V ε β) : (Prog.ret a >>= f) = f a := rfl

@[simp] theorem bind_fail (e : ε) (f : α → Prog K V ε β) : (Prog.fail e >>= f) = .fail e := rfl

@[simp] theorem bind_panic (f : α → Prog K V ε β) : (Prog.panic >>= f) = .panic := rfl

@[simp] theorem bind_read (k : K) (cont : Option V → Prog K V ε α) (f : α → Prog K V ε β) :
    (Prog.read k cont >>= f) = .read k fun v => cont v >>= f := rfl

@[simp] theorem bind_write (k : K) (v : V) (cont : Prog K V ε α) (f : α → Prog K V ε β) :
    (Prog.write k v cont >>= f) = .write k v (cont >>= f) := rfl

/-- Sequences may be bracketed either way. -/
theorem bind_assoc {γ : Type} (p : Prog K V ε α) (f : α → Prog K V ε β) (g : β → Prog K V ε γ) :
    (p >>= f >>= g) = p >>= fun a => f a >>= g := by
  induction p with
  | ret a => rfl
  | fail e => rfl
  | panic => rfl
  | read k cont ih => exact congrArg (Prog.read k) (funext ih)
  | write k v cont ih => exact congrArg (Prog.write k v) ih

theorem require_bind_of {c : Prop} [Decidable c] (h : c) (e : ε) (f : Unit → Prog K V ε β) :
    (require c e >>= f) = f () := by
  unfold require
  rw [if_pos h, bind_ret]

theorem orFail_bind_of {o : Option α} {a : α} (h : o = some a) (e : ε) (f : α → Prog K V ε β) :
    (orFail e o >>= f) = f a := by
  rw [h, orFail, bind_ret]

theorem orPanic_bind_of {o : Option α} {a : α} (h : o = some a) (f : α → Prog K V ε β) :
    (orPanic o >>= f) = f a := by
  rw [h, orPanic, bind_ret]

section Run

variable [DecidableEq K]

/-- Run alone from a memory. -/
def run : Prog K V ε α → Memory K V → Outcome ε α × Memory K V
  | .ret a, m => (.ok a, m)
  | .fail e, m => (.err e, m)
  | .panic, m => (.panicked, m)
  | .read k cont, m => run (cont (m k)) m
  | .write k v cont, m => run cont (Function.update m k (some v))

/-- One access: the program that is left, and the memory. -/
def advance : Prog K V ε α → Memory K V → Option (Prog K V ε α × Memory K V)
  | .read k cont, m => some (cont (m k), m)
  | .write k v cont, m => some (cont, Function.update m k (some v))
  | _, _ => none

variable {m m' : Memory K V} {p : Prog K V ε α} {f : α → Prog K V ε β}

/-- An access does not change what a run alone gives. -/
theorem run_advance {p p' : Prog K V ε α} (h : p.advance m = some (p', m')) :
    p'.run m' = p.run m := by
  cases p with
  | ret a => cases h
  | fail e => cases h
  | panic => cases h
  | read k cont =>
    cases h
    rfl
  | write k v cont =>
    cases h
    rfl

/-- How a program ends that makes no more accesses. -/
def ended : Prog K V ε α → Option (Outcome ε α)
  | .ret a => some (.ok a)
  | .fail e => some (.err e)
  | .panic => some .panicked
  | _ => none

theorem run_of_ended {o : Outcome ε α} (h : p.ended = some o) (m : Memory K V) :
    p.run m = (o, m) := by
  cases p <;> cases h <;> rfl

/-- A program has ended or can make an access. -/
theorem ended_or_advance (p : Prog K V ε α) (m : Memory K V) :
    (∃ o, p.ended = some o) ∨ ∃ p' m', p.advance m = some (p', m') := by
  cases p with
  | ret a => exact Or.inl ⟨_, rfl⟩
  | fail e => exact Or.inl ⟨_, rfl⟩
  | panic => exact Or.inl ⟨_, rfl⟩
  | read k cont => exact Or.inr ⟨_, _, rfl⟩
  | write k v cont => exact Or.inr ⟨_, _, rfl⟩

/-- The number of accesses of a run alone. -/
def accesses : Prog K V ε α → Memory K V → Nat
  | .read k cont, m => accesses (cont (m k)) m + 1
  | .write k v cont, m => accesses cont (Function.update m k (some v)) + 1
  | _, _ => 0

theorem accesses_advance {p p' : Prog K V ε α} (h : p.advance m = some (p', m')) :
    p.accesses m = p'.accesses m' + 1 := by
  cases p <;> cases h <;> rfl

theorem accesses_bind (p : Prog K V ε α) (f : α → Prog K V ε β) : ∀ m : Memory K V,
    (p >>= f).accesses m = p.accesses m + match p.run m with
      | (.ok a, m') => (f a).accesses m'
      | _ => 0 := by
  induction p with
  | ret a => exact fun m => (Nat.zero_add _).symm
  | fail e => exact fun m => rfl
  | panic => exact fun m => rfl
  | read k cont ih =>
    intro m
    show accesses (cont (m k) >>= f) m + 1 = accesses (cont (m k)) m + 1 + _
    rw [ih (m k) m, Nat.add_right_comm]
    rfl
  | write k v cont ih =>
    intro m
    show accesses (cont >>= f) _ + 1 = accesses cont _ + 1 + _
    rw [ih (Function.update m k (some v)), Nat.add_right_comm]
    rfl

/-- To catch an error costs no access. -/
theorem accesses_attempt {ε' : Type} (p : Prog K V ε α) : ∀ m : Memory K V,
    (p.attempt : Prog K V ε' (Except ε α)).accesses m = p.accesses m := by
  induction p with
  | ret a => exact fun m => rfl
  | fail e => exact fun m => rfl
  | panic => exact fun m => rfl
  | read k cont ih => exact fun m => congrArg (· + 1) (ih (m k) m)
  | write k v cont ih => exact fun m => congrArg (· + 1) (ih (Function.update m k (some v)))

theorem run_bind (p : Prog K V ε α) (f : α → Prog K V ε β) : ∀ m : Memory K V,
    (p >>= f).run m = match p.run m with
      | (.ok a, m') => (f a).run m'
      | (.err e, m') => (.err e, m')
      | (.panicked, m') => (.panicked, m') := by
  induction p with
  | ret a => exact fun m => rfl
  | fail e => exact fun m => rfl
  | panic => exact fun m => rfl
  | read k cont ih => exact fun m => ih (m k) m
  | write k v cont ih => exact fun m => ih (Function.update m k (some v))

theorem run_attempt {ε' : Type} (p : Prog K V ε α) : ∀ m : Memory K V,
    (p.attempt : Prog K V ε' (Except ε α)).run m = ((p.run m).1.attempted, (p.run m).2) := by
  induction p with
  | ret a => exact fun m => rfl
  | fail e => exact fun m => rfl
  | panic => exact fun m => rfl
  | read k cont ih => exact fun m => ih (m k) m
  | write k v cont ih => exact fun m => ih (Function.update m k (some v))

/-- A bound on the accesses of two parts. -/
theorem accesses_bind_le {m : Memory K V} {i j : Nat} (hp : p.accesses m ≤ i)
    (hf : ∀ a m', p.run m = (.ok a, m') → (f a).accesses m' ≤ j) :
    (p >>= f).accesses m ≤ i + j := by
  rw [accesses_bind]
  match hr : p.run m with
  | (.ok a, m') => exact Nat.add_le_add hp (hf a m' hr)
  | (.err e, m') => exact Nat.le_add_right_of_le hp
  | (.panicked, m') => exact Nat.le_add_right_of_le hp

/-- A run that returns comes from a first part that returns. -/
theorem run_bind_ok {b : β} (h : (p >>= f).run m = (.ok b, m')) :
    ∃ a m₁, p.run m = (.ok a, m₁) ∧ (f a).run m₁ = (.ok b, m') := by
  rw [run_bind] at h
  match hp : p.run m with
  | (.ok a, m₁) =>
    rw [hp] at h
    exact ⟨a, m₁, rfl, h⟩
  | (.err e, m₁) =>
    rw [hp] at h
    cases h
  | (.panicked, m₁) =>
    rw [hp] at h
    cases h

theorem run_require_ok {c : Prop} [Decidable c] {e : ε} {f : Unit → Prog K V ε β} {b : β}
    (h : (require c e >>= f).run m = (.ok b, m')) :
    c ∧ (f ()).run m = (.ok b, m') := by
  unfold require at h
  split at h
  next hc => exact ⟨hc, h⟩
  next => cases h

theorem run_orFail_ok {e : ε} {o : Option α} {b : β} (h : (orFail e o >>= f).run m = (.ok b, m')) :
    ∃ a, o = some a ∧ (f a).run m = (.ok b, m') := by
  cases o with
  | none => cases h
  | some a => exact ⟨a, rfl, h⟩

theorem run_orPanic_ok {o : Option α} {b : β} (h : (orPanic o >>= f).run m = (.ok b, m')) :
    ∃ a, o = some a ∧ (f a).run m = (.ok b, m') := by
  cases o with
  | none => cases h
  | some a => exact ⟨a, rfl, h⟩

/-! ## Read-only programs -/

/-- The program never writes. -/
def ReadOnly : Prog K V ε α → Prop
  | .read _ cont => ∀ v, ReadOnly (cont v)
  | .write _ _ _ => False
  | _ => True

omit [DecidableEq K] in
theorem ReadOnly.bind (h : p.ReadOnly) (hf : ∀ a, (f a).ReadOnly) : (p >>= f).ReadOnly := by
  induction p with
  | ret a => exact hf a
  | fail e => trivial
  | panic => trivial
  | read k cont ih => exact fun v => ih v (h v)
  | write k v cont _ => exact h.elim

omit [DecidableEq K] in
theorem readOnly_require (c : Prop) [Decidable c] (e : ε) :
    (require c e : Prog K V ε Unit).ReadOnly := by
  unfold require
  split <;> trivial

omit [DecidableEq K] in
theorem readOnly_orFail (e : ε) (o : Option α) : (orFail e o : Prog K V ε α).ReadOnly := by
  cases o <;> trivial

omit [DecidableEq K] in
theorem readOnly_orPanic (o : Option α) : (orPanic o : Prog K V ε α).ReadOnly := by
  cases o <;> trivial

/-- A read-only program leaves the memory as it is. -/
theorem ReadOnly.run (h : p.ReadOnly) (m : Memory K V) : (p.run m).2 = m := by
  induction p with
  | ret a => rfl
  | fail e => rfl
  | panic => rfl
  | read k cont ih => exact ih (m k) (h (m k))
  | write k v cont _ => exact h.elim

/-- A run that returns, after a read-only first part. -/
theorem ReadOnly.run_bind_ok {b : β} (hp : p.ReadOnly) (h : (p >>= f).run m = (.ok b, m')) :
    ∃ a, p.run m = (.ok a, m) ∧ (f a).run m = (.ok b, m') := by
  obtain ⟨a, m₁, ha, hf⟩ := Prog.run_bind_ok h
  have hm := hp.run m
  rw [ha] at hm
  obtain rfl : m₁ = m := hm
  exact ⟨a, ha, hf⟩

/-! ## Confined programs -/

/-- Run from `m`, the program reads in `R` and writes in `W`. -/
def Confined (R W : K → Prop) : Prog K V ε α → Memory K V → Prop
  | .read k cont, m => R k ∧ Confined R W (cont (m k)) m
  | .write k v cont, m => W k ∧ Confined R W cont (Function.update m k (some v))
  | _, _ => True

variable {R W : K → Prop}

/-- A confined program sees nothing outside `R`. -/
theorem Confined.run_congr (h : p.Confined R W m) (hagree : AgreeOn R m m') :
    (p.run m').1 = (p.run m).1 ∧ AgreeOn R (p.run m).2 (p.run m').2 ∧ p.Confined R W m' := by
  induction p generalizing m m' with
  | ret a => exact ⟨rfl, hagree, trivial⟩
  | fail e => exact ⟨rfl, hagree, trivial⟩
  | panic => exact ⟨rfl, hagree, trivial⟩
  | read k cont ih =>
    obtain ⟨hk, hc⟩ := h
    obtain ⟨h₁, h₂, h₃⟩ := ih (m k) hc hagree
    simp only [run, Confined]
    rw [← hagree k hk]
    exact ⟨h₁, h₂, hk, h₃⟩
  | write k v cont ih =>
    obtain ⟨hk, hc⟩ := h
    obtain ⟨h₁, h₂, h₃⟩ := ih hc (hagree.update k (some v))
    exact ⟨h₁, h₂, hk, h₃⟩

/-- It makes the same accesses in a memory that agrees on `R`. -/
theorem Confined.accesses_congr (h : p.Confined R W m) (hagree : AgreeOn R m m') :
    p.accesses m' = p.accesses m := by
  induction p generalizing m m' with
  | ret a => rfl
  | fail e => rfl
  | panic => rfl
  | read k cont ih =>
    simp only [accesses]
    rw [← hagree k h.1, ih (m k) h.2 hagree]
  | write k v cont ih =>
    simp only [accesses]
    rw [ih h.2 (hagree.update k (some v))]

/-- A confined program leaves everything outside `W` alone. -/
theorem Confined.run_frame {m : Memory K V} (h : p.Confined R W m) {k : K} (hk : ¬ W k) :
    (p.run m).2 k = m k := by
  induction p generalizing m with
  | ret a => rfl
  | fail e => rfl
  | panic => rfl
  | read j cont ih => exact ih (m j) h.2
  | write j v cont ih =>
    have hj : k ≠ j := fun he => hk (he ▸ h.1)
    rw [run, ih h.2, Function.update_of_ne hj]

/-- One access of a confined program. -/
theorem Confined.advance {p p' : Prog K V ε α} (h : p.Confined R W m)
    (ha : p.advance m = some (p', m')) : p'.Confined R W m' ∧ ∀ k, ¬ W k → m' k = m k := by
  cases p with
  | ret a => cases ha
  | fail e => cases ha
  | panic => cases ha
  | read k cont =>
    cases ha
    exact ⟨h.2, fun _ _ => rfl⟩
  | write k v cont =>
    cases ha
    exact ⟨h.2, fun j hj => Function.update_of_ne (fun he => hj (by rw [he]; exact h.1)) ..⟩

theorem Confined.bind {m : Memory K V} (h : p.Confined R W m)
    (hf : ∀ a m', p.run m = (.ok a, m') → (f a).Confined R W m') :
    (p >>= f).Confined R W m := by
  induction p generalizing m with
  | ret a => exact hf a m rfl
  | fail e => trivial
  | panic => trivial
  | read k cont ih => exact ⟨h.1, ih (m k) h.2 hf⟩
  | write k v cont ih => exact ⟨h.1, ih h.2 hf⟩

/-- A larger footprint is kept to as well. -/
theorem Confined.mono {R' W' : K → Prop} {m : Memory K V} (h : p.Confined R W m)
    (hR : ∀ k, R k → R' k) (hW : ∀ k, W k → W' k) : p.Confined R' W' m := by
  induction p generalizing m with
  | ret a => trivial
  | fail e => trivial
  | panic => trivial
  | read k cont ih => exact ⟨hR k h.1, ih (m k) h.2⟩
  | write k v cont ih => exact ⟨hW k h.1, ih h.2⟩

theorem Confined.attempt {ε' : Type} {m : Memory K V} (h : p.Confined R W m) :
    (p.attempt : Prog K V ε' (Except ε α)).Confined R W m := by
  induction p generalizing m with
  | ret a => trivial
  | fail e => trivial
  | panic => trivial
  | read k cont ih => exact ⟨h.1, ih (m k) h.2⟩
  | write k v cont ih => exact ⟨h.1, ih h.2⟩

/-- A read-only program writes nowhere. -/
theorem ReadOnly.confined (h : p.ReadOnly) (m : Memory K V) : p.Confined (fun _ => True) W m := by
  induction p with
  | ret a => trivial
  | fail e => trivial
  | panic => trivial
  | read k cont ih => exact ⟨trivial, ih (m k) (h (m k))⟩
  | write k v cont _ => exact h.elim

/-- Run from `m`, the program reads cell `k`. -/
def Reads (k : K) : Prog K V ε α → Memory K V → Prop
  | .read j cont, m => j = k ∨ Reads k (cont (m j)) m
  | .write j v cont, m => Reads k cont (Function.update m j (some v))
  | _, _ => False

/-- Run from `m`, the program writes cell `k`. -/
def Writes (k : K) : Prog K V ε α → Memory K V → Prop
  | .read j cont, m => Writes k (cont (m j)) m
  | .write j v cont, m => j = k ∨ Writes k cont (Function.update m j (some v))
  | _, _ => False

/-- A program is confined to sets with all that it reads and writes. -/
theorem confined_iff {m : Memory K V} :
    p.Confined R W m ↔ (∀ k, p.Reads k m → R k) ∧ ∀ k, p.Writes k m → W k := by
  induction p generalizing m with
  | ret a => exact ⟨fun _ => ⟨fun _ => False.elim, fun _ => False.elim⟩, fun _ => trivial⟩
  | fail e => exact ⟨fun _ => ⟨fun _ => False.elim, fun _ => False.elim⟩, fun _ => trivial⟩
  | panic => exact ⟨fun _ => ⟨fun _ => False.elim, fun _ => False.elim⟩, fun _ => trivial⟩
  | read j cont ih =>
    show R j ∧ _ ↔ _
    rw [ih (m j)]
    constructor
    · rintro ⟨hj, hR, hW⟩
      exact ⟨fun k hk => hk.elim (fun he => he ▸ hj) (hR k), hW⟩
    · rintro ⟨hR, hW⟩
      exact ⟨hR j (Or.inl rfl), fun k hk => hR k (Or.inr hk), hW⟩
  | write j v cont ih =>
    show W j ∧ _ ↔ _
    rw [ih]
    constructor
    · rintro ⟨hj, hR, hW⟩
      exact ⟨hR, fun k hk => hk.elim (fun he => he ▸ hj) (hW k)⟩
    · rintro ⟨hR, hW⟩
      exact ⟨hW j (Or.inl rfl), hR, fun k hk => hW k (Or.inr hk)⟩

/-- A cell that a run changes is written. -/
theorem writes_of_changed {m : Memory K V} {k : K} (h : (p.run m).2 k ≠ m k) : p.Writes k m := by
  have hconfined : p.Confined (p.Reads · m) (p.Writes · m) m :=
    confined_iff.mpr ⟨fun _ => id, fun _ => id⟩
  by_contra hno
  exact h (hconfined.run_frame hno)

theorem confined_require (c : Prop) [Decidable c] (e : ε) (m : Memory K V) :
    (require c e : Prog K V ε Unit).Confined R W m := by
  unfold require
  split <;> trivial

theorem confined_orFail (e : ε) (o : Option α) (m : Memory K V) :
    (orFail e o : Prog K V ε α).Confined R W m := by
  cases o <;> trivial

theorem confined_orPanic (o : Option α) (m : Memory K V) :
    (orPanic o : Prog K V ε α).Confined R W m := by
  cases o <;> trivial

end Run

/-! ## What a program returns -/

section Yields

variable {P : α → Prop}

/-- Whatever it reads, what the program returns is as `P` says. -/
def Yields (P : α → Prop) : Prog K V ε α → Prop
  | .ret a => P a
  | .read _ cont => ∀ v, Yields P (cont v)
  | .write _ _ cont => Yields P cont
  | _ => True

theorem yields_true (p : Prog K V ε α) : p.Yields fun _ => True := by
  induction p with
  | ret a => trivial
  | fail e => trivial
  | panic => trivial
  | read k cont ih => exact ih
  | write k v cont ih => exact ih

theorem Yields.bind {Q : β → Prop} {p : Prog K V ε α} {f : α → Prog K V ε β} (h : p.Yields P)
    (hf : ∀ a, P a → (f a).Yields Q) : (p >>= f).Yields Q := by
  induction p with
  | ret a => exact hf a h
  | fail e => trivial
  | panic => trivial
  | read k cont ih => exact fun v => ih v (h v)
  | write k v cont ih => exact ih h

/-- Only what the program can return matters for what comes next. -/
theorem Yields.bind_congr {p : Prog K V ε α} {f g : α → Prog K V ε β} (h : p.Yields P)
    (hfg : ∀ a, P a → f a = g a) : (p >>= f) = (p >>= g) := by
  induction p with
  | ret a => exact hfg a h
  | fail e => rfl
  | panic => rfl
  | read k cont ih => exact congrArg (Prog.read k) (funext fun v => ih v (h v))
  | write k v cont ih => exact congrArg (Prog.write k v) (ih h)

theorem yields_require (c : Prop) [Decidable c] (e : ε) :
    (require c e : Prog K V ε Unit).Yields fun _ => c := by
  unfold require
  split
  next hc => exact hc
  next => trivial

theorem yields_orPanic (o : Option α) :
    (orPanic o : Prog K V ε α).Yields fun a => o = some a := by
  cases o with
  | none => trivial
  | some a => exact rfl

end Yields

/-! ## Programs that keep what others need -/

section Keeps

variable {τ : Type} {P : τ → K → Option V → Prop} {C : K → Option V → Prop} {t : τ}
  {Q : α → (τ → Prop) → Prop} {u u' : τ → Prop}

variable (P C t Q) in
/-- A permanent condition `C` on the cells, and for each task `s` a condition `P s`
that it needs until it writes itself; `u` are the tasks that have not written yet.
Reading what meets these conditions, with fewer and fewer tasks in `u`, the
program of task `t` never fails, each of its writes meets `C` and leaves to
the other tasks in `u` what they need, and a result comes with `Q`. -/
def Keeps : Prog K V ε α → (τ → Prop) → Prop
  | .ret a, u => Q a u
  | .panic, _ => True
  | .fail _, _ => False
  | .read k cont, u => ∀ u' : τ → Prop, (∀ s, u' s → u s) → (u t → u' t) →
      ∀ v, C k v → (∀ s, u' s → P s k v) → Keeps (cont v) u'
  | .write k v cont, u => C k (some v) ∧ (∀ s, u s → s ≠ t → P s k (some v)) ∧
      Keeps cont fun s => u s ∧ s ≠ t

/-- The others have written meanwhile. -/
theorem Keeps.mono (hQ : ∀ a u u', Q a u → (∀ s, u' s → u s) → (u t → u' t) → Q a u')
    {p : Prog K V ε α} (h : p.Keeps P C t Q u) (hu : ∀ s, u' s → u s) (ht : u t → u' t) :
    p.Keeps P C t Q u' := by
  induction p generalizing u u' with
  | ret a => exact hQ a u u' h hu ht
  | fail e => exact h
  | panic => trivial
  | read k cont _ =>
    intro u'' hu'' ht''
    exact h u'' (fun s hs => hu s (hu'' s hs)) (fun hut => ht'' (ht hut))
  | write k v cont ih =>
    obtain ⟨hC, hP, hk⟩ := h
    exact ⟨hC, fun s hs => hP s (hu s hs), ih hk (fun s hs => ⟨hu s hs.1, hs.2⟩)
      (fun hf => absurd rfl hf.2)⟩

/-- Two parts. -/
theorem Keeps.bind {Q' : β → (τ → Prop) → Prop} {p : Prog K V ε α} {f : α → Prog K V ε β}
    (h : p.Keeps P C t Q u) (hf : ∀ a u, Q a u → (f a).Keeps P C t Q' u) :
    (p >>= f).Keeps P C t Q' u := by
  induction p generalizing u with
  | ret a => exact hf a u h
  | fail e => exact h.elim
  | panic => trivial
  | read k cont ih => exact fun u' hu ht v hC hP => ih v (h u' hu ht v hC hP)
  | write k v cont ih => exact ⟨h.1, h.2.1, ih h.2.2⟩

theorem keeps_require {c : Prop} [Decidable c] {e : ε} {Q : Unit → (τ → Prop) → Prop} (hc : c)
    (hQ : Q () u) : (require c e : Prog K V ε Unit).Keeps P C t Q u := by
  unfold require
  rw [if_pos hc]
  exact hQ

theorem keeps_orPanic {o : Option α} (hQ : ∀ a, o = some a → Q a u) :
    (orPanic o : Prog K V ε α).Keeps P C t Q u := by
  cases o with
  | none => trivial
  | some a => exact hQ a rfl

end Keeps

end Prog

end InterBit.Lib
