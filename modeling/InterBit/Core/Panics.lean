import InterBit.Core.Bytes

/-!
# Why arithmetic panics

An operation on `U256` that panics, with the cause. `Gives` is a rule of postconditions: a
computation has a result of a kind, unless a number gets too large.
-/

namespace InterBit

/-- The cause of a panic. -/
inductive PanicCause where
  | overflow
  | underflow
  | divisionByZero
  deriving DecidableEq

/-- A computation that may panic. -/
abbrev Panicking (α : Type) := Except PanicCause α

namespace Panicking

/-- The cause of a panic is known. -/
def because {α : Type} (cause : PanicCause) : Option α → Panicking α
  | none => .error cause
  | some x => .ok x

/-- `a + b`. -/
def add (a b : U256) : Panicking U256 := because .overflow (addU256 a b)

/-- `a - b`. -/
def sub (a b : U256) : Panicking U256 := because .underflow (subU256 a b)

/-- `a * b`. -/
def mul (a b : U256) : Panicking U256 := because .overflow (mulU256 a b)

/-- `a / b`. -/
def div (a b : U256) : Panicking U256 := because .divisionByZero (divU256 a b)

/-- `as_u128`. -/
def asU128 (a : U256) : Panicking U128 :=
  if a.toNat < 2 ^ 128 then .ok (a.setWidth 128) else .error .overflow

variable {α β : Type} {fits : Prop}

theorem because_eq_ok {cause : PanicCause} {result : Option α} {v : α} :
    because cause result = .ok v ↔ result = some v := by
  cases result with
  | none => exact ⟨nofun, nofun⟩
  | some w =>
    exact ⟨fun h => congrArg some (Except.ok.inj h), fun h => congrArg _ (Option.some.inj h)⟩

variable {c : Panicking α} {post : α → Prop}

/-- What returns has gone through every part. -/
theorem exists_of_bind_eq_ok {k : α → Panicking β} {w : β} (h : c >>= k = .ok w) :
    ∃ v, c = .ok v ∧ k v = .ok w := by
  cases hc : c with
  | error cause =>
    rw [hc] at h
    cases h
  | ok v =>
    rw [hc] at h
    exact ⟨v, rfl, h⟩

theorem add_eq_ok {a b c : U256} : add a b = .ok c ↔ c.toNat = a.toNat + b.toNat := by
  rw [add, because_eq_ok, addU256_eq]

theorem sub_eq_ok {a b c : U256} : sub a b = .ok c ↔ c.toNat + b.toNat = a.toNat := by
  rw [sub, because_eq_ok, subU256_eq]

theorem mul_eq_ok {a b c : U256} : mul a b = .ok c ↔ c.toNat = a.toNat * b.toNat := by
  rw [mul, because_eq_ok, mulU256_eq]

theorem div_eq_ok {a b c : U256} :
    div a b = .ok c ↔ 0 < b.toNat ∧ c.toNat = a.toNat / b.toNat := by
  rw [div, because_eq_ok, divU256_eq]

/-- The computation has a result of this kind, or it overflows, which it does not if `fits`. -/
def Gives (fits : Prop) (c : Panicking α) (post : α → Prop) : Prop :=
  (∃ v, c = .ok v ∧ post v) ∨ c = .error .overflow ∧ ¬ fits

theorem gives_pure {v : α} (h : post v) : Gives fits (pure v) post :=
  Or.inl ⟨v, rfl, h⟩

theorem Gives.bind {k : α → Panicking β} {mid : α → Prop} {post : β → Prop} (hc : Gives fits c mid)
    (hk : ∀ v, mid v → Gives fits (k v) post) :
    Gives fits (c >>= k) post := by
  rcases hc with ⟨v, rfl, hv⟩ | ⟨rfl, hfits⟩
  · exact hk v hv
  · exact Or.inr ⟨rfl, hfits⟩

/-- What is given may be weakened. -/
theorem Gives.mono {post post' : α → Prop} (hc : Gives fits c post) (h : ∀ v, post v → post' v) :
    Gives fits c post' := by
  rcases hc with ⟨v, hv, hpost⟩ | hno
  · exact Or.inl ⟨v, hv, h v hpost⟩
  · exact Or.inr hno

theorem Gives.imp {fits' : Prop} (hc : Gives fits c post) (h : fits' → fits) :
    Gives fits' c post := by
  rcases hc with hv | ⟨hc, hfits⟩
  · exact Or.inl hv
  · exact Or.inr ⟨hc, fun hfits' => hfits (h hfits')⟩

theorem Gives.of_ok {v : α} (hc : Gives fits (.ok v) post) : post v := by
  rcases hc with ⟨_, heq, hv⟩ | ⟨heq, _⟩
  · cases heq
    exact hv
  · cases heq

/-- Nothing but an overflow goes wrong. -/
theorem Gives.overflow (hc : Gives fits c post) {cause : PanicCause} (h : c = .error cause) :
    cause = .overflow := by
  rcases hc with ⟨_, heq, _⟩ | ⟨heq, _⟩
  · cases heq.symm.trans h
  · exact (Except.error.inj (heq.symm.trans h)).symm

theorem Gives.exists_ok (hc : Gives fits c post) (hfits : fits) : ∃ v, c = .ok v ∧ post v := by
  rcases hc with hv | ⟨_, hno⟩
  · exact hv
  · exact absurd hfits hno

theorem gives_add {a b : U256} (h : fits → a.toNat + b.toNat < 2 ^ 256) :
    Gives fits (add a b) fun v => v.toNat = a.toNat + b.toNat := by
  unfold add
  cases hsum : addU256 a b with
  | none =>
    refine Or.inr ⟨rfl, fun hfits => ?_⟩
    have hsome := addU256_isSome.mpr (h hfits)
    rw [hsum] at hsome
    cases hsome
  | some v => exact Or.inl ⟨v, rfl, addU256_eq.mp hsum⟩

theorem gives_mul {a b : U256} (h : fits → a.toNat * b.toNat < 2 ^ 256) :
    Gives fits (mul a b) fun v => v.toNat = a.toNat * b.toNat := by
  unfold mul
  cases hproduct : mulU256 a b with
  | none =>
    refine Or.inr ⟨rfl, fun hfits => ?_⟩
    have hsome := mulU256_isSome.mpr (h hfits)
    rw [hproduct] at hsome
    cases hsome
  | some v => exact Or.inl ⟨v, rfl, mulU256_eq.mp hproduct⟩

theorem gives_sub {a b : U256} (h : b.toNat ≤ a.toNat) :
    Gives fits (sub a b) fun v => v.toNat = a.toNat - b.toNat := by
  obtain ⟨v, hv⟩ := Option.isSome_iff_exists.mp (subU256_isSome.mpr h)
  exact Or.inl ⟨v, by rw [sub, hv]; rfl, by have := subU256_eq.mp hv; omega⟩

theorem gives_div {a b : U256} (h : 0 < b.toNat) :
    Gives fits (div a b) fun v => v.toNat = a.toNat / b.toNat := by
  obtain ⟨v, hv⟩ := Option.isSome_iff_exists.mp (divU256_isSome.mpr h : (divU256 a b).isSome)
  exact Or.inl ⟨v, by rw [div, hv]; rfl, (divU256_eq.mp hv).2⟩

end Panicking

end InterBit
