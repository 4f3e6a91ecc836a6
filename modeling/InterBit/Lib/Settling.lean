import Mathlib.Tactic.Linarith
import Mathlib.Tactic.Ring

/-!
# Iterations that stop when they settle

`settle` repeats a step until the value has moved by one at most, or the rounds are over. If every
step goes half of the way down to a bound, the rounds are enough (`settle_le`, `exists_settled`).

`rootStep` is Newton's step for the positive root of `y ^ 2 = b * y + c`, in whole numbers. What
it settles on is the root rounded down, or one more (`NearRoot`), and it is monotone in `c`.

`sqrtStep` is the step for a square root. From above it goes down to the root and stops there.
-/

namespace InterBit.Lib

/-- Repeat a step until the value moves by one at most. -/
def settle (f : Nat → Nat) : Nat → Nat → Nat
  | 0, v => v
  | n + 1, v => if f v ≤ v + 1 ∧ v ≤ f v + 1 then f v else settle f n (f v)

variable {f : Nat → Nat} {P : Nat → Prop}

theorem settle_invariant (hstep : ∀ v, P v → P (f v)) :
    ∀ (n : Nat) {v : Nat}, P v → P (settle f n v) := by
  intro n
  induction n with
  | zero => exact fun h => h
  | succ n ih =>
    intro v h
    rw [settle]
    split
    next => exact hstep v h
    next => exact ih (hstep v h)

/-- If every step goes half of the way down to a bound, nothing more than the bound is left. -/
theorem settle_le {bound : Nat} (hstep : ∀ v, P v → P (f v))
    (hhalf : ∀ v, P v → 2 * f v ≤ v + bound) :
    ∀ (n : Nat) {v : Nat}, P v → v ≤ bound + 2 ^ n → settle f n v ≤ bound + 1 := by
  intro n
  induction n with
  | zero =>
    intro v _ h
    rw [pow_zero] at h
    exact h
  | succ n ih =>
    intro v hv h
    have hdown := hhalf v hv
    rw [settle]
    split
    next hclose => omega
    next =>
      rw [pow_succ] at h
      exact ih (hstep v hv) (by omega)

/-- If every step goes half of the way down to `m`, the last one is a step by one at most. -/
theorem exists_settled {m : Nat} (hstep : ∀ v, P v → P (f v)) (hge : ∀ v, P v → m ≤ v)
    (hhalf : ∀ v, P v → m < v → 2 * f v ≤ v + m) (hstill : f m ≤ m + 1) :
    ∀ (n : Nat) {v : Nat}, P v → v < m + 2 ^ (n + 1) →
      ∃ y, P y ∧ settle f (n + 1) v = f y ∧ f y ≤ y + 1 ∧ y ≤ f y + 1 := by
  intro n
  induction n with
  | zero =>
    intro v hv h
    have hclose : f v ≤ v + 1 ∧ v ≤ f v + 1 := by
      have hnext := hge _ (hstep v hv)
      rcases Nat.eq_or_lt_of_le (hge v hv) with rfl | hlt
      · omega
      · have hdown := hhalf v hv hlt
        omega
    exact ⟨v, hv, if_pos hclose, hclose⟩
  | succ n ih =>
    intro v hv h
    by_cases hclose : f v ≤ v + 1 ∧ v ≤ f v + 1
    · exact ⟨v, hv, if_pos hclose, hclose⟩
    · rw [settle, if_neg hclose]
      refine ih (hstep v hv) ?_
      have hnext := hge _ (hstep v hv)
      rcases Nat.eq_or_lt_of_le (hge v hv) with rfl | hlt
      · omega
      · have hdown := hhalf v hv hlt
        rw [pow_succ] at h
        omega

/-! ### The positive root of a quadratic equation -/

/-- Newton's step for `y ^ 2 = b * y + c`. -/
def rootStep (b c y : Nat) : Nat := (y * y + c) / (2 * y - b)

/-- The positive root of `y ^ 2 = b * y + c` rounded down, or one more if that is very near. -/
structure NearRoot (b c y : Nat) : Prop where
  base : b ≤ y
  le : y * y ≤ b * y + c + 1
  lt : b * (y + 1) + c < (y + 1) * (y + 1)

variable {b c y : Nat}

theorem le_rootStep (hb : 0 < b) (hy : b ≤ y) : b ≤ rootStep b c y := by
  obtain ⟨t, rfl⟩ := Nat.exists_eq_add_of_le hy
  rw [rootStep, Nat.le_div_iff_mul_le (by omega), show 2 * (b + t) - b = b + 2 * t by omega]
  nlinarith only [Nat.zero_le (t * t), Nat.zero_le c]

/-- A bound of the first step from `b` is a bound of all. -/
theorem rootStep_le {bound : Nat} (hb : 0 < b) (hy : b ≤ y) (hle : y ≤ bound)
    (hbound : b * b + c ≤ b * bound) : rootStep b c y ≤ bound := by
  have hpos : 0 < 2 * y - b := by omega
  refine Nat.le_of_lt_succ ((Nat.div_lt_iff_lt_mul hpos).mpr ?_)
  obtain ⟨t, rfl⟩ := Nat.exists_eq_add_of_le hy
  obtain ⟨s, rfl⟩ := Nat.exists_eq_add_of_le hle
  rw [show 2 * (b + t) - b = b + 2 * t by omega]
  nlinarith only [hbound, hb, Nat.zero_le (t * t), Nat.zero_le (t * s), Nat.zero_le t]

/-- A step never goes below the root. -/
theorem lt_rootStep (hb : 0 < b) (hy : b ≤ y) :
    b * (rootStep b c y + 1) + c < (rootStep b c y + 1) * (rootStep b c y + 1) := by
  have hlt : y * y + c < (2 * y - b) * (rootStep b c y + 1) := Nat.lt_mul_div_succ _ (by omega)
  generalize rootStep b c y + 1 = z at hlt ⊢
  zify [show b ≤ 2 * y by omega] at hlt ⊢
  nlinarith only [hlt, sq_nonneg ((z : ℤ) - y)]

/-- A step by one at most ends near the root. -/
theorem nearRoot_rootStep (hb : 0 < b) (hy : b ≤ y) (hup : rootStep b c y ≤ y + 1)
    (hdown : y ≤ rootStep b c y + 1) : NearRoot b c (rootStep b c y) where
  base := le_rootStep hb hy
  le := by
    have hle : rootStep b c y * (2 * y - b) ≤ y * y + c := Nat.div_mul_le_self ..
    generalize rootStep b c y = z at hle hup hdown ⊢
    zify [show b ≤ 2 * y by omega] at hle hup hdown ⊢
    -- The squares differ by the square of the step.
    have hsquare : ((z : ℤ) - y) * (z - y) ≤ 1 := by
      nlinarith only [hup, hdown]
    nlinarith only [hle, hsquare]
  lt := lt_rootStep hb hy

/-- The root rounded down. -/
theorem exists_root (b c : Nat) :
    ∃ m, b ≤ m ∧ m * m ≤ b * m + c ∧ b * (m + 1) + c < (m + 1) * (m + 1) := by
  have hbase : b * b ≤ b * b + c := Nat.le_add_right ..
  refine ⟨Nat.findGreatest (fun t => t * t ≤ b * t + c) (b + c),
    Nat.le_findGreatest (Nat.le_add_right ..) hbase,
    Nat.findGreatest_spec (P := fun t => t * t ≤ b * t + c) (Nat.le_add_right b c) hbase, ?_⟩
  generalize hm : Nat.findGreatest (fun t => t * t ≤ b * t + c) (b + c) = m
  rcases Nat.lt_or_ge m (b + c) with hlt | hge
  · exact Nat.lt_of_not_le (Nat.findGreatest_is_greatest (P := fun t => t * t ≤ b * t + c)
      (by rw [hm]; exact Nat.lt_succ_self m) hlt)
  · nlinarith only [hge, Nat.zero_le m, Nat.zero_le b, Nat.zero_le c]

/-- What is not above the root is not above a number near it. -/
theorem le_of_sq_le {t z : Nat} (hz : b ≤ z) (ht : t * t ≤ b * t + c)
    (hlt : b * (z + 1) + c < (z + 1) * (z + 1)) : t ≤ z := by
  by_contra! hgt
  obtain ⟨s, rfl⟩ := Nat.exists_eq_add_of_le hgt
  obtain ⟨k, rfl⟩ := Nat.exists_eq_add_of_le hz
  nlinarith only [ht, hlt, Nat.zero_le (s * s), Nat.zero_le (s * k), Nat.zero_le (s * b)]

/-- Above the root, a step goes half of the way down at least. -/
theorem rootStep_half {m : Nat} (hm : b ≤ m)
    (hlt : b * (m + 1) + c < (m + 1) * (m + 1)) (hy : m < y) :
    2 * rootStep b c y ≤ y + m := by
  have hle : rootStep b c y * (2 * y - b) ≤ y * y + c := Nat.div_mul_le_self ..
  generalize rootStep b c y = z at hle ⊢
  by_contra! hgt
  obtain ⟨t, rfl⟩ := Nat.exists_eq_add_of_le hy
  obtain ⟨k, rfl⟩ := Nat.exists_eq_add_of_le hm
  rw [show 2 * (b + k + 1 + t) - b = b + 2 * k + 2 + 2 * t by omega] at hle
  have hmul := Nat.mul_le_mul_right (b + 2 * k + 2 + 2 * t)
    (show 2 * (b + k) + 2 + t ≤ 2 * z by omega)
  nlinarith only [hmul, hle, hlt, Nat.zero_le (t * t), Nat.zero_le (t * k), Nat.zero_le (t * b)]

/-- At the root, a step does not go further than by one. -/
theorem rootStep_root {m : Nat} (hb : 0 < b) (hm : b ≤ m)
    (hlt : b * (m + 1) + c < (m + 1) * (m + 1)) : rootStep b c m ≤ m + 1 := by
  have hpos : 0 < 2 * m - b := by omega
  refine Nat.le_of_lt_succ ((Nat.div_lt_iff_lt_mul hpos).mpr ?_)
  obtain ⟨k, rfl⟩ := Nat.exists_eq_add_of_le hm
  rw [show 2 * (b + k) - b = b + 2 * k by omega] at hpos ⊢
  rw [Nat.succ_eq_add_one]
  nlinarith only [hlt, hpos]

/-- The iteration ends near the root. -/
theorem settle_nearRoot (hb : 0 < b) (hy : b ≤ y) (n : Nat)
    (hfirst : rootStep b c y < 2 ^ (n + 1)) :
    NearRoot b c (settle (rootStep b c) (n + 2) y) := by
  by_cases hclose : rootStep b c y ≤ y + 1 ∧ y ≤ rootStep b c y + 1
  · rw [settle, if_pos hclose]
    exact nearRoot_rootStep hb hy hclose.1 hclose.2
  rw [settle, if_neg hclose]
  obtain ⟨m, hm, hle, hroot⟩ := exists_root b c
  -- After the first step it is never below the root.
  have habove : ∀ v, m ≤ v → m ≤ rootStep b c v := by
    intro v hv
    exact le_of_sq_le (le_rootStep hb (hm.trans hv)) hle (lt_rootStep hb (hm.trans hv))
  have hstart : m ≤ rootStep b c y := le_of_sq_le (le_rootStep hb hy) hle (lt_rootStep hb hy)
  obtain ⟨v, hv, heq, hup, hdown⟩ := exists_settled habove (fun v hv => hv)
    (fun v _ hlt => rootStep_half hm hroot hlt) (rootStep_root hb hm hroot) n hstart
    (show rootStep b c y < m + 2 ^ (n + 1) by omega)
  rw [heq]
  exact nearRoot_rootStep hb (hm.trans hv) hup hdown

/-- The larger `c` is, the larger is the number. -/
theorem NearRoot.mono {c' y' : Nat} (h : NearRoot b c y) (h' : NearRoot b c' y') (hc : c < c') :
    y ≤ y' :=
  le_of_sq_le h'.base (h.le.trans (by omega)) h'.lt

/-! ### The square root -/

/-- Newton's step for `z ^ 2 = x`. -/
def sqrtStep (x z : Nat) : Nat := (x / z + z) / 2

variable {x z : Nat}

/-- A step never goes below the root. -/
theorem sqrt_le_sqrtStep (hz : 0 < z) : Nat.sqrt x ≤ sqrtStep x z := by
  have hroot : Nat.sqrt x * Nat.sqrt x ≤ x := Nat.sqrt_le x
  generalize Nat.sqrt x = m at hroot ⊢
  have hquotient : 2 * m - z ≤ x / z := by
    rw [Nat.le_div_iff_mul_le hz]
    refine le_trans ?_ hroot
    rcases Nat.le_total (2 * m) z with hle | hle
    · rw [Nat.sub_eq_zero_of_le hle, Nat.zero_mul]
      exact Nat.zero_le _
    · zify [hle]
      nlinarith only [sq_nonneg ((m : ℤ) - z)]
  rw [sqrtStep, Nat.le_div_iff_mul_le (by decide)]
  omega

/-- A step that does not go down from above has found the root. -/
theorem eq_sqrt_of_le_sqrtStep (hz : 0 < z) (habove : Nat.sqrt x ≤ z) (hstop : z ≤ sqrtStep x z) :
    z = Nat.sqrt x := by
  have hquotient : z ≤ x / z := by
    rw [sqrtStep, Nat.le_div_iff_mul_le (by decide)] at hstop
    omega
  rw [Nat.le_div_iff_mul_le hz] at hquotient
  exact le_antisymm (Nat.le_sqrt.mpr hquotient) habove

/-- What a step adds up is largest at the two ends. -/
theorem div_add_le (hz : 1 ≤ z) (hle : z ≤ x) : x / z + z ≤ x + 1 := by
  have hmul : x / z * z ≤ x := Nat.div_mul_le_self ..
  have hpos : 1 ≤ x / z := by
    rw [Nat.le_div_iff_mul_le hz]
    omega
  nlinarith only [hmul, Nat.mul_le_mul hpos hz, hpos, hz]

end InterBit.Lib
